import UniMem.Library.AppendedLines
import UniMem.Library.JsonText

/-!
# Lines and texts of bytes

`bytes.splitlines`, decoding with replacement and the ASCII texts of `json.dumps`, as the modelled readers and writers
of line files use them.
-/

namespace UniMem

open Library AppendedLines

/-- The loop of `bytes.splitlines`, with the open line in reverse. -/
def splitLoop (line : Bytes) (returned : Bool) : Bytes → List Bytes
  | [] => if line = [] then [] else [line.reverse]
  | byte :: rest =>
    if byte = 0x0a then
      if returned then splitLoop [] false rest else line.reverse :: splitLoop [] false rest
    else if byte = 0x0d then line.reverse :: splitLoop [] true rest
    else splitLoop (byte :: line) false rest

/-- `bytes.splitlines`. -/
def splitlines (bytes : Bytes) : List Bytes := splitLoop [] false bytes

variable {text rest other : Bytes} {low high value : ℕ} {byte : UInt8}

theorem splitLoop_of_printable (h : ∀ byte ∈ text, 0x20 ≤ byte.toNat) (line rest : Bytes) :
    splitLoop line false (text ++ newline :: rest) = (line.reverse ++ text) :: splitLoop [] false rest := by
  induction text generalizing line with
  | nil =>
    rw [List.append_nil]
    rfl
  | cons byte text ih =>
    obtain ⟨hbyte, htext⟩ := List.forall_mem_cons.mp h
    have hfeed : byte ≠ 0x0a := fun heq ↦ absurd (heq ▸ hbyte) (by decide)
    have hreturn : byte ≠ 0x0d := fun heq ↦ absurd (heq ▸ hbyte) (by decide)
    rw [List.cons_append, splitLoop, if_neg hfeed, if_neg hreturn, ih htext, List.reverse_cons, List.append_assoc]
    rfl

theorem splitlines_of_printable (h : ∀ byte ∈ text, 0x20 ≤ byte.toNat) :
    splitlines (text ++ [newline]) = [text] :=
  splitLoop_of_printable h [] []

theorem splitLoop_append (line : Bytes) (returned : Bool) (first second : Bytes) :
    splitLoop line returned (first ++ newline :: second) =
      splitLoop line returned (first ++ [newline]) ++ splitLoop [] false second := by
  induction first generalizing line returned with
  | nil => cases returned <;> rfl
  | cons byte first ih =>
    rw [List.cons_append, List.cons_append, splitLoop, splitLoop]
    split_ifs
    · exact ih _ _
    · rw [ih, List.cons_append]
    · rw [ih, List.cons_append]
    · exact ih _ _

theorem splitlines_append {first : Bytes} (h : Closed first) (second : Bytes) :
    splitlines (first ++ second) = splitlines first ++ splitlines second := by
  obtain rfl | ⟨before, rfl⟩ := h.eq_nil_or_concat
  · rfl
  · rw [List.append_assoc]
    exact splitLoop_append [] false before second

/-- The whitespace that `bytes.strip` removes. -/
def isSpaceByte (byte : UInt8) : Bool := byte = 0x20 || (0x09 ≤ byte.toNat && byte.toNat ≤ 0x0d)

/-- How many bytes follow the first byte of a character, and the bounds of the next. -/
def continuation (first : UInt8) : Option (ℕ × ℕ × ℕ) :=
  if 0xc2 ≤ first.toNat ∧ first.toNat ≤ 0xdf then some (1, 0x80, 0xbf)
  else if first.toNat = 0xe0 then some (2, 0xa0, 0xbf)
  else if first.toNat = 0xed then some (2, 0x80, 0x9f)
  else if 0xe1 ≤ first.toNat ∧ first.toNat ≤ 0xef then some (2, 0x80, 0xbf)
  else if first.toNat = 0xf0 then some (3, 0x90, 0xbf)
  else if 0xf1 ≤ first.toNat ∧ first.toNat ≤ 0xf3 then some (3, 0x80, 0xbf)
  else if first.toNat = 0xf4 then some (3, 0x80, 0x8f)
  else none

/-- The bytes that continue a character, up to the number it needs. -/
def following : ℕ → ℕ → ℕ → Bytes → Bytes
  | need + 1, low, high, byte :: rest =>
    if low ≤ byte.toNat ∧ byte.toNat ≤ high then byte :: following need 0x80 0xbf rest else []
  | _, _, _, _ => []

/-- The character of a first byte and the bytes that follow it. -/
def scalar (first : UInt8) (taken : Bytes) : Char :=
  Char.ofNat (taken.foldl (fun value byte ↦ value * 64 + byte.toNat % 64) (first.toNat % 2 ^ (6 - taken.length)))

/-- `bytes.decode("utf-8", errors="replace")`. -/
def decodeReplace : Bytes → List Char
  | [] => []
  | first :: rest =>
    if first.toNat < 0x80 then Char.ofNat first.toNat :: decodeReplace rest
    else
      match continuation first with
      | none => Char.ofNat 0xfffd :: decodeReplace rest
      | some (need, low, high) =>
        let taken := following need low high rest
        (if taken.length = need then scalar first taken else Char.ofNat 0xfffd) ::
          decodeReplace (rest.drop taken.length)
termination_by bytes => bytes.length
decreasing_by all_goals simp_wf

theorem length_following_le (need low high : ℕ) (rest : Bytes) :
    (following need low high rest).length ≤ rest.length := by
  induction rest generalizing need low high with
  | nil => cases need <;> exact le_rfl
  | cons byte rest ih =>
    cases need with
    | zero => exact Nat.zero_le _
    | succ need =>
      rw [following]
      split_ifs
      · exact Nat.succ_le_succ (ih _ _ _)
      · exact Nat.zero_le _

theorem following_append {need low high : ℕ} (hlow : 0x80 ≤ low) (rest second : Bytes) :
    following need low high (rest ++ newline :: second) = following need low high rest := by
  induction rest generalizing need low high with
  | nil =>
    cases need with
    | zero => rfl
    | succ need =>
      have hnewline : newline.toNat = 10 := rfl
      rw [List.nil_append, following, if_neg (by omega)]
      rfl
  | cons byte rest ih =>
    cases need with
    | zero => rfl
    | succ need => rw [List.cons_append, following, following, ih (Nat.le_refl 0x80)]

theorem le_of_continuation {first : UInt8} {need : ℕ} (h : continuation first = some (need, low, high)) :
    0x80 ≤ low := by
  unfold continuation at h
  split_ifs at h <;> cases h <;> decide

theorem decodeReplace_nil : decodeReplace [] = [] := by rw [decodeReplace]

theorem decodeReplace_newline (rest : Bytes) : decodeReplace (newline :: rest) = '\n' :: decodeReplace rest := by
  rw [decodeReplace, if_pos (by decide)]
  rfl

theorem decodeReplace_append (first second : Bytes) :
    decodeReplace (first ++ newline :: second) = decodeReplace first ++ '\n' :: decodeReplace second := by
  induction hlength : first.length using Nat.strong_induction_on generalizing first with
  | _ length ih =>
    subst hlength
    cases first with
    | nil =>
      rw [List.nil_append, decodeReplace_newline, decodeReplace_nil]
      rfl
    | cons byte first =>
      rw [List.cons_append, decodeReplace, decodeReplace]
      by_cases hbyte : byte.toNat < 0x80
      · rw [if_pos hbyte, if_pos hbyte, ih _ (Nat.lt_succ_self _) _ rfl]
        rfl
      · rw [if_neg hbyte, if_neg hbyte]
        cases hcontinuation : continuation byte with
        | none =>
          dsimp only
          rw [ih _ (Nat.lt_succ_self _) _ rfl]
          rfl
        | some bounds =>
          obtain ⟨need, low, high⟩ := bounds
          dsimp only
          have hfollowing := @following_append need low high (le_of_continuation hcontinuation) first second
          have hle := length_following_le need low high first
          rw [hfollowing, List.drop_append_of_le_length hle,
            ih (first.drop (following need low high first).length).length
              (by rw [List.length_drop, List.length_cons]; omega) _ rfl]
          rfl

/-- `\uXXXX`. -/
def unicodeEscape (value : ℕ) : Bytes :=
  [0x5c, 0x75, Json.hexDigit (value / 4096 % 16), Json.hexDigit (value / 256 % 16), Json.hexDigit (value / 16 % 16),
    Json.hexDigit (value % 16)]

/-- One character of a text of `json.dumps`, escaped above `~`. -/
def asciiEscape (char : Char) : Bytes :=
  if char.toNat < 0x7f then Json.escape char
  else if char.toNat < 0x10000 then unicodeEscape char.toNat
  else unicodeEscape (0xd800 + (char.toNat - 0x10000) / 0x400) ++
    unicodeEscape (0xdc00 + (char.toNat - 0x10000) % 0x400)

/-- A text between quotes. -/
def asciiQuote (text : String) : Bytes := 0x22 :: (text.toList.flatMap asciiEscape ++ [0x22])

mutual

/-- `json.dumps(value)`. -/
def asciiDumps : Json → Bytes
  | .str value => asciiQuote value
  | .arr [] => [0x5b, 0x5d]
  | .arr (item :: items) => 0x5b :: (asciiDumps item ++ asciiItems items ++ [0x5d])
  | .obj [] => [0x7b, 0x7d]
  | .obj ((key, value) :: fields) =>
    0x7b :: (asciiQuote key ++ [0x3a, 0x20] ++ asciiDumps value ++ asciiFields fields ++ [0x7d])
  | other => other.encode .spaced

def asciiItems : List Json → Bytes
  | [] => []
  | item :: items => [0x2c, 0x20] ++ asciiDumps item ++ asciiItems items

def asciiFields : List (String × Json) → Bytes
  | [] => []
  | (key, value) :: fields => [0x2c, 0x20] ++ asciiQuote key ++ [0x3a, 0x20] ++ asciiDumps value ++ asciiFields fields

end

theorem le_of_mem_unicodeEscape (h : byte ∈ unicodeEscape value) : 0x20 ≤ byte.toNat := by
  simp only [unicodeEscape, List.mem_cons, List.not_mem_nil, or_false] at h
  rcases h with rfl | rfl | rfl | rfl | rfl | rfl
  · decide
  · decide
  all_goals exact Json.le_hexDigit _ (Nat.mod_lt _ (by decide))

theorem le_of_mem_asciiQuote {text : String} (h : byte ∈ asciiQuote text) : 0x20 ≤ byte.toNat := by
  rw [asciiQuote, List.mem_cons, List.mem_append, List.mem_singleton, List.mem_flatMap] at h
  rcases h with rfl | ⟨char, -, hbyte⟩ | rfl
  · decide
  · unfold asciiEscape at hbyte
    split_ifs at hbyte
    · exact Json.le_of_mem_escape hbyte
    · exact le_of_mem_unicodeEscape hbyte
    · exact (List.mem_append.mp hbyte).elim le_of_mem_unicodeEscape le_of_mem_unicodeEscape
  · decide

/-! A quoted text ends at its closing quote: every character is read back, surrogates included. -/

/-- The number of four hexadecimal digits. -/
def hexNumber (first second third fourth : UInt8) : ℕ :=
  ((Json.hexValue first * 16 + Json.hexValue second) * 16 + Json.hexValue third) * 16 + Json.hexValue fourth

/-- The first character of an ASCII text. -/
def readAscii : Bytes → Option (Char × Bytes)
  | 0x5c :: 0x75 :: first :: second :: third :: fourth :: rest =>
    let high := hexNumber first second third fourth
    if 0xd800 ≤ high ∧ high < 0xdc00 then
      match rest with
      | 0x5c :: 0x75 :: first :: second :: third :: fourth :: rest =>
        some (Char.ofNat (0x10000 + (high - 0xd800) * 0x400 + (hexNumber first second third fourth - 0xdc00)), rest)
      | _ => none
    else some (Char.ofNat high, rest)
  | bytes => Json.readChar bytes

theorem hexNumber_digits (h : value < 0x10000) :
    hexNumber (Json.hexDigit (value / 4096 % 16)) (Json.hexDigit (value / 256 % 16)) (Json.hexDigit (value / 16 % 16))
      (Json.hexDigit (value % 16)) = value := by
  unfold hexNumber
  rw [Json.hexValue_hexDigit (Nat.mod_lt _ (by decide)), Json.hexValue_hexDigit (Nat.mod_lt _ (by decide)),
    Json.hexValue_hexDigit (Nat.mod_lt _ (by decide)), Json.hexValue_hexDigit (Nat.mod_lt _ (by decide))]
  omega

theorem readAscii_unicodeEscape (h : value < 0x10000) (hplane : ¬(0xd800 ≤ value ∧ value < 0xdc00)) (rest : Bytes) :
    readAscii (unicodeEscape value ++ rest) = some (Char.ofNat value, rest) := by
  show (if 0xd800 ≤ hexNumber _ _ _ _ ∧ hexNumber _ _ _ _ < 0xdc00 then _ else some
    (Char.ofNat (hexNumber _ _ _ _), rest)) =
    _
  rw [hexNumber_digits h, if_neg hplane]

theorem readAscii_surrogates (hhigh : 0xd800 ≤ high ∧ high < 0xdc00) (hlow : low < 0x10000) (rest : Bytes) :
    readAscii (unicodeEscape high ++ (unicodeEscape low ++ rest)) =
      some (Char.ofNat (0x10000 + (high - 0xd800) * 0x400 + (low - 0xdc00)), rest) := by
  show (if 0xd800 ≤ hexNumber _ _ _ _ ∧ hexNumber _ _ _ _ < 0xdc00 then
    some (Char.ofNat (0x10000 + (hexNumber _ _ _ _ - 0xd800) * 0x400 + (hexNumber _ _ _ _ - 0xdc00)), rest) else _)
      = _
  rw [hexNumber_digits (hhigh.2.trans (by decide)), if_pos hhigh, hexNumber_digits hlow]

theorem readAscii_utf8EncodeChar {char : Char} (h : char ≠ '\\') (rest : Bytes) :
    readAscii (String.utf8EncodeChar char ++ rest) = some (char, rest) := by
  unfold readAscii
  split
  · next first second third fourth other heq =>
    have hchar := Json.utf8DecodeChar?_append char rest
    rw [heq] at hchar
    have hslash := Json.utf8DecodeChar?_append '\\' (0x75 :: first :: second :: third :: fourth :: other)
    exact absurd (Option.some.inj (hchar.symm.trans hslash)) h
  · exact Json.readChar_utf8EncodeChar h rest

theorem readAscii_escape (char : Char) (rest : Bytes) : readAscii (Json.escape char ++ rest) = some (char, rest) := by
  unfold Json.escape
  split_ifs with hquote hslash hnewline hreturn htab hback hfeed hsmall
  · rw [hquote]; rfl
  · rw [hslash]; rfl
  · rw [hnewline]; rfl
  · rw [hreturn]; rfl
  · rw [htab]; rfl
  · rw [Json.char_eq_of_toNat hback]; rfl
  · rw [Json.char_eq_of_toNat hfeed]; rfl
  · have hvalue : hexNumber 0x30 0x30 (Json.hexDigit (char.toNat / 16)) (Json.hexDigit (char.toNat % 16)) =
        char.toNat := by
      have hzero : Json.hexValue 0x30 = 0 := rfl
      rw [hexNumber, hzero, Json.hexValue_hexDigit (by omega), Json.hexValue_hexDigit (by omega)]
      omega
    show (if 0xd800 ≤ hexNumber _ _ _ _ ∧ hexNumber _ _ _ _ < 0xdc00 then _ else
      some (Char.ofNat (hexNumber _ _ _ _), rest)) = _
    rw [hvalue, if_neg (by omega), Char.ofNat_toNat]
  · exact readAscii_utf8EncodeChar hslash rest

theorem readAscii_asciiEscape (char : Char) (rest : Bytes) : readAscii (asciiEscape char ++ rest) =
    some (char, rest) := by
  have hvalid : char.toNat < 0xd800 ∨ 0xdfff < char.toNat ∧ char.toNat < 0x110000 := char.valid
  unfold asciiEscape
  split_ifs with hascii hplane
  · exact readAscii_escape char rest
  · rw [readAscii_unicodeEscape hplane (by omega), Char.ofNat_toNat]
  · rw [List.append_assoc, readAscii_surrogates (by omega) (by omega)]
    have hvalue : 0x10000 + (0xd800 + (char.toNat - 0x10000) / 0x400 - 0xd800) * 0x400 +
        (0xdc00 + (char.toNat - 0x10000) % 0x400 - 0xdc00) = char.toNat := by omega
    rw [hvalue, Char.ofNat_toNat]

theorem asciiEscape_append_ne (char : Char) (rest other : Bytes) : asciiEscape char ++ rest ≠ 0x22 :: other := by
  intro h
  have hread := readAscii_asciiEscape char rest
  have hne : '"' ≠ '\\' := by decide
  have hquote : readAscii (0x22 :: other) = some ('"', other) := readAscii_utf8EncodeChar hne other
  rw [h, hquote, Option.some.injEq, Prod.mk.injEq] at hread
  rw [← hread.1] at h
  exact absurd (List.cons.inj h).1 (by decide)

theorem chars_eq_of_asciiEscapes {first second : List Char}
    (h : first.flatMap asciiEscape ++ 0x22 :: rest = second.flatMap asciiEscape ++ 0x22 :: other) :
    first = second ∧ rest = other := by
  induction first generalizing second with
  | nil =>
    cases second with
    | nil => exact ⟨rfl, (List.cons.inj h).2⟩
    | cons char second =>
      rw [List.flatMap_cons, List.append_assoc] at h
      exact absurd h.symm (asciiEscape_append_ne _ _ _)
  | cons char first ih =>
    rw [List.flatMap_cons, List.append_assoc] at h
    cases second with
    | nil => exact absurd h (asciiEscape_append_ne _ _ _)
    | cons char' second =>
      rw [List.flatMap_cons, List.append_assoc] at h
      have hread := readAscii_asciiEscape char (first.flatMap asciiEscape ++ 0x22 :: rest)
      rw [h, readAscii_asciiEscape, Option.some.injEq, Prod.mk.injEq] at hread
      obtain ⟨rfl, rfl⟩ := ih hread.2.symm
      exact ⟨by rw [hread.1], rfl⟩

theorem asciiQuote_append_inj {first second : String} (h : asciiQuote first ++ rest = asciiQuote second ++ other) :
    first = second ∧ rest = other := by
  simp only [asciiQuote, List.cons_append, List.append_assoc, List.cons.injEq, true_and] at h
  obtain ⟨htext, hrest⟩ := chars_eq_of_asciiEscapes h
  exact ⟨String.toList_inj.mp htext, hrest⟩

end UniMem
