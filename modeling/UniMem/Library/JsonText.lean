import UniMem.Library.Json

/-!
# Reading JSON texts back

A character of a quoted text is read back from its bytes, so a quoted text ends at its closing quote. A number
ends at the first byte that no number has. Trees without floats are therefore determined by their text, whatever
follows it.
-/

namespace UniMem.Library.Json

/-- The value of a hexadecimal digit. -/
def hexValue (byte : UInt8) : ℕ := if byte.toNat < 0x60 then byte.toNat - 0x30 else byte.toNat - 0x57

/-- The character of an escape, without its backslash. -/
def unescape : Bytes → Option (Char × Bytes)
  | 0x75 :: _ :: _ :: high :: low :: rest => some (Char.ofNat (16 * hexValue high + hexValue low), rest)
  | letter :: rest =>
    (([(0x22, '"'), (0x5c, '\\'), (0x6e, '\n'), (0x72, '\r'), (0x74, '\t'), (0x62, Char.ofNat 8),
      (0x66, Char.ofNat 12)] : List (UInt8 × Char)).lookup letter).map fun char ↦ (char, rest)
  | [] => none

/-- The first character of a quoted text. -/
def readChar : Bytes → Option (Char × Bytes)
  | 0x5c :: rest => unescape rest
  | bytes => (ByteArray.utf8DecodeChar? bytes.toByteArray 0).map fun char ↦ (char, bytes.drop char.utf8Size)

theorem hexValue_hexDigit {value : ℕ} (h : value < 16) : hexValue (hexDigit value) = value := by
  unfold hexValue hexDigit
  interval_cases value <;> decide

theorem utf8DecodeChar?_append (char : Char) (rest : Bytes) :
    ByteArray.utf8DecodeChar? (String.utf8EncodeChar char ++ rest).toByteArray 0 = some char := by
  rw [List.toByteArray_append]
  exact ByteArray.utf8DecodeChar?_utf8EncodeChar_append

variable {value first second : Json} {char : Char} {other : Bytes} {items : List Json}
  {fields : List (String × Json)}

theorem readChar_utf8EncodeChar (h : char ≠ '\\') (rest : Bytes) :
    readChar (String.utf8EncodeChar char ++ rest) = some (char, rest) := by
  have hread : (ByteArray.utf8DecodeChar? (String.utf8EncodeChar char ++ rest).toByteArray 0).map
      (fun char' ↦ (char', (String.utf8EncodeChar char ++ rest).drop char'.utf8Size)) = some (char, rest) := by
    rw [utf8DecodeChar?_append, Option.map_some, ← String.length_utf8EncodeChar, List.drop_left]
  unfold readChar
  split
  · next other heq =>
    have hchar := utf8DecodeChar?_append char rest
    have hslash := utf8DecodeChar?_append '\\' other
    rw [heq] at hchar
    exact absurd (Option.some.inj (hchar.symm.trans hslash)) h
  · exact hread

theorem char_eq_of_toNat {value : ℕ} (h : char.toNat = value) : char = Char.ofNat value := by
  rw [← h, Char.ofNat_toNat]

theorem readChar_escape (char : Char) (rest : Bytes) : readChar (escape char ++ rest) = some (char, rest) := by
  unfold escape
  split_ifs with hquote hslash hnewline hreturn htab hback hfeed hsmall
  · rw [hquote]; rfl
  · rw [hslash]; rfl
  · rw [hnewline]; rfl
  · rw [hreturn]; rfl
  · rw [htab]; rfl
  · rw [char_eq_of_toNat hback]; rfl
  · rw [char_eq_of_toNat hfeed]; rfl
  · change some (Char.ofNat (16 * hexValue (hexDigit (char.toNat / 16)) + hexValue (hexDigit (char.toNat % 16))),
      rest) = _
    rw [hexValue_hexDigit (by omega), hexValue_hexDigit (by omega), Nat.div_add_mod, Char.ofNat_toNat]
  · exact readChar_utf8EncodeChar hslash rest

theorem escape_append_ne (char : Char) (rest other : Bytes) : escape char ++ rest ≠ 0x22 :: other := by
  intro h
  have hread := readChar_escape char rest
  have hne : '"' ≠ '\\' := by decide
  have hquote : readChar (0x22 :: other) = some ('"', other) := readChar_utf8EncodeChar hne other
  rw [h, hquote, Option.some.injEq, Prod.mk.injEq] at hread
  rw [← hread.1] at h
  exact absurd (List.cons.inj h).1 (by decide)

variable {rest : Bytes} {byte : UInt8}

theorem chars_eq_of_escapes {first second : List Char}
    (h : first.flatMap escape ++ 0x22 :: rest = second.flatMap escape ++ 0x22 :: other) :
    first = second ∧ rest = other := by
  induction first generalizing second with
  | nil =>
    cases second with
    | nil => exact ⟨rfl, (List.cons.inj h).2⟩
    | cons char second =>
      rw [List.flatMap_cons, List.append_assoc] at h
      exact absurd h.symm (escape_append_ne _ _ _)
  | cons char first ih =>
    rw [List.flatMap_cons, List.append_assoc] at h
    cases second with
    | nil => exact absurd h (escape_append_ne _ _ _)
    | cons char' second =>
      rw [List.flatMap_cons, List.append_assoc] at h
      have hread := readChar_escape char (first.flatMap escape ++ 0x22 :: rest)
      rw [h, readChar_escape, Option.some.injEq, Prod.mk.injEq] at hread
      obtain ⟨rfl, rfl⟩ := ih hread.2.symm
      exact ⟨by rw [hread.1], rfl⟩

theorem quote_append_inj {first second : String} (h : quote first ++ rest = quote second ++ other) :
    first = second ∧ rest = other := by
  simp only [quote, List.cons_append, List.append_assoc, List.cons.injEq, true_and] at h
  obtain ⟨htext, hrest⟩ := chars_eq_of_escapes h
  exact ⟨String.toList_inj.mp htext, hrest⟩

/-- The bytes of a number. -/
def Numeral (byte : UInt8) : Prop := byte = 0x2d ∨ (0x30 ≤ byte.toNat ∧ byte.toNat ≤ 0x39)

instance (byte : UInt8) : Decidable (Numeral byte) := inferInstanceAs (Decidable (_ ∨ _))

/-- A text that does not go on with a number. -/
def Delimited (rest : Bytes) : Prop := ∀ byte ∈ rest.head?, ¬Numeral byte

theorem takeWhile_of_delimited (h : Delimited rest) : rest.takeWhile Numeral = [] := by
  cases rest with
  | nil => rfl
  | cons byte rest =>
    rw [List.takeWhile_cons_of_neg]
    simpa using h byte (by simp)

theorem numeral_append_inj {first second : Bytes} (hfirst : ∀ byte ∈ first, Numeral byte)
    (hsecond : ∀ byte ∈ second, Numeral byte) (hrest : Delimited rest) (hother : Delimited other)
    (h : first ++ rest = second ++ other) : first = second ∧ rest = other := by
  have htake := congrArg (List.takeWhile fun byte ↦ decide (Numeral byte)) h
  rw [List.takeWhile_append_of_pos (by simpa using hfirst), List.takeWhile_append_of_pos (by simpa using hsecond),
    takeWhile_of_delimited hrest, takeWhile_of_delimited hother, List.append_nil, List.append_nil] at htake
  exact ⟨htake, List.append_cancel_left (htake ▸ h)⟩

theorem numeral_of_mem_utf8_digits {value : ℕ} (h : byte ∈ utf8 value.repr) : Numeral byte := by
  obtain ⟨char, hchar, hbyte⟩ := List.mem_flatMap.mp h
  have hmem : char ∈ Nat.toDigits 10 value := by simpa [Nat.repr] using hchar
  have hdigit := Nat.isDigit_of_mem_toDigits (by decide) (by decide) hmem
  simp only [Char.isDigit, Bool.and_eq_true, decide_eq_true_eq, ge_iff_le] at hdigit
  have hlow : 48 ≤ char.val.toNat := UInt32.le_iff_toNat_le.mp hdigit.1
  have hhigh : char.val.toNat ≤ 57 := UInt32.le_iff_toNat_le.mp hdigit.2
  unfold String.utf8EncodeChar at hbyte
  simp only at hbyte
  rw [if_pos (by omega), List.mem_singleton] at hbyte
  right
  rw [hbyte]
  simp only [UInt8.toNat_ofNat']
  omega

theorem numeral_of_mem_utf8_int {value : ℤ} (h : byte ∈ utf8 (toString value)) : Numeral byte := by
  cases value with
  | ofNat value => exact numeral_of_mem_utf8_digits h
  | negSucc value =>
    have hsplit : byte ∈ utf8 ("-" ++ value.succ.repr) := h
    rw [utf8, String.toList_append, List.flatMap_append, List.mem_append] at hsplit
    obtain hminus | hdigits := hsplit
    · exact Or.inl (List.mem_singleton.mp hminus)
    · exact numeral_of_mem_utf8_digits hdigits

theorem toString_int_injective {first second : ℤ} (h : toString first = toString second) : first = second := by
  have hfirst := Int.toInt?_repr first
  have hsecond := Int.toInt?_repr second
  change first.repr = second.repr at h
  rw [h, hsecond] at hfirst
  exact (Option.some.inj hfirst).symm

/-- Whether a node is a float. -/
def floats : Json → ℕ
  | float _ => 1
  | _ => 0

/-- A tree without floats. -/
def Plain (value : Json) : Prop := value.total floats = 0

theorem plain_of_mem_children {child : Json} (h : Plain value) (hchild : child ∈ value.children) :
    Plain child := by
  rw [Plain, total_eq] at h
  exact List.sum_eq_zero_iff.mp (Nat.eq_zero_of_add_eq_zero h).2 _ (List.mem_map.mpr ⟨child, hchild, rfl⟩)

theorem plain_iff : Plain value ↔ floats value = 0 ∧ ∀ child ∈ value.children, Plain child := by
  rw [Plain, total_eq, Nat.add_eq_zero_iff, List.sum_eq_zero_iff]
  simp only [List.mem_map, forall_exists_index, and_imp, forall_apply_eq_imp_iff₂]
  rfl

theorem perm_children_sortKeys (value : Json) : value.sortKeys.children.Perm (value.children.map sortKeys) := by
  cases value with
  | arr items => rw [sortKeys, sortKeysItems_eq]; exact List.Perm.refl _
  | obj fields =>
    rw [sortKeys, sortKeysFields_eq, children, children, List.map_map]
    refine ((List.perm_insertionSort (fun first second : String × Json ↦ first.1 ≤ second.1) _).map Prod.snd).trans ?_
    rw [List.map_map]
    exact List.Perm.refl _
  | _ => exact List.Perm.refl _

theorem plain_sortKeys (value : Json) : Plain value → Plain value.sortKeys := by
  induction value using children_induction with
  | step value ih =>
    intro h
    rw [plain_iff] at h ⊢
    refine ⟨?_, ?_⟩
    · cases value <;> first | rfl | exact h.1
    · intro child hchild
      obtain ⟨other, hother, rfl⟩ := List.mem_map.mp ((perm_children_sortKeys value).mem_iff.mp hchild)
      exact ih other hother (h.2 other hother)

/-- The kind of a tree. -/
def shape : Json → ℕ
  | null => 0
  | bool true => 1
  | bool false => 2
  | int _ => 3
  | str _ => 4
  | arr _ => 5
  | obj _ => 6
  | float _ => 7

/-- The kind of the trees whose texts start with a byte. -/
def shapeOfByte (byte : UInt8) : ℕ :=
  if byte = 0x6e then 0 else if byte = 0x74 then 1 else if byte = 0x66 then 2 else if Numeral byte then 3
  else if byte = 0x22 then 4 else if byte = 0x5b then 5 else if byte = 0x7b then 6 else 8

theorem shapeOfByte_of_numeral (h : Numeral byte) : shapeOfByte byte = 3 := by
  have hne : ∀ other : UInt8, ¬Numeral other → byte ≠ other := fun other hother heq ↦ hother (heq ▸ h)
  rw [shapeOfByte, if_neg (hne _ (by decide)), if_neg (hne _ (by decide)), if_neg (hne _ (by decide)), if_pos h]

theorem utf8_toString_int_ne_nil (value : ℤ) : utf8 (toString value) ≠ [] := by
  intro h
  have hempty : toString value = "" := utf8_injective (h.trans rfl)
  cases value with
  | ofNat value => exact Nat.repr_ne_empty hempty
  | negSucc value =>
    have hminus : "-" ++ value.succ.repr = "" := hempty
    exact absurd (String.append_eq_empty_iff.mp hminus).1 (by decide)

theorem encode_eq_cons (h : Plain value) (style : Style) :
    ∃ byte rest, encode style value = byte :: rest ∧ shapeOfByte byte = shape value := by
  cases value with
  | null => exact ⟨0x6e, utf8 "ull", by rw [encode]; rfl, rfl⟩
  | bool value =>
    cases value with
    | true => exact ⟨0x74, utf8 "rue", by rw [encode]; rfl, rfl⟩
    | false => exact ⟨0x66, utf8 "alse", by rw [encode]; rfl, rfl⟩
  | int value =>
    obtain ⟨byte, rest, heq⟩ := List.exists_cons_of_ne_nil (utf8_toString_int_ne_nil value)
    have hnumeral : Numeral byte := numeral_of_mem_utf8_int (heq ▸ List.mem_cons_self)
    exact ⟨byte, rest, by rw [encode, heq], shapeOfByte_of_numeral hnumeral⟩
  | float value => simp [Plain, total, floats] at h
  | str value => exact ⟨0x22, _, by rw [encode, quote], rfl⟩
  | arr items => cases items <;> exact ⟨0x5b, _, by rw [encode], rfl⟩
  | obj fields => cases fields <;> exact ⟨0x7b, _, by rw [encode], rfl⟩

theorem shape_eq (hfirst : Plain first) (hsecond : Plain second) {style : Style}
    (h : encode style first ++ rest = encode style second ++ other) :
    shape first = shape second := by
  obtain ⟨byte, tail, heq, hshape⟩ := encode_eq_cons hfirst style
  obtain ⟨byte', tail', heq', hshape'⟩ := encode_eq_cons hsecond style
  rw [heq, heq', List.cons_append, List.cons_append] at h
  rw [← hshape, ← hshape', (List.cons.inj h).1]

/-- A style whose items are separated by a comma. -/
def Style.Separated (style : Style) : Prop := ∃ rest, style.item = 0x2c :: rest

theorem Style.separated_spaced : Style.spaced.Separated := ⟨_, rfl⟩

/-- The text of a tree ends where the tree ends. -/
def Readable (style : Style) (first : Json) : Prop :=
  ∀ second rest other, Plain second → Delimited rest → Delimited other →
    encode style first ++ rest = encode style second ++ other → first = second ∧ rest = other

variable {style : Style}

section

variable (hstyle : style.Separated)
include hstyle

theorem delimited_items (items : List Json) (rest : Bytes) :
    Delimited (encodeItems style items ++ 0x5d :: rest) := by
  obtain ⟨tail, hitem⟩ := hstyle
  cases items with
  | nil =>
    rintro byte ⟨⟩
    decide
  | cons item items =>
    rw [encodeItems, hitem]
    rintro byte ⟨⟩
    decide

theorem delimited_fields (fields : List (String × Json)) (rest : Bytes) :
    Delimited (encodeFields style fields ++ 0x7d :: rest) := by
  obtain ⟨tail, hitem⟩ := hstyle
  cases fields with
  | nil =>
    rintro byte ⟨⟩
    decide
  | cons field fields =>
    obtain ⟨key, value⟩ := field
    rw [encodeFields, hitem]
    rintro byte ⟨⟩
    decide

theorem items_append_inj {others : List Json}
    (hitems : ∀ item ∈ items, Readable style item) (hothers : ∀ item ∈ others, Plain item)
    (h : encodeItems style items ++ 0x5d :: rest = encodeItems style others ++ 0x5d :: other) :
    items = others ∧ rest = other := by
  have hcomma : ∀ (item : Json) (more : List Json) (tail tail' : Bytes),
      encodeItems style (item :: more) ++ tail ≠ 0x5d :: tail' := by
    intro item more tail tail' heq
    obtain ⟨separator, hitem⟩ := hstyle
    rw [encodeItems, hitem] at heq
    exact absurd (List.cons.inj heq).1 (by decide)
  induction items generalizing others with
  | nil =>
    cases others with
    | nil => exact ⟨rfl, (List.cons.inj h).2⟩
    | cons item others => exact absurd h.symm (hcomma item others _ _)
  | cons item items ih =>
    cases others with
    | nil => exact absurd h (hcomma item items _ _)
    | cons item' others =>
      rw [List.forall_mem_cons] at hitems hothers
      simp only [encodeItems, List.append_assoc, List.append_cancel_left_eq] at h
      obtain ⟨rfl, hrest⟩ := hitems.1 item' _ _ hothers.1 (delimited_items hstyle items rest)
        (delimited_items hstyle others other) h
      obtain ⟨rfl, rfl⟩ := ih hitems.2 hothers.2 hrest
      exact ⟨rfl, rfl⟩

theorem fields_append_inj {others : List (String × Json)}
    (hfields : ∀ field ∈ fields, Readable style field.2) (hothers : ∀ field ∈ others, Plain field.2)
    (h : encodeFields style fields ++ 0x7d :: rest = encodeFields style others ++ 0x7d :: other) :
    fields = others ∧ rest = other := by
  have hcomma : ∀ (field : String × Json) (more : List (String × Json)) (tail tail' : Bytes),
      encodeFields style (field :: more) ++ tail ≠ 0x7d :: tail' := by
    intro field more tail tail' heq
    obtain ⟨separator, hitem⟩ := hstyle
    rw [encodeFields, hitem] at heq
    exact absurd (List.cons.inj heq).1 (by decide)
  induction fields generalizing others with
  | nil =>
    cases others with
    | nil => exact ⟨rfl, (List.cons.inj h).2⟩
    | cons field others => exact absurd h.symm (hcomma field others _ _)
  | cons field fields ih =>
    cases others with
    | nil => exact absurd h (hcomma field fields _ _)
    | cons field' others =>
      obtain ⟨key, value⟩ := field
      obtain ⟨key', value'⟩ := field'
      rw [List.forall_mem_cons] at hfields hothers
      simp only [encodeFields, List.append_assoc, List.append_cancel_left_eq] at h
      obtain ⟨rfl, hvalue⟩ := quote_append_inj h
      rw [List.append_cancel_left_eq] at hvalue
      obtain ⟨rfl, hrest⟩ := hfields.1 value' _ _ hothers.1 (delimited_fields hstyle fields rest)
        (delimited_fields hstyle others other) hvalue
      obtain ⟨rfl, rfl⟩ := ih hfields.2 hothers.2 hrest
      exact ⟨rfl, rfl⟩

omit hstyle in
theorem encode_append_ne (h : Plain value) (hbyte : shapeOfByte byte = 8) (rest other : Bytes) :
    encode style value ++ rest ≠ byte :: other := by
  intro heq
  obtain ⟨head, tail, hencode, hshape⟩ := encode_eq_cons h style
  rw [hencode] at heq
  rw [(List.cons.inj heq).1, hbyte] at hshape
  cases value with
  | bool value => cases value <;> cases hshape
  | float value => simp [Plain, total, floats] at h
  | _ => cases hshape

theorem readable_arr (hplain : Plain (arr items))
    (hitems : ∀ item ∈ items, Readable style item) : Readable style (arr items) := by
  intro second rest other hsecond hrest hother h
  have hshape := shape_eq hplain hsecond h
  cases second with
  | arr others =>
    have hothers : ∀ item ∈ others, Plain item := fun item hitem ↦ plain_of_mem_children hsecond hitem
    have hown : ∀ item ∈ items, Plain item := fun item hitem ↦ plain_of_mem_children hplain hitem
    cases items with
    | nil =>
      cases others with
      | nil => exact ⟨rfl, by simpa [encode] using h⟩
      | cons item others =>
        simp only [encode, List.cons_append, List.nil_append, List.append_assoc, List.cons.injEq, true_and] at h
        exact absurd h.symm (encode_append_ne (hothers item List.mem_cons_self) rfl _ _)
    | cons item items =>
      cases others with
      | nil =>
        simp only [encode, List.cons_append, List.nil_append, List.append_assoc, List.cons.injEq, true_and] at h
        exact absurd h (encode_append_ne (hown item List.mem_cons_self) rfl _ _)
      | cons item' others =>
        rw [List.forall_mem_cons] at hitems hothers
        simp only [encode, List.cons_append, List.append_assoc, List.cons.injEq, true_and, List.nil_append] at h
        obtain ⟨rfl, hmore⟩ := hitems.1 item' _ _ hothers.1 (delimited_items hstyle items rest)
          (delimited_items hstyle others other) h
        obtain ⟨rfl, rfl⟩ := items_append_inj hstyle hitems.2 hothers.2 hmore
        exact ⟨rfl, rfl⟩
  | bool value => cases value <;> cases hshape
  | _ => cases hshape

theorem readable_obj (hplain : Plain (obj fields))
    (hfields : ∀ field ∈ fields, Readable style field.2) : Readable style (obj fields) := by
  intro second rest other hsecond hrest hother h
  have hshape := shape_eq hplain hsecond h
  cases second with
  | obj others =>
    have hothers : ∀ field ∈ others, Plain field.2 := fun field hfield ↦
      plain_of_mem_children hsecond (List.mem_map.mpr ⟨field, hfield, rfl⟩)
    have hquote : ∀ (key : String) (tail tail' : Bytes), quote key ++ tail ≠ 0x7d :: tail' := by
      intro key tail tail' heq
      exact absurd (List.cons.inj heq).1 (by decide)
    cases fields with
    | nil =>
      cases others with
      | nil => exact ⟨rfl, by simpa [encode] using h⟩
      | cons field others =>
        obtain ⟨key, value⟩ := field
        simp only [encode, List.cons_append, List.nil_append, List.append_assoc, List.cons.injEq, true_and] at h
        exact absurd h.symm (hquote _ _ _)
    | cons field fields =>
      obtain ⟨key, value⟩ := field
      cases others with
      | nil =>
        simp only [encode, List.cons_append, List.nil_append, List.append_assoc, List.cons.injEq, true_and] at h
        exact absurd h (hquote _ _ _)
      | cons field' others =>
        obtain ⟨key', value'⟩ := field'
        rw [List.forall_mem_cons] at hfields hothers
        simp only [encode, List.cons_append, List.append_assoc, List.cons.injEq, true_and, List.nil_append] at h
        obtain ⟨rfl, hvalue⟩ := quote_append_inj h
        rw [List.append_cancel_left_eq] at hvalue
        obtain ⟨rfl, hmore⟩ := hfields.1 value' _ _ hothers.1 (delimited_fields hstyle fields rest)
          (delimited_fields hstyle others other) hvalue
        obtain ⟨rfl, rfl⟩ := fields_append_inj hstyle hfields.2 hothers.2 hmore
        exact ⟨rfl, rfl⟩
  | bool value => cases value <;> cases hshape
  | _ => cases hshape

theorem readable (value : Json) : Plain value → Readable style value := by
  induction value using children_induction with
  | step value ih =>
    intro hplain
    have hchildren : ∀ child ∈ value.children, Readable style child := fun child hchild ↦
      ih child hchild (plain_of_mem_children hplain hchild)
    cases value with
    | arr items => exact readable_arr hstyle hplain hchildren
    | obj fields =>
      exact readable_obj hstyle hplain fun field hfield ↦ hchildren _ (List.mem_map.mpr ⟨field, hfield, rfl⟩)
    | float value => simp [Plain, total, floats] at hplain
    | null =>
      intro second rest other hsecond _ _ h
      have hshape := shape_eq hplain hsecond h
      cases second with
      | null => exact ⟨rfl, List.append_cancel_left h⟩
      | bool value => cases value <;> cases hshape
      | _ => cases hshape
    | bool value =>
      intro second rest other hsecond _ _ h
      have hshape := shape_eq hplain hsecond h
      cases second with
      | bool value' => cases value <;> cases value' <;> first | exact ⟨rfl, List.append_cancel_left h⟩ | cases hshape
      | _ => cases value <;> cases hshape
    | int value =>
      intro second rest other hsecond hrest hother h
      have hshape := shape_eq hplain hsecond h
      cases second with
      | int value' =>
        rw [encode, encode] at h
        obtain ⟨htext, htail⟩ := numeral_append_inj (fun _ ↦ numeral_of_mem_utf8_int)
          (fun _ ↦ numeral_of_mem_utf8_int) hrest hother h
        rw [toString_int_injective (utf8_injective htext)]
        exact ⟨rfl, htail⟩
      | bool value => cases value <;> cases hshape
      | _ => cases hshape
    | str value =>
      intro second rest other hsecond _ _ h
      have hshape := shape_eq hplain hsecond h
      cases second with
      | str value' =>
        rw [encode, encode] at h
        obtain ⟨rfl, htail⟩ := quote_append_inj h
        exact ⟨rfl, htail⟩
      | bool value => cases value <;> cases hshape
      | _ => cases hshape

theorem encode_injective (hfirst : Plain first) (hsecond : Plain second)
    (h : encode style first = encode style second) : first = second := by
  have hend : Delimited [] := fun byte hbyte ↦ by cases hbyte
  refine (readable hstyle first hfirst second [] [] hsecond hend hend ?_).1
  rw [List.append_nil, List.append_nil, h]

end

end UniMem.Library.Json
