import Mathlib

/-!
# JSON trees and their text

Trees keep the order of the fields of an object, and their text is written as bytes. Two trees are the same value
when they agree after sorting fields, and lookups respect this.
-/

namespace UniMem.Library

/-- Texts as they stand in a file. -/
abbrev Bytes := List UInt8

variable {α : Type}

theorem mem_of_lookup {κ : Type} [BEq κ] [LawfulBEq κ] {entries : List (κ × α)} {key : κ} {value : α}
    (h : entries.lookup key = some value) : (key, value) ∈ entries := by
  obtain ⟨before, after, rfl, -⟩ := List.lookup_eq_some_iff.mp h
  exact List.mem_append_right _ List.mem_cons_self

/-- A float: its shortest text and its exact value, if it is finite. -/
structure Decimal where
  text : String
  value : Option ℚ
  printable : ∀ char ∈ text.toList, 32 ≤ char.toNat

/-- A JSON tree. -/
inductive Json where
  | null
  | bool (value : Bool)
  | int (value : ℤ)
  | float (value : Decimal)
  | str (value : String)
  | arr (items : List Json)
  | obj (fields : List (String × Json))

namespace Json

/-- The items of an array or the values of an object. -/
def children : Json → List Json
  | arr items => items
  | obj fields => fields.map Prod.snd
  | _ => []

mutual

variable {property : Json → Prop}

theorem children_induction (step : ∀ value, (∀ child ∈ value.children, property child) → property value) :
    ∀ value, property value
  | arr items => step _ (items_induction step items)
  | obj fields => step _ (fields_induction step fields)
  | null => step _ fun _ h ↦ absurd h List.not_mem_nil
  | bool _ => step _ fun _ h ↦ absurd h List.not_mem_nil
  | int _ => step _ fun _ h ↦ absurd h List.not_mem_nil
  | float _ => step _ fun _ h ↦ absurd h List.not_mem_nil
  | str _ => step _ fun _ h ↦ absurd h List.not_mem_nil

theorem items_induction (step : ∀ value, (∀ child ∈ value.children, property child) → property value) :
    ∀ items : List Json, ∀ child ∈ items, property child
  | [], _, h => absurd h List.not_mem_nil
  | item :: items, child, h =>
    (List.mem_cons.mp h).elim (fun hchild ↦ hchild ▸ children_induction step item) (items_induction step items child)

theorem fields_induction (step : ∀ value, (∀ child ∈ value.children, property child) → property value) :
    ∀ fields : List (String × Json), ∀ child ∈ fields.map Prod.snd, property child
  | [], _, h => absurd h List.not_mem_nil
  | (_, value) :: fields, child, h =>
    (List.mem_cons.mp h).elim (fun hchild ↦ hchild ▸ children_induction step value)
      (fields_induction step fields child)

end

mutual

/-- The sum of a quantity over all nodes of a tree. -/
def total (own : Json → ℕ) : Json → ℕ
  | arr items => own (arr items) + totalItems own items
  | obj fields => own (obj fields) + totalFields own fields
  | value => own value

def totalItems (own : Json → ℕ) : List Json → ℕ
  | [] => 0
  | item :: items => total own item + totalItems own items

def totalFields (own : Json → ℕ) : List (String × Json) → ℕ
  | [] => 0
  | (_, value) :: fields => total own value + totalFields own fields

end

mutual

/-- A property of every node of a tree, given its depth below `depth`. -/
def Everywhere (property : ℕ → Json → Prop) (depth : ℕ) : Json → Prop
  | arr items => property depth (arr items) ∧ EverywhereItems property (depth + 1) items
  | obj fields => property depth (obj fields) ∧ EverywhereFields property (depth + 1) fields
  | value => property depth value

def EverywhereItems (property : ℕ → Json → Prop) (depth : ℕ) : List Json → Prop
  | [] => True
  | item :: items => Everywhere property depth item ∧ EverywhereItems property depth items

def EverywhereFields (property : ℕ → Json → Prop) (depth : ℕ) : List (String × Json) → Prop
  | [] => True
  | (_, value) :: fields => Everywhere property depth value ∧ EverywhereFields property depth fields

end

mutual

/-- `Everywhere` is decided node by node. -/
def decidableEverywhere (property : ℕ → Json → Prop)
    [∀ depth value, Decidable (property depth value)] (depth : ℕ) :
    (value : Json) → Decidable (Everywhere property depth value)
  | arr items =>
    have := decidableEverywhereItems property (depth + 1) items
    inferInstanceAs (Decidable (_ ∧ _))
  | obj fields =>
    have := decidableEverywhereFields property (depth + 1) fields
    inferInstanceAs (Decidable (_ ∧ _))
  | null => inferInstanceAs (Decidable (property depth null))
  | bool value => inferInstanceAs (Decidable (property depth (bool value)))
  | int value => inferInstanceAs (Decidable (property depth (int value)))
  | float value => inferInstanceAs (Decidable (property depth (float value)))
  | str value => inferInstanceAs (Decidable (property depth (str value)))

def decidableEverywhereItems (property : ℕ → Json → Prop)
    [∀ depth value, Decidable (property depth value)] (depth : ℕ) :
    (items : List Json) → Decidable (EverywhereItems property depth items)
  | [] => isTrue trivial
  | item :: items =>
    have := decidableEverywhere property depth item
    have := decidableEverywhereItems property depth items
    inferInstanceAs (Decidable (_ ∧ _))

def decidableEverywhereFields (property : ℕ → Json → Prop)
    [∀ depth value, Decidable (property depth value)] (depth : ℕ) :
    (fields : List (String × Json)) → Decidable (EverywhereFields property depth fields)
  | [] => isTrue trivial
  | (_, value) :: fields =>
    have := decidableEverywhere property depth value
    have := decidableEverywhereFields property depth fields
    inferInstanceAs (Decidable (_ ∧ _))

end

instance (property : ℕ → Json → Prop) [∀ depth value, Decidable (property depth value)]
    (depth : ℕ) (value : Json) : Decidable (Everywhere property depth value) :=
  decidableEverywhere property depth value

theorem totalItems_eq (own : Json → ℕ) (items : List Json) :
    totalItems own items = (items.map (total own)).sum := by
  induction items with
  | nil => rfl
  | cons item items ih => rw [totalItems, ih, List.map_cons, List.sum_cons]

theorem totalFields_eq (own : Json → ℕ) (fields : List (String × Json)) :
    totalFields own fields = (fields.map fun field ↦ total own field.2).sum := by
  induction fields with
  | nil => rfl
  | cons field fields ih => rw [totalFields, ih, List.map_cons, List.sum_cons]

theorem total_eq (own : Json → ℕ) (value : Json) :
    total own value = own value + (value.children.map (total own)).sum := by
  cases value with
  | arr items => rw [total, totalItems_eq, children]
  | obj fields => rw [total, totalFields_eq, children, List.map_map]; rfl
  | _ => simp [total, children]

theorem everywhereItems_iff (property : ℕ → Json → Prop) (depth : ℕ) (items : List Json) :
    EverywhereItems property depth items ↔ ∀ item ∈ items, Everywhere property depth item := by
  induction items with
  | nil => simp [EverywhereItems]
  | cons item items ih => simp [EverywhereItems, ih]

theorem everywhereFields_iff (property : ℕ → Json → Prop) (depth : ℕ) (fields : List (String × Json)) :
    EverywhereFields property depth fields ↔ ∀ field ∈ fields, Everywhere property depth field.2 := by
  induction fields with
  | nil => simp [EverywhereFields]
  | cons field fields ih => rw [EverywhereFields, ih, List.forall_mem_cons]

theorem everywhere_iff (property : ℕ → Json → Prop) (depth : ℕ) (value : Json) :
    Everywhere property depth value ↔
      property depth value ∧ ∀ child ∈ value.children, Everywhere property (depth + 1) child := by
  cases value with
  | arr items => rw [Everywhere, everywhereItems_iff, children]
  | obj fields =>
    rw [Everywhere, everywhereFields_iff, children]
    simp only [List.mem_map, forall_exists_index, and_imp, forall_apply_eq_imp_iff₂]
  | _ => simp [Everywhere, children]

/-- The separators of a text: between items and after a key. -/
structure Style where
  item : Bytes
  key : Bytes

/-- `", "` and `": "`. -/
def Style.spaced : Style := ⟨[0x2c, 0x20], [0x3a, 0x20]⟩

/-- `","` and `":"`. -/
def Style.compact : Style := ⟨[0x2c], [0x3a]⟩

/-- The bytes of a text in UTF-8. -/
def utf8 (text : String) : Bytes := text.toList.flatMap String.utf8EncodeChar

theorem utf8_injective {first second : String} (h : utf8 first = utf8 second) : first = second := by
  have hbytes : first.toList.utf8Encode = second.toList.utf8Encode := congrArg List.toByteArray h
  rwa [String.utf8Encode_toList, String.utf8Encode_toList, String.toByteArray_inj] at hbytes

/-- A lowercase hexadecimal digit. -/
def hexDigit (value : ℕ) : UInt8 :=
  if value < 10 then UInt8.ofNat (0x30 + value) else UInt8.ofNat (0x57 + value)

/-- One character of a quoted text. -/
def escape (char : Char) : Bytes :=
  if char = '"' then [0x5c, 0x22]
  else if char = '\\' then [0x5c, 0x5c]
  else if char = '\n' then [0x5c, 0x6e]
  else if char = '\r' then [0x5c, 0x72]
  else if char = '\t' then [0x5c, 0x74]
  else if char.toNat = 8 then [0x5c, 0x62]
  else if char.toNat = 12 then [0x5c, 0x66]
  else if char.toNat < 32 then
    [0x5c, 0x75, 0x30, 0x30, hexDigit (char.toNat / 16), hexDigit (char.toNat % 16)]
  else String.utf8EncodeChar char

/-- A text between quotes. -/
def quote (text : String) : Bytes := 0x22 :: (text.toList.flatMap escape ++ [0x22])

mutual

/-- The text of a tree. -/
def encode (style : Style) : Json → Bytes
  | null => utf8 "null"
  | bool true => utf8 "true"
  | bool false => utf8 "false"
  | int value => utf8 (toString value)
  | float value => utf8 value.text
  | str value => quote value
  | arr [] => [0x5b, 0x5d]
  | arr (item :: items) => 0x5b :: (encode style item ++ encodeItems style items ++ [0x5d])
  | obj [] => [0x7b, 0x7d]
  | obj ((key, value) :: fields) =>
    0x7b :: (quote key ++ style.key ++ encode style value ++ encodeFields style fields ++ [0x7d])

def encodeItems (style : Style) : List Json → Bytes
  | [] => []
  | item :: items => style.item ++ encode style item ++ encodeItems style items

def encodeFields (style : Style) : List (String × Json) → Bytes
  | [] => []
  | (key, value) :: fields =>
    style.item ++ quote key ++ style.key ++ encode style value ++ encodeFields style fields

end

/-! Every byte of a text is the space or lies above it: line breaks only stand between texts. -/

variable {char : Char} {byte : UInt8} {text : String} {first second : Json}

theorem le_of_mem_utf8EncodeChar (hchar : 32 ≤ char.toNat) (h : byte ∈ String.utf8EncodeChar char) :
    32 ≤ byte.toNat := by
  have hval : char.toNat = char.val.toNat := rfl
  unfold String.utf8EncodeChar at h
  simp only at h
  split_ifs at h <;>
    simp only [List.mem_cons, List.not_mem_nil, or_false] at h <;>
    rcases h with rfl | rfl | rfl | rfl <;>
    simp only [UInt8.toNat_ofNat'] <;> omega

theorem le_of_mem_utf8 (htext : ∀ char ∈ text.toList, 32 ≤ char.toNat) (h : byte ∈ utf8 text) : 32 ≤ byte.toNat := by
  obtain ⟨char, hchar, hbyte⟩ := List.mem_flatMap.mp h
  exact le_of_mem_utf8EncodeChar (htext char hchar) hbyte

theorem le_hexDigit (value : ℕ) (h : value < 16) : 32 ≤ (hexDigit value).toNat := by
  unfold hexDigit
  split <;> simp only [UInt8.toNat_ofNat'] <;> omega

theorem le_of_mem_escape (h : byte ∈ escape char) :
    32 ≤ byte.toNat := by
  unfold escape at h
  split_ifs at h with h1 h2 h3 h4 h5 h6 h7 hsmall
  pick_goal 9
  · exact le_of_mem_utf8EncodeChar (not_lt.mp hsmall) h
  pick_goal 8
  · simp only [List.mem_cons, List.not_mem_nil, or_false] at h
    rcases h with rfl | rfl | rfl | rfl | rfl | rfl
    · decide
    · decide
    · decide
    · decide
    · exact le_hexDigit _ (by omega)
    · exact le_hexDigit _ (by omega)
  -- The short escapes are a backslash and one letter.
  all_goals
    simp only [List.mem_cons, List.not_mem_nil, or_false] at h
    rcases h with rfl | rfl <;> decide

theorem le_of_mem_quote (h : byte ∈ quote text) :
    32 ≤ byte.toNat := by
  simp only [quote, List.mem_cons, List.mem_append, List.mem_flatMap, List.not_mem_nil, or_false] at h
  rcases h with rfl | ⟨char, -, hbyte⟩ | rfl
  · decide
  · exact le_of_mem_escape hbyte
  · decide

theorem le_of_mem_toString_int (value : ℤ) : ∀ char ∈ (toString value).toList, 32 ≤ char.toNat := by
  have hdigit (n : ℕ) : ∀ char ∈ n.repr.toList, 32 ≤ char.toNat := by
    intro char hchar
    have hmem : char ∈ Nat.toDigits 10 n := by simpa [Nat.repr] using hchar
    have h := Nat.isDigit_of_mem_toDigits (by decide) (by decide) hmem
    simp only [Char.isDigit, Bool.and_eq_true, decide_eq_true_eq, ge_iff_le] at h
    exact le_trans (by decide) (UInt32.le_iff_toNat_le.mp h.1)
  intro char hchar
  cases value with
  | ofNat n => exact hdigit n char hchar
  | negSucc n =>
    have hsplit : char ∈ ("-" ++ n.succ.repr).toList := hchar
    rw [String.toList_append, List.mem_append] at hsplit
    rcases hsplit with hminus | hrest
    · rw [List.mem_singleton.mp hminus]
      decide
    · exact hdigit _ char hrest

/-- The separators hold no control characters. -/
def Style.Printable (style : Style) : Prop :=
  (∀ byte ∈ style.item, 32 ≤ byte.toNat) ∧ ∀ byte ∈ style.key, 32 ≤ byte.toNat

theorem Style.printable_spaced : Style.spaced.Printable := by
  constructor <;> decide +kernel

mutual

variable {style : Style}

theorem le_of_mem_encode (hstyle : style.Printable) :
    ∀ {value : Json}, byte ∈ encode style value → 32 ≤ byte.toNat
  | null, h => le_of_mem_utf8 (by simp) h
  | bool true, h => le_of_mem_utf8 (by simp) h
  | bool false, h => le_of_mem_utf8 (by simp) h
  | int value, h => le_of_mem_utf8 (le_of_mem_toString_int value) h
  | float value, h => le_of_mem_utf8 value.printable h
  | str _, h => le_of_mem_quote h
  | arr [], h => by
    simp only [encode, List.mem_cons, List.not_mem_nil, or_false] at h
    rcases h with rfl | rfl <;> decide
  | arr (item :: items), h => by
    simp only [encode, List.mem_cons, List.mem_append, List.not_mem_nil, or_false] at h
    rcases h with rfl | (hitem | hitems) | rfl
    · decide
    · exact le_of_mem_encode hstyle hitem
    · exact le_of_mem_encodeItems hstyle hitems
    · decide
  | obj [], h => by
    simp only [encode, List.mem_cons, List.not_mem_nil, or_false] at h
    rcases h with rfl | rfl <;> decide
  | obj ((key, value) :: fields), h => by
    simp only [encode, List.mem_cons, List.mem_append, List.not_mem_nil, or_false] at h
    rcases h with rfl | (((hkey | hsep) | hvalue) | hfields) | rfl
    · decide
    · exact le_of_mem_quote hkey
    · exact hstyle.2 _ hsep
    · exact le_of_mem_encode hstyle hvalue
    · exact le_of_mem_encodeFields hstyle hfields
    · decide

theorem le_of_mem_encodeItems (hstyle : style.Printable) :
    ∀ {items : List Json}, byte ∈ encodeItems style items → 32 ≤ byte.toNat
  | [], h => by cases h
  | item :: items, h => by
    simp only [encodeItems, List.mem_append] at h
    rcases h with (hsep | hitem) | hitems
    · exact hstyle.1 _ hsep
    · exact le_of_mem_encode hstyle hitem
    · exact le_of_mem_encodeItems hstyle hitems

theorem le_of_mem_encodeFields (hstyle : style.Printable) :
    ∀ {fields : List (String × Json)}, byte ∈ encodeFields style fields → 32 ≤ byte.toNat
  | [], h => by cases h
  | (key, value) :: fields, h => by
    simp only [encodeFields, List.mem_append] at h
    rcases h with (((hsep | hkey) | hcolon) | hvalue) | hfields
    · exact hstyle.1 _ hsep
    · exact le_of_mem_quote hkey
    · exact hstyle.2 _ hcolon
    · exact le_of_mem_encode hstyle hvalue
    · exact le_of_mem_encodeFields hstyle hfields

end

theorem newline_notMem_encode_spaced (value : Json) : (0x0a : UInt8) ∉ encode .spaced value := by
  intro h
  have hle := le_of_mem_encode Style.printable_spaced h
  exact absurd hle (by decide)

mutual

/-- The tree with the fields of every object sorted by key. -/
def sortKeys : Json → Json
  | arr items => arr (sortKeysItems items)
  | obj fields => obj ((sortKeysFields fields).insertionSort fun a b ↦ a.1 ≤ b.1)
  | value => value

def sortKeysItems : List Json → List Json
  | [] => []
  | item :: items => sortKeys item :: sortKeysItems items

def sortKeysFields : List (String × Json) → List (String × Json)
  | [] => []
  | (key, value) :: fields => (key, sortKeys value) :: sortKeysFields fields

end

theorem sortKeysItems_eq (items : List Json) : sortKeysItems items = items.map sortKeys := by
  induction items with
  | nil => rfl
  | cons item items ih => rw [sortKeysItems, ih, List.map_cons]

theorem sortKeysFields_eq (fields : List (String × Json)) :
    sortKeysFields fields = fields.map fun field ↦ (field.1, sortKeys field.2) := by
  induction fields with
  | nil => rfl
  | cons field fields ih => rw [sortKeysFields, ih, List.map_cons]

theorem sortKeys_sortKeys (value : Json) : value.sortKeys.sortKeys = value.sortKeys := by
  induction value using children_induction with
  | step value ih =>
    cases value with
    | arr items =>
      rw [sortKeys, sortKeys, sortKeysItems_eq, sortKeysItems_eq, List.map_map]
      exact congrArg arr (List.map_congr_left fun item hitem ↦ ih item hitem)
    | obj fields =>
      have htotal : Std.Total fun a b : String × Json ↦ a.1 ≤ b.1 := ⟨fun a b ↦ le_total a.1 b.1⟩
      have htrans : IsTrans (String × Json) fun a b ↦ a.1 ≤ b.1 := ⟨fun _ _ _ ↦ le_trans⟩
      have hfields : sortKeysFields (sortKeysFields fields) = sortKeysFields fields := by
        rw [sortKeysFields_eq, sortKeysFields_eq, List.map_map]
        refine List.map_congr_left fun field hfield ↦ ?_
        exact congrArg (Prod.mk field.1) (ih field.2 (List.mem_map_of_mem hfield))
      have hsorted : sortKeysFields ((sortKeysFields fields).insertionSort fun a b ↦ a.1 ≤ b.1) =
          (sortKeysFields fields).insertionSort fun a b ↦ a.1 ≤ b.1 := by
        have hmap := List.map_insertionSort (fun a b : String × Json ↦ a.1 ≤ b.1)
          (fun a b : String × Json ↦ a.1 ≤ b.1) (fun field ↦ (field.1, sortKeys field.2)) (sortKeysFields fields)
          fun _ _ _ _ ↦ Iff.rfl
        rw [sortKeysFields_eq _, hmap, ← sortKeysFields_eq, hfields]
      rw [sortKeys, sortKeys, hsorted, (List.pairwise_insertionSort _ _).insertionSort_eq]
    | _ => rfl

theorem length_quote_of_plain (h : ∀ char ∈ text.toList, (escape char).length = 1) :
    (quote text).length = text.length + 2 := by
  have hchars : ∀ chars : List Char, (∀ char ∈ chars, (escape char).length = 1) →
      (chars.flatMap escape).length = chars.length := by
    intro chars hplain
    induction chars with
    | nil => rfl
    | cons char chars ih =>
      rw [List.forall_mem_cons] at hplain
      rw [List.flatMap_cons, List.length_append, hplain.1, ih hplain.2, List.length_cons, add_comm]
  rw [quote, List.length_cons, List.length_append, hchars _ h, String.length_toList, List.length_singleton]

/-- What one field adds to the text of an object, with the separator before it. -/
def fieldLength (style : Style) (field : String × Json) : ℕ :=
  style.item.length + (quote field.1).length + style.key.length + (encode style field.2).length

theorem length_encodeFields (style : Style) (fields : List (String × Json)) :
    (encodeFields style fields).length = (fields.map (fieldLength style)).sum := by
  induction fields with
  | nil => rfl
  | cons field fields ih =>
    rw [encodeFields, List.map_cons, List.sum_cons, ← ih]
    simp only [fieldLength, List.length_append]

theorem length_encodeItems (style : Style) (items : List Json) :
    (encodeItems style items).length = (items.map fun item ↦ style.item.length + (encode style item).length).sum := by
  induction items with
  | nil => rfl
  | cons item items ih =>
    rw [encodeItems, List.map_cons, List.sum_cons, ← ih]
    simp only [List.length_append]

theorem length_encode_obj (style : Style) {fields : List (String × Json)} (h : fields ≠ []) :
    (encode style (obj fields)).length + style.item.length = 2 + (fields.map (fieldLength style)).sum := by
  cases fields with
  | nil => exact absurd rfl h
  | cons field fields =>
    rw [encode, List.map_cons, List.sum_cons, ← length_encodeFields]
    simp only [fieldLength, List.length_cons, List.length_append, List.length_nil]
    omega

theorem length_encode_arr (style : Style) {items : List Json} (h : items ≠ []) :
    (encode style (arr items)).length + style.item.length =
      2 + (items.map fun item ↦ style.item.length + (encode style item).length).sum := by
  cases items with
  | nil => exact absurd rfl h
  | cons item items =>
    rw [encode, List.map_cons, List.sum_cons, ← length_encodeItems]
    simp only [List.length_cons, List.length_append, List.length_nil]
    omega

theorem length_encode_sortKeys (style : Style) (value : Json) :
    (encode style value.sortKeys).length = (encode style value).length := by
  induction value using children_induction with
  | step value ih =>
    cases value with
    | arr items =>
      rcases eq_or_ne items [] with rfl | hne
      · rfl
      · have hne' : items.map sortKeys ≠ [] := by simpa using hne
        have hsorted := length_encode_arr style hne'
        have hplain := length_encode_arr style hne
        have hitems : (items.map sortKeys).map (fun item ↦ style.item.length +
            (encode style item).length) =
            items.map fun item ↦ style.item.length + (encode style item).length := by
          rw [List.map_map]
          apply List.map_congr_left
          intro item hitem
          exact congrArg _ (ih item hitem)
        rw [hitems] at hsorted
        rw [sortKeys, sortKeysItems_eq]
        omega
    | obj fields =>
      rcases eq_or_ne fields [] with rfl | hne
      · rfl
      · have hperm := List.perm_insertionSort (fun a b : String × Json ↦ a.1 ≤ b.1)
          (sortKeysFields fields)
        have hne' : (sortKeysFields fields).insertionSort (fun a b ↦ a.1 ≤ b.1) ≠ [] := by
          intro hnil
          rw [hnil, sortKeysFields_eq] at hperm
          exact hne (by simpa using hperm.nil_eq.symm)
        have hsorted := length_encode_obj style hne'
        have hplain := length_encode_obj style hne
        have hfields : (sortKeysFields fields).map (fieldLength style) =
            fields.map (fieldLength style) := by
          rw [sortKeysFields_eq, List.map_map]
          apply List.map_congr_left
          intro field hfield
          exact congrArg _ (ih field.2 (List.mem_map.mpr ⟨field, hfield, rfl⟩))
        rw [(hperm.map (fieldLength style)).sum_eq, hfields] at hsorted
        rw [sortKeys]
        omega
    | _ => rfl

theorem sum_add_one (measure : α → ℕ) (values : List α) :
    (values.map fun value ↦ measure value + 1).sum = (values.map measure).sum + values.length := by
  rw [List.sum_map_add, List.map_const', List.sum_replicate, smul_eq_mul, mul_one]

theorem length_encode_compact_le (value : Json) :
    (encode .compact value).length ≤ (encode .spaced value).length := by
  induction value using children_induction with
  | step value ih =>
    have hcomma : Style.compact.item.length = 1 ∧ Style.spaced.item.length = 2 := ⟨rfl, rfl⟩
    have hcolon : Style.compact.key.length = 1 ∧ Style.spaced.key.length = 2 := ⟨rfl, rfl⟩
    cases value with
    | arr items =>
      rcases eq_or_ne items [] with rfl | hne
      · exact le_rfl
      · have hcompact := length_encode_arr .compact hne
        have hspaced := length_encode_arr .spaced hne
        have hsum := List.sum_le_sum (f := fun item ↦
            Style.compact.item.length + (encode .compact item).length + 1)
          (g := fun item ↦ Style.spaced.item.length + (encode .spaced item).length)
          (l := items) fun item hitem ↦ by have := ih item hitem; omega
        rw [sum_add_one] at hsum
        have hlength : 1 ≤ items.length := List.length_pos_iff.mpr hne
        omega
    | obj fields =>
      rcases eq_or_ne fields [] with rfl | hne
      · exact le_rfl
      · have hcompact := length_encode_obj .compact hne
        have hspaced := length_encode_obj .spaced hne
        have hsum := List.sum_le_sum (f := fun field ↦ fieldLength .compact field + 1)
          (g := fieldLength .spaced) (l := fields) fun field hfield ↦ by
            have := ih field.2 (List.mem_map.mpr ⟨field, hfield, rfl⟩)
            unfold fieldLength
            omega
        rw [sum_add_one] at hsum
        have hlength : 1 ≤ fields.length := List.length_pos_iff.mpr hne
        omega
    | bool flag => cases flag <;> exact le_rfl
    | _ => exact le_rfl

/-- `value.get(key)` on an object. -/
def get? (key : String) : Json → Option Json
  | obj fields => fields.lookup key
  | _ => none

/-- `{**fields, key: value}`: an existing key keeps its place. -/
def setField (fields : List (String × Json)) (key : String) (value : Json) :
    List (String × Json) :=
  if (fields.map Prod.fst).contains key then
    fields.map fun field ↦ if field.1 = key then (key, value) else field
  else fields ++ [(key, value)]

theorem lookup_setField_self (fields : List (String × Json)) (key : String) (value : Json) :
    (setField fields key value).lookup key = some value := by
  unfold setField
  split_ifs with hmem
  · induction fields with
    | nil => simp at hmem
    | cons field fields ih =>
      rcases eq_or_ne field.1 key with rfl | hne
      · simp
      · have hrest : (fields.map Prod.fst).contains key := by
          simpa [hne.symm] using hmem
        rw [List.map_cons, if_neg hne, List.lookup_cons, beq_eq_false_iff_ne.mpr hne.symm]
        exact ih hrest
  · induction fields with
    | nil => simp
    | cons field fields ih =>
      rw [List.map_cons, List.contains_cons, Bool.or_eq_true, not_or] at hmem
      rw [List.cons_append, List.lookup_cons, Bool.eq_false_iff.mpr hmem.1]
      exact ih hmem.2

theorem lookup_setField_of_ne (fields : List (String × Json)) {key other : String} (h : other ≠ key) (value : Json) :
    (setField fields key value).lookup other = fields.lookup other := by
  unfold setField
  split_ifs with hmem
  · clear hmem
    induction fields with
    | nil => rfl
    | cons field fields ih =>
      rcases eq_or_ne field.1 key with heq | hne
      · rw [List.map_cons, if_pos heq, List.lookup_cons, List.lookup_cons, ih, heq]
        simp [beq_eq_false_iff_ne.mpr h]
      · rw [List.map_cons, if_neg hne, List.lookup_cons, List.lookup_cons, ih]
  · clear hmem
    induction fields with
    | nil => simpa using h
    | cons field fields ih => rw [List.cons_append, List.lookup_cons, List.lookup_cons, ih]

theorem lookup_orderedInsert (field : String × Json) (fields : List (String × Json)) (key : String) :
    (fields.orderedInsert (fun a b ↦ a.1 ≤ b.1) field).lookup key = (field :: fields).lookup key := by
  induction fields with
  | nil => rfl
  | cons first fields ih =>
    rw [List.orderedInsert]
    split_ifs with hle
    · rfl
    · have hne : first.1 ≠ field.1 := fun heq ↦ hle heq.ge
      rw [List.lookup_cons, ih, List.lookup_cons, List.lookup_cons, List.lookup_cons]
      rcases eq_or_ne key first.1 with rfl | hkey
      · rw [beq_self_eq_true, beq_eq_false_iff_ne.mpr hne]
      · rw [beq_eq_false_iff_ne.mpr hkey]

theorem lookup_insertionSort (fields : List (String × Json)) (key : String) :
    (fields.insertionSort fun a b ↦ a.1 ≤ b.1).lookup key = fields.lookup key := by
  induction fields with
  | nil => rfl
  | cons field fields ih =>
    rw [List.insertionSort_cons, lookup_orderedInsert, List.lookup_cons, List.lookup_cons, ih]

theorem lookup_map_snd (change : Json → Json) (fields : List (String × Json)) (key : String) :
    (fields.map fun field ↦ (field.1, change field.2)).lookup key = (fields.lookup key).map change := by
  induction fields with
  | nil => rfl
  | cons field fields ih =>
    rw [List.map_cons, List.lookup_cons, List.lookup_cons, ih]
    cases key == field.1 <;> rfl

theorem get?_sortKeys (value : Json) (key : String) :
    value.sortKeys.get? key = (value.get? key).map sortKeys := by
  cases value with
  | obj fields => rw [sortKeys, get?, get?, lookup_insertionSort, sortKeysFields_eq, lookup_map_snd]
  | _ => rfl

/-- Two trees are the same value. -/
def Same (first second : Json) : Prop := first.sortKeys = second.sortKeys

theorem Same.refl (value : Json) : Same value value := rfl

theorem Same.symm (h : Same first second) : Same second first := Eq.symm h

theorem Same.trans {third : Json} (h : Same first second) (h' : Same second third) :
    Same first third := Eq.trans h h'

end Json

end UniMem.Library
