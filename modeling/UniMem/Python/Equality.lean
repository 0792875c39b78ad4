import UniMem.Library.Json
import UniMem.Library.Grouping

/-!
# Equality of JSON values in Python

`==` compares numbers of all kinds by value and does not look at the order of the fields of a dictionary. Trees that
agree after sorting their keys are equal when no key repeats and every number has a value.
-/

namespace UniMem

open Library

/-- The value of a number. -/
def numberOf : Json → Option ℚ
  | .bool flag => some (if flag then 1 else 0)
  | .int number => some number
  | .float decimal => decimal.value
  | _ => none

mutual

/-- `first == second`. -/
def equal : Json → Json → Bool
  | .arr items, .arr others => equalItems items others
  | .obj fields, .obj others => fields.length == others.length && equalFields fields others
  | .str text, .str other => text == other
  | .null, .null => true
  | first, second =>
    match numberOf first, numberOf second with
    | some number, some other => number == other
    | _, _ => false

def equalItems : List Json → List Json → Bool
  | [], [] => true
  | item :: items, other :: others => equal item other && equalItems items others
  | _, _ => false

/-- Every field stands in a dictionary, with an equal value. -/
def equalFields : List (String × Json) → List (String × Json) → Bool
  | [], _ => true
  | (key, value) :: fields, others =>
    (match others.lookup key with
      | some other => equal value other
      | none => false) && equalFields fields others

end

/-- No key of a dictionary repeats, and a float is one of the given floats. -/
def Proper (floats : Set Decimal) : Json → Prop
  | .obj fields => (fields.map Prod.fst).Nodup
  | .float decimal => decimal ∈ floats
  | _ => True

/-- A tree that stands for a Python value. -/
def Genuine (floats : Set Decimal) (value : Json) : Prop := value.Everywhere (fun _ ↦ Proper floats) 0

theorem everywhere_depth {property : Json → Prop} {value : Json} {depth other : ℕ} :
    value.Everywhere (fun _ ↦ property) depth → value.Everywhere (fun _ ↦ property) other := by
  induction value using Json.children_induction generalizing depth other with
  | step value ih =>
    intro h
    rw [Json.everywhere_iff] at h ⊢
    exact ⟨h.1, fun child hchild ↦ ih child hchild (h.2 child hchild)⟩

variable {floats : Set Decimal}

theorem genuine_iff {value : Json} :
    Genuine floats value ↔ Proper floats value ∧ ∀ child ∈ value.children, Genuine floats child := by
  unfold Genuine
  rw [Json.everywhere_iff]
  constructor
  · rintro ⟨hvalue, hchildren⟩
    exact ⟨hvalue, fun child hchild ↦ everywhere_depth (hchildren child hchild)⟩
  · rintro ⟨hvalue, hchildren⟩
    exact ⟨hvalue, fun child hchild ↦ everywhere_depth (hchildren child hchild)⟩

theorem genuine_str (text : String) : Genuine floats (.str text) := trivial

theorem genuine_int (number : ℤ) : Genuine floats (.int number) := trivial

theorem genuine_arr {items : List Json} : Genuine floats (.arr items) ↔ ∀ item ∈ items, Genuine floats item := by
  rw [genuine_iff, Json.children]
  exact and_iff_right trivial

theorem genuine_obj {fields : List (String × Json)} : Genuine floats (.obj fields) ↔
    (fields.map Prod.fst).Nodup ∧ ∀ field ∈ fields, Genuine floats field.2 := by
  rw [genuine_iff, Json.children, List.forall_mem_map]
  exact Iff.rfl

theorem map_fst_sortKeysFields (fields : List (String × Json)) :
    (Json.sortKeysFields fields).map Prod.fst = fields.map Prod.fst := by
  rw [Json.sortKeysFields_eq, List.map_map]
  rfl

theorem perm_keys_sortKeys {fields sorted : List (String × Json)} (h : (Json.obj fields).sortKeys = .obj sorted) :
    (sorted.map Prod.fst).Perm (fields.map Prod.fst) := by
  rw [Json.sortKeys, Json.obj.injEq] at h
  rw [← h, ← map_fst_sortKeysFields fields]
  exact (List.perm_insertionSort _ _).map Prod.fst

theorem Genuine.sortKeys {value : Json} : Genuine floats value → Genuine floats value.sortKeys := by
  induction value using Json.children_induction with
  | step value ih =>
    intro h
    cases value with
    | arr items =>
      rw [Json.sortKeys, Json.sortKeysItems_eq, genuine_arr, List.forall_mem_map]
      exact fun item hitem ↦ ih item hitem (genuine_arr.mp h item hitem)
    | obj fields =>
      obtain ⟨hnodup, hfields⟩ := genuine_obj.mp h
      refine genuine_obj.mpr ⟨(perm_keys_sortKeys rfl).nodup_iff.mpr hnodup, fun field hfield ↦ ?_⟩
      rw [List.mem_insertionSort, Json.sortKeysFields_eq] at hfield
      obtain ⟨source, hsource, rfl⟩ := List.mem_map.mp hfield
      exact ih source.2 (List.mem_map_of_mem hsource) (hfields source hsource)
    | _ => exact h

/-- Every number of a tree has a value. -/
def Valued : Json → Prop
  | .float decimal => decimal.value.isSome
  | _ => True

theorem equal_of_same {first second : Json} : Genuine floats first → first.Everywhere (fun _ ↦ Valued) 0 →
    first.Same second → equal first second = true := by
  induction first using Json.children_induction generalizing second with
  | step first ih =>
    intro hgenuine hvalued hsame
    rw [Json.everywhere_iff] at hvalued
    cases first with
    | arr items =>
      cases second with
      | arr others =>
        rw [Json.Same, Json.sortKeys, Json.sortKeys, Json.arr.injEq, Json.sortKeysItems_eq, Json.sortKeysItems_eq]
          at hsame
        have hitems := genuine_arr.mp hgenuine
        have hvalues := hvalued.2
        rw [Json.children] at ih hvalues
        clear hgenuine hvalued
        rw [equal]
        induction items generalizing others with
        | nil =>
          obtain rfl : others = [] := List.map_eq_nil_iff.mp hsame.symm
          rfl
        | cons item items ihitems =>
          obtain ⟨other, others, rfl⟩ := List.exists_cons_of_ne_nil fun hnil : others = [] ↦ by
            rw [hnil] at hsame
            cases hsame
          rw [List.map_cons, List.map_cons, List.cons.injEq] at hsame
          rw [List.forall_mem_cons] at ih hitems hvalues
          rw [equalItems, ih.1 hitems.1 (everywhere_depth hvalues.1) hsame.1, Bool.true_and]
          exact ihitems ih.2 _ hsame.2 hitems.2 hvalues.2
      | _ => cases hsame
    | obj fields =>
      cases second with
      | obj others =>
        have hlength : fields.length = others.length := by
          have hsorted := hsame
          rw [Json.Same, Json.sortKeys, Json.sortKeys, Json.obj.injEq] at hsorted
          have h := congrArg List.length hsorted
          rwa [List.length_insertionSort, List.length_insertionSort, Json.sortKeysFields_eq,
            Json.sortKeysFields_eq, List.length_map, List.length_map] at h
        obtain ⟨hnodup, hfields⟩ := genuine_obj.mp hgenuine
        have hfound : ∀ field ∈ fields, ∃ other, others.lookup field.1 = some other ∧ field.2.Same other := by
          intro field hfield
          have hget := Json.get?_sortKeys (.obj fields) field.1
          rw [hsame, Json.get?_sortKeys, Json.get?, Json.get?, (lookup_eq_some_iff_mem hnodup).mpr hfield] at hget
          obtain ⟨other, hother, heq⟩ := Option.map_eq_some_iff.mp hget
          exact ⟨other, hother, heq.symm⟩
        have hvalues := hvalued.2
        rw [Json.children] at ih hvalues
        clear hgenuine hvalued hsame hnodup
        rw [equal, hlength, beq_self_eq_true, Bool.true_and]
        clear hlength
        induction fields with
        | nil => rfl
        | cons field fields ihfields =>
          obtain ⟨key, value⟩ := field
          rw [List.map_cons, List.forall_mem_cons] at ih hvalues
          rw [List.forall_mem_cons] at hfound hfields
          obtain ⟨other, hother, heq⟩ := hfound.1
          rw [equalFields, hother]
          dsimp only
          rw [ih.1 hfields.1 (everywhere_depth hvalues.1) heq, Bool.true_and]
          exact ihfields ih.2 hfields.2 hfound.2 hvalues.2
      | _ => cases hsame
    | float decimal =>
      cases second with
      | float other =>
        cases hsame
        obtain ⟨text, value, hprintable⟩ := decimal
        obtain ⟨number, rfl⟩ := Option.isSome_iff_exists.mp hvalued.1
        simp [equal, numberOf]
      | _ => cases hsame
    | null => cases second <;> first | rfl | cases hsame
    | bool flag =>
      cases second <;> cases hsame
      simp [equal, numberOf]
    | int number =>
      cases second <;> cases hsame
      simp [equal, numberOf]
    | str text =>
      cases second <;> cases hsame
      simp [equal]

theorem equal_str_iff {value : Json} {text : String} : equal (.str text) value = true ↔ value = .str text := by
  cases value with
  | str other =>
    rw [equal, beq_iff_eq, Json.str.injEq]
    exact eq_comm
  | _ => simp [equal, numberOf]

end UniMem
