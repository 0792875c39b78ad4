import Mathlib

/-!
# Texts joined by a separator

Parts that do not hold the separator can be read off the text that joins them. Without parts the text is
empty, and it is empty for a single empty part as well.
-/

namespace UniMem.Library

section Lists

variable {α : Type} {separator : α} {first second : List (List α)}

theorem intercalate_eq_nil_iff (hparts : ∀ part ∈ first, part ≠ []) :
    [separator].intercalate first = [] ↔ first = [] := by
  constructor
  · intro h
    cases first with
    | nil => rfl
    | cons part parts =>
      have hpart := hparts part List.mem_cons_self
      cases parts with
      | nil => simp_all
      | cons other parts => simp_all [List.intercalate]
  · rintro rfl
    rfl

theorem mem_intercalate {value : α} (h : value ∈ [separator].intercalate first) :
    value = separator ∨ ∃ part ∈ first, value ∈ part := by
  induction first with
  | nil => cases h
  | cons part parts ih =>
    cases parts with
    | nil => exact Or.inr ⟨part, List.mem_cons_self, by simpa [List.intercalate] using h⟩
    | cons other parts =>
      rw [List.intercalate_cons_cons, List.mem_append, List.mem_append, List.mem_singleton] at h
      obtain (hpart | heq) | hrest := h
      · exact Or.inr ⟨part, List.mem_cons_self, hpart⟩
      · exact Or.inl heq
      · exact (ih hrest).imp_right fun ⟨found, hfound, hvalue⟩ ↦ ⟨found, List.mem_cons_of_mem _ hfound, hvalue⟩

variable [DecidableEq α]

variable {before before' after after' : List α}

theorem append_cons_inj_of_count (hcount : before.count separator = before'.count separator)
    (h : before ++ separator :: after = before' ++ separator :: after') : before = before' ∧ after = after' := by
  induction before generalizing before' with
  | nil =>
    cases before' with
    | nil => exact ⟨rfl, (List.cons.inj h).2⟩
    | cons value before' =>
      obtain ⟨rfl, -⟩ := List.cons.inj h
      rw [List.count_nil, List.count_cons_self] at hcount
      exact absurd hcount (Nat.succ_ne_zero _).symm
  | cons value before ih =>
    cases before' with
    | nil =>
      obtain ⟨rfl, -⟩ := List.cons.inj h
      rw [List.count_nil, List.count_cons_self] at hcount
      exact absurd hcount (Nat.succ_ne_zero _)
    | cons value' before' =>
      obtain ⟨rfl, hrest⟩ := List.cons.inj h
      rw [List.count_cons, List.count_cons, Nat.add_right_cancel_iff] at hcount
      obtain ⟨rfl, rfl⟩ := ih hcount hrest
      exact ⟨rfl, rfl⟩

theorem append_cons_inj_of_count_after (hcount : after.count separator = after'.count separator)
    (h : before ++ separator :: after = before' ++ separator :: after') : before = before' ∧ after = after' := by
  have htotal := congrArg (List.count separator) h
  rw [List.count_append, List.count_append, List.count_cons_self, List.count_cons_self, hcount] at htotal
  exact append_cons_inj_of_count (Nat.add_right_cancel htotal) h

theorem append_cons_inj (hbefore : separator ∉ before) (hbefore' : separator ∉ before')
    (h : before ++ separator :: after = before' ++ separator :: after') :
    before = before' ∧ after = after' := by
  refine append_cons_inj_of_count ?_ h
  rw [List.count_eq_zero_of_not_mem hbefore, List.count_eq_zero_of_not_mem hbefore']

theorem parts_eq_of_intercalate (hfirst : ∀ part ∈ first, separator ∉ part)
    (hsecond : ∀ part ∈ second, separator ∉ part) (hne : first ≠ []) (hne' : second ≠ [])
    (h : [separator].intercalate first = [separator].intercalate second) : first = second := by
  rw [← List.splitOn_intercalate separator hfirst hne, h, List.splitOn_intercalate separator hsecond hne']

theorem parts_eq_of_intercalate_of_ne_nil (hfirst : ∀ part ∈ first, separator ∉ part ∧ part ≠ [])
    (hsecond : ∀ part ∈ second, separator ∉ part ∧ part ≠ [])
    (h : [separator].intercalate first = [separator].intercalate second) : first = second := by
  have hempty : first = [] ↔ second = [] := by
    rw [← @intercalate_eq_nil_iff _ separator first fun part hpart ↦ (hfirst part hpart).2,
      ← @intercalate_eq_nil_iff _ separator second fun part hpart ↦ (hsecond part hpart).2, h]
  by_cases hnil : first = []
  · rw [hnil, hempty.mp hnil]
  · exact parts_eq_of_intercalate (fun part hpart ↦ (hfirst part hpart).1)
      (fun part hpart ↦ (hsecond part hpart).1) hnil (mt hempty.mpr hnil) h

end Lists

section Texts

variable {separator : Char} {first second : List String}

theorem toList_intercalate_singleton (separator : Char) (parts : List String) :
    ((String.singleton separator).intercalate parts).toList = [separator].intercalate (parts.map String.toList) := by
  rw [String.toList_intercalate, String.toList_singleton]

theorem texts_eq_of_map_toList (h : first.map String.toList = second.map String.toList) : first = second :=
  List.map_injective_iff.mpr (fun _ _ ↦ String.toList_inj.mp) h

theorem texts_eq_of_intercalate_of_ne_empty (hfirst : ∀ text ∈ first, separator ∉ text.toList ∧ text ≠ "")
    (hsecond : ∀ text ∈ second, separator ∉ text.toList ∧ text ≠ "")
    (h : (String.singleton separator).intercalate first = (String.singleton separator).intercalate second) :
    first = second := by
  have hlists := congrArg String.toList h
  rw [toList_intercalate_singleton, toList_intercalate_singleton] at hlists
  refine texts_eq_of_map_toList (parts_eq_of_intercalate_of_ne_nil ?_ ?_ hlists)
  · simpa using hfirst
  · simpa using hsecond

end Texts

end UniMem.Library
