import Mathlib

/-!
# Windows of a sorted list

The insertion points of a value in a sorted list, as `bisect` finds them, and the slice between two of them.
-/

namespace UniMem.Library

variable {α : Type} [LinearOrder α]

/-- `bisect_left`: how many elements come before a value. -/
def bisectLeft (values : List α) (value : α) : ℕ := (values.takeWhile (· < value)).length

/-- `bisect_right`: how many elements come before a value or equal it. -/
def bisectRight (values : List α) (value : α) : ℕ := (values.takeWhile (· ≤ value)).length

/-- `values[bisect_left(values, low):bisect_right(values, high)]`. -/
def window (values : List α) (low high : α) : List α :=
  (values.take (bisectRight values high)).drop (bisectLeft values low)

omit [LinearOrder α] in
theorem lt_length_takeWhile_iff {test : α → Bool} {values : List α}
    (hclosed : values.Pairwise fun first second ↦ test second = true → test first = true) {index : ℕ}
    (hindex : index < values.length) :
    index < (values.takeWhile test).length ↔ test values[index] = true := by
  induction values generalizing index with
  | nil => exact absurd hindex (Nat.not_lt_zero index)
  | cons value values ih =>
    obtain ⟨hvalue, hvalues⟩ := List.pairwise_cons.mp hclosed
    cases htest : test value with
    | false =>
      rw [List.takeWhile_cons_of_neg (by simp [htest]), List.length_nil]
      refine iff_of_false (Nat.not_lt_zero index) fun hthere ↦ ?_
      cases index with
      | zero => exact absurd (htest.symm.trans hthere) (by simp)
      | succ index => exact absurd (htest.symm.trans (hvalue _ (List.getElem_mem _) hthere)) (by simp)
    | true =>
      rw [List.takeWhile_cons_of_pos htest, List.length_cons]
      cases index with
      | zero => exact iff_of_true (Nat.succ_pos _) htest
      | succ index =>
        rw [Nat.succ_lt_succ_iff, List.getElem_cons_succ]
        exact ih hvalues (Nat.lt_of_succ_lt_succ hindex)

theorem lt_bisectLeft_iff {values : List α} (h : values.Pairwise (· < ·)) (value : α) {index : ℕ}
    (hindex : index < values.length) : index < bisectLeft values value ↔ values[index] < value := by
  rw [bisectLeft, lt_length_takeWhile_iff (h.imp fun hlt hsecond ↦ ?_) hindex, decide_eq_true_eq]
  exact decide_eq_true (hlt.trans (of_decide_eq_true hsecond))

theorem lt_bisectRight_iff {values : List α} (h : values.Pairwise (· < ·)) (value : α) {index : ℕ}
    (hindex : index < values.length) : index < bisectRight values value ↔ values[index] ≤ value := by
  rw [bisectRight, lt_length_takeWhile_iff (h.imp fun hlt hsecond ↦ ?_) hindex, decide_eq_true_eq]
  exact decide_eq_true (hlt.le.trans (of_decide_eq_true hsecond))

theorem take_bisectRight {β : Type} {key : β → α} {values : List β}
    (h : values.Pairwise fun first second ↦ key first ≤ key second) (bound : α) :
    values.take (bisectRight (values.map key) bound) = values.filter fun value ↦ key value ≤ bound := by
  unfold bisectRight
  induction values with
  | nil => rfl
  | cons value values ih =>
    obtain ⟨hvalue, hvalues⟩ := List.pairwise_cons.mp h
    by_cases hle : key value ≤ bound
    · simpa [hle] using ih hvalues
    · have hnone : (value :: values).filter (fun other ↦ key other ≤ bound) = [] := by
        rw [List.filter_eq_nil_iff]
        intro other hother hkey
        obtain rfl | hother := List.mem_cons.mp hother
        · exact hle (of_decide_eq_true hkey)
        · exact hle ((hvalue other hother).trans (of_decide_eq_true hkey))
      rw [hnone]
      simp [hle]

theorem mem_window_iff {values : List α} (h : values.Pairwise (· < ·)) {low high value : α} :
    value ∈ window values low high ↔ value ∈ values ∧ low ≤ value ∧ value ≤ high := by
  rw [window, List.mem_iff_getElem?, List.mem_iff_getElem]
  constructor
  · rintro ⟨offset, hoffset⟩
    rw [List.getElem?_drop, List.getElem?_take] at hoffset
    split_ifs at hoffset with hbefore
    obtain ⟨hindex, rfl⟩ := List.getElem?_eq_some_iff.mp hoffset
    refine ⟨⟨_, hindex, rfl⟩, not_lt.mp fun hlt ↦ ?_, (lt_bisectRight_iff h high hindex).mp hbefore⟩
    exact absurd ((lt_bisectLeft_iff h low hindex).mpr hlt) (by omega)
  · rintro ⟨⟨index, hindex, rfl⟩, hlow, hhigh⟩
    have hbefore := (lt_bisectRight_iff h high hindex).mpr hhigh
    have hfrom : bisectLeft values low ≤ index := not_lt.mp fun hlt ↦
      absurd ((lt_bisectLeft_iff h low hindex).mp hlt) (not_lt.mpr hlow)
    refine ⟨index - bisectLeft values low, ?_⟩
    rw [List.getElem?_drop, Nat.add_sub_cancel' hfrom, List.getElem?_take, if_pos hbefore]
    exact List.getElem?_eq_getElem hindex

theorem sublist_window (values : List α) (low high : α) : (window values low high).Sublist values :=
  (List.drop_sublist _ _).trans (List.take_sublist _ _)

end UniMem.Library
