import Mathlib

/-!
# Order statistics that leave one out

The value of a rank in a sorted list is at least another value exactly when fewer than that rank are below it. So at
least as many members as the rank are at most the value of that rank among the others.
-/

namespace UniMem.Library

variable {α : Type} [LinearOrder α]

theorem le_getElem_iff {values : List α} (hsorted : values.Pairwise (· ≤ ·)) {place : ℕ}
    (hplace : place < values.length) (value : α) : value ≤ values[place] ↔ values.countP (· < value) ≤ place := by
  induction values generalizing place with
  | nil => exact absurd hplace (Nat.not_lt_zero _)
  | cons first values ih =>
    obtain ⟨hfirst, hrest⟩ := List.pairwise_cons.mp hsorted
    by_cases hlt : first < value
    · rw [List.countP_cons_of_pos (by simpa using hlt)]
      cases place with
      | zero => simpa using hlt
      | succ place =>
        rw [List.getElem_cons_succ, ih hrest, Nat.succ_le_succ_iff]
    · have hnone : values.countP (· < value) = 0 := List.countP_eq_zero.mpr fun other hother ↦ by
        rw [decide_eq_true_eq, not_lt]
        exact (not_lt.mp hlt).trans (hfirst other hother)
      rw [List.countP_cons_of_neg (by simpa using hlt), hnone]
      refine iff_of_true ?_ (Nat.zero_le _)
      obtain hmem | hmem := List.mem_cons.mp (List.getElem_mem hplace)
      · rw [hmem]
        exact not_lt.mp hlt
      · exact (not_lt.mp hlt).trans (hfirst _ hmem)

theorem le_countP_countP {values : List α} {rank : ℕ} (hrank : rank ≤ values.length) :
    rank ≤ values.countP fun value ↦ values.countP (· < value) < rank := by
  have hperm : (values.mergeSort (· ≤ ·)).Perm values := List.mergeSort_perm _ _
  have hsorted : (values.mergeSort (· ≤ ·)).Pairwise (· ≤ ·) := List.pairwise_mergeSort' _ _
  rw [← hperm.countP_eq]
  have hlength : rank ≤ (values.mergeSort (· ≤ ·)).length := hperm.length_eq ▸ hrank
  set sorted := values.mergeSort (· ≤ ·)
  have hall : ∀ value ∈ sorted.take rank, decide (values.countP (· < value) < rank) = true := by
    intro value hvalue
    obtain ⟨place, hplace, rfl⟩ := List.getElem_of_mem hvalue
    rw [List.length_take] at hplace
    rw [decide_eq_true_eq, List.getElem_take, ← hperm.countP_eq]
    have hself := (le_getElem_iff hsorted (hplace.trans_le (min_le_right _ _)) sorted[place]).mp le_rfl
    exact hself.trans_lt (hplace.trans_le (min_le_left _ _))
  calc
    _ = (sorted.take rank).length := (List.length_take_of_le hlength).symm
    _ = (sorted.take rank).countP fun value ↦ values.countP (· < value) < rank :=
      (List.countP_eq_length.mpr hall).symm
    _ ≤ _ := (List.take_sublist rank sorted).countP_le

/-- The value of a rank in a list, from one on. -/
def ofRank (values : List α) (rank : ℕ) : Option α := (values.mergeSort (· ≤ ·))[rank - 1]?

theorem le_ofRank_eraseIdx_iff {values : List α} {rank : ℕ} (hpos : 0 < rank) (place : Fin values.length) {value : α}
    (hvalue : ofRank (values.eraseIdx place) rank = some value) :
    values.get place ≤ value ↔ values.countP (· < values.get place) < rank := by
  obtain ⟨hplace, rfl⟩ := List.getElem?_eq_some_iff.mp hvalue
  have hperm : (values.get place :: values.eraseIdx place).Perm values := List.getElem_cons_eraseIdx_perm place.isLt
  rw [le_getElem_iff (List.pairwise_mergeSort' _ _) hplace, (List.mergeSort_perm _ _).countP_eq, ← hperm.countP_eq,
    List.countP_cons_of_neg (by simp)]
  omega

end UniMem.Library
