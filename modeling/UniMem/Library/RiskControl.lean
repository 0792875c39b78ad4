import Mathlib

/-!
# Risk control by leaving one out

Each member of a finite set has a threshold at which the losses of the others and the greatest loss keep to a
budget. When losses decrease, the losses at the own thresholds keep to it too.
-/

namespace UniMem.Library

variable {ι τ α 𝕜 : Type} [AddCommGroup 𝕜]

section Budget

variable [LinearOrder τ] [LinearOrder 𝕜] [IsOrderedAddMonoid 𝕜] [DecidableEq ι]

theorem sum_loss_le_budget {members : Finset ι} {loss : ι → τ → 𝕜} {chosen : ι → τ} {bound budget : 𝕜}
    (hanti : ∀ i ∈ members, Antitone (loss i)) (hnonneg : ∀ i ∈ members, ∀ t, 0 ≤ loss i t)
    (hbound : ∀ i ∈ members, ∀ t, loss i t ≤ bound) (hbudget : 0 ≤ budget)
    (hchosen : ∀ i ∈ members, loss i (chosen i) = 0 ∨ ∑ j ∈ members.erase i, loss j (chosen i) + bound ≤ budget) :
    ∑ i ∈ members, loss i (chosen i) ≤ budget := by
  obtain hnone | hsome := (members.filter fun i ↦ loss i (chosen i) ≠ 0).eq_empty_or_nonempty
  · have hzero : ∀ i ∈ members, loss i (chosen i) = 0 := fun i hi ↦
      not_not.mp (Finset.filter_eq_empty_iff.mp hnone hi)
    rw [Finset.sum_congr rfl hzero, Finset.sum_const_zero]
    exact hbudget
  -- All losses are compared at the least of the thresholds that let a loss through.
  · obtain ⟨least, hleast, hmin⟩ := Finset.exists_min_image _ chosen hsome
    obtain ⟨hmem, hloss⟩ := Finset.mem_filter.mp hleast
    calc
      _ ≤ ∑ i ∈ members, loss i (chosen least) := by
        apply Finset.sum_le_sum
        intro i hi
        by_cases hzero : loss i (chosen i) = 0
        · rw [hzero]
          exact hnonneg i hi _
        · exact hanti i hi (hmin i (Finset.mem_filter.mpr ⟨hi, hzero⟩))
      _ = ∑ j ∈ members.erase least, loss j (chosen least) + loss least (chosen least) :=
        (Finset.sum_erase_add _ _ hmem).symm
      _ ≤ ∑ j ∈ members.erase least, loss j (chosen least) + bound := by
        gcongr
        exact hbound least hmem _
      _ ≤ budget := (hchosen least hmem).resolve_left hloss

end Budget

/-- The places of the rows that pass a test. -/
def placesOf (test : α → Bool) (rows : List α) : Finset (Fin rows.length) :=
  Finset.univ.filter fun place ↦ test (rows.get place)

theorem mem_placesOf {test : α → Bool} {rows : List α} {place : Fin rows.length} :
    place ∈ placesOf test rows ↔ test (rows.get place) = true := by
  rw [placesOf, Finset.mem_filter, and_iff_right (Finset.mem_univ _)]

theorem sum_placesOf (test : α → Bool) (rows : List α) (weight : α → 𝕜) :
    ∑ place ∈ placesOf test rows, weight (rows.get place) = ((rows.filter test).map weight).sum := by
  rw [placesOf, Finset.sum_filter]
  induction rows with
  | nil => rfl
  | cons row rows ih =>
    calc
      _ = (if test row = true then weight row else 0) +
          ∑ place : Fin rows.length, if test (rows.get place) = true then weight (rows.get place) else 0 :=
        Fin.sum_univ_succ (n := rows.length) _
      _ = (if test row = true then weight row else 0) + ((rows.filter test).map weight).sum := by rw [ih]
      _ = _ := by
        by_cases htest : test row = true
        · rw [if_pos htest, List.filter_cons_of_pos htest, List.map_cons, List.sum_cons]
        · rw [if_neg htest, List.filter_cons_of_neg htest, zero_add]

theorem sum_erase_placesOf {test : α → Bool} {rows : List α} {place : Fin rows.length}
    (h : test (rows.get place) = true) (weight : α → 𝕜) :
    ∑ other ∈ (placesOf test rows).erase place, weight (rows.get other) =
      (((rows.eraseIdx place).filter test).map weight).sum := by
  have hperm : (rows.get place :: rows.eraseIdx place).Perm rows := List.getElem_cons_eraseIdx_perm place.isLt
  have hsplit : ∑ other ∈ placesOf test rows, weight (rows.get other) =
      weight (rows.get place) + ∑ other ∈ (placesOf test rows).erase place, weight (rows.get other) :=
    (Finset.add_sum_erase _ (fun other ↦ weight (rows.get other)) (mem_placesOf.mpr h)).symm
  rw [sum_placesOf, ← ((hperm.filter test).map weight).sum_eq, List.filter_cons_of_pos h, List.map_cons,
    List.sum_cons] at hsplit
  exact (add_left_cancel hsplit).symm

end UniMem.Library
