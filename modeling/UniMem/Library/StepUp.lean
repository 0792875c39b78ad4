import Mathlib

/-!
# Step-up selection

Candidates are scanned in rank order up to the last rank whose candidate passes its test. For a sorted list that is
the greatest rank that as many candidates attain, so only the multiset counts.
-/

namespace UniMem.Library.StepUp

variable {α β : Type*} {passes : ℕ → α → Bool} {order first second : List α} {rank : ℕ}

/-- The last rank whose candidate passes, and zero when there is none. -/
def cutoff (passes : ℕ → α → Bool) (order : List α) : ℕ :=
  (order.zipIdx 1).foldl (fun last item ↦ if passes item.2 item.1 then item.2 else last) 0

/-- The positive ranks whose test is passed by at least as many candidates. -/
def attained (passes : ℕ → α → Bool) (candidates : List α) : Set ℕ :=
  {rank | 0 < rank ∧ rank ≤ candidates.countP (passes rank)}

/-- A candidate that passes the test of the greatest attained rank. -/
def Selected (passes : ℕ → α → Bool) (candidates : List α) (candidate : α) : Prop :=
  ∃ rank, IsGreatest (attained passes candidates) rank ∧ passes rank candidate = true

/-- A list on which every test holds on a prefix. -/
def Ranked (passes : ℕ → α → Bool) (order : List α) : Prop :=
  order.Pairwise fun first second ↦ ∀ rank, passes rank second = true → passes rank first = true

/-- Tests that become weaker with the rank, from the first rank on. -/
def Weakening (passes : ℕ → α → Bool) : Prop :=
  ∀ rank candidate, 0 < rank → passes rank candidate = true → passes (rank + 1) candidate = true

theorem attained_perm (h : first.Perm second) : attained passes first = attained passes second := by
  simp only [attained, h.countP_eq]

theorem selected_perm (h : first.Perm second) (candidate : α) :
    Selected passes first candidate ↔ Selected passes second candidate := by
  rw [Selected, Selected, attained_perm h]

theorem attained_map (passes : ℕ → β → Bool) (change : α → β) (candidates : List α) :
    attained passes (candidates.map change) =
      attained (fun rank candidate ↦ passes rank (change candidate)) candidates := by
  simp only [attained, List.countP_map]
  rfl

theorem attained_congr {others : ℕ → α → Bool}
    (h : ∀ rank, 0 < rank → ∀ candidate ∈ order, passes rank candidate = others rank candidate) :
    attained passes order = attained others order := by
  ext rank
  refine and_congr_right fun hpos ↦ ?_
  rw [List.countP_congr fun candidate hcandidate ↦ by rw [h rank hpos candidate hcandidate]]

theorem attained_le (h : rank ∈ attained passes order) : rank ≤ order.length :=
  h.2.trans List.countP_le_length

theorem exists_isGreatest (h : rank ∈ attained passes order) :
    ∃ greatest, IsGreatest (attained passes order) greatest ∧ rank ≤ greatest := by
  have hbounded : BddAbove (attained passes order) := ⟨order.length, fun _ ↦ attained_le⟩
  obtain ⟨greatest, hgreatest⟩ := hbounded.exists_isGreatest_of_nonempty ⟨rank, h⟩
  exact ⟨greatest, hgreatest, hgreatest.2 h⟩

theorem Weakening.of_le (h : Weakening passes) {later : ℕ} (hpos : 0 < rank) (hle : rank ≤ later)
    {candidate : α} (hpasses : passes rank candidate = true) : passes later candidate = true := by
  induction later, hle using Nat.le_induction with
  | base => exact hpasses
  | succ later hle ih => exact h later candidate (hpos.trans_le hle) ih

theorem countP_mono {passes : α → Bool} {others : β → Bool} {lower : List α} {upper : List β}
    (h : List.Forall₂ (fun first second ↦ passes first = true → others second = true) lower upper) :
    lower.countP passes ≤ upper.countP others := by
  induction h with
  | nil => exact le_rfl
  | cons hhead _ ih =>
    rw [List.countP_cons, List.countP_cons]
    refine add_le_add ih ?_
    split_ifs with hfirst hsecond
    · exact le_rfl
    · exact absurd (hhead hfirst) hsecond
    · exact Nat.zero_le _
    · exact le_rfl

theorem Selected.mono (hweakening : Weakening passes)
    (h : List.Forall₂ (fun lower upper ↦ ∀ rank, passes rank lower = true → passes rank upper = true)
      first second) {lower upper : α} (hselected : Selected passes first lower)
    (hcandidate : ∀ rank, passes rank lower = true → passes rank upper = true) :
    Selected passes second upper := by
  obtain ⟨rank, ⟨⟨hpos, hcount⟩, -⟩, hpasses⟩ := hselected
  have hmem : rank ∈ attained passes second :=
    ⟨hpos, hcount.trans (countP_mono (h.imp fun _ _ himp ↦ himp rank))⟩
  obtain ⟨greatest, hgreatest, hle⟩ := exists_isGreatest hmem
  exact ⟨greatest, hgreatest, hweakening.of_le hpos hle (hcandidate rank hpasses)⟩

theorem cutoff_concat (order : List α) (candidate : α) :
    cutoff passes (order ++ [candidate]) =
      if passes (order.length + 1) candidate then order.length + 1 else cutoff passes order := by
  rw [cutoff, List.zipIdx_append, List.foldl_append, cutoff]
  simp [Nat.add_comm]

theorem le_cutoff (order : List α) {index : ℕ} (h : index < order.length)
    (hpasses : passes (index + 1) order[index] = true) : index + 1 ≤ cutoff passes order := by
  induction order using List.reverseRecOn with
  | nil => cases h
  | append_singleton order candidate ih =>
    rw [cutoff_concat]
    rw [List.length_append, List.length_singleton] at h
    rcases Nat.lt_succ_iff_lt_or_eq.mp h with hlt | rfl
    · rw [List.getElem_append_left hlt] at hpasses
      have hle := ih hlt hpasses
      split_ifs
      · omega
      · exact hle
    · rw [List.getElem_concat_length] at hpasses
      · rw [if_pos hpasses]
      · rfl

theorem passes_cutoff (order : List α) {index : ℕ} (h : cutoff passes order = index + 1) :
    ∃ hindex : index < order.length, passes (index + 1) order[index] = true := by
  induction order using List.reverseRecOn with
  | nil => cases h
  | append_singleton order candidate ih =>
    rw [cutoff_concat] at h
    split_ifs at h with hpasses
    · obtain rfl : order.length = index := Nat.succ_injective h
      refine ⟨by simp, ?_⟩
      rw [List.getElem_concat_length]
      · exact hpasses
      · rfl
    · obtain ⟨hindex, hprevious⟩ := ih h
      refine ⟨by simp; omega, ?_⟩
      rw [List.getElem_append_left hindex]
      exact hprevious

theorem Ranked.lt_countP_iff (h : Ranked passes order) {index : ℕ} (hindex : index < order.length) :
    index < order.countP (passes rank) ↔ passes rank order[index] = true := by
  induction order generalizing index with
  | nil => cases hindex
  | cons head rest ih =>
    obtain ⟨hhead, hrest⟩ := List.pairwise_cons.mp h
    by_cases hpasses : passes rank head = true
    · rw [List.countP_cons_of_pos hpasses]
      cases index with
      | zero => exact iff_of_true (Nat.succ_pos _) hpasses
      | succ index =>
        rw [Nat.succ_lt_succ_iff]
        exact ih hrest (Nat.lt_of_succ_lt_succ hindex)
    · have hnone : ∀ candidate ∈ head :: rest, ¬passes rank candidate = true := by
        intro candidate hcandidate
        rcases List.mem_cons.mp hcandidate with rfl | hmem
        · exact hpasses
        · exact fun hlater ↦ hpasses (hhead candidate hmem rank hlater)
      rw [List.countP_eq_zero.mpr hnone]
      exact iff_of_false (Nat.not_lt_zero _) (hnone _ (List.getElem_mem hindex))

theorem Ranked.mem_attained_iff (h : Ranked passes order) {index : ℕ} :
    index + 1 ∈ attained passes order ↔ ∃ hindex : index < order.length, passes (index + 1) order[index] = true := by
  constructor
  · intro hmem
    have hindex : index < order.length := attained_le hmem
    exact ⟨hindex, (h.lt_countP_iff hindex).mp hmem.2⟩
  · rintro ⟨hindex, hpasses⟩
    exact ⟨Nat.succ_pos _, (h.lt_countP_iff hindex).mpr hpasses⟩

theorem Ranked.isGreatest_cutoff_iff (h : Ranked passes order) :
    IsGreatest (attained passes order) rank ↔ 0 < rank ∧ rank = cutoff passes order := by
  have hupper : cutoff passes order ∈ upperBounds (attained passes order) := by
    intro other hother
    obtain ⟨index, rfl⟩ := Nat.exists_eq_succ_of_ne_zero hother.1.ne'
    obtain ⟨hindex, hpasses⟩ := h.mem_attained_iff.mp hother
    exact le_cutoff order hindex hpasses
  have hmem : 0 < cutoff passes order → cutoff passes order ∈ attained passes order := by
    intro hpos
    obtain ⟨index, hindex⟩ := Nat.exists_eq_succ_of_ne_zero hpos.ne'
    rw [hindex]
    exact h.mem_attained_iff.mpr (passes_cutoff order hindex)
  constructor
  · intro hgreatest
    have hle := hupper hgreatest.1
    exact ⟨hgreatest.1.1, le_antisymm hle (hgreatest.2 (hmem (hgreatest.1.1.trans_le hle)))⟩
  · rintro ⟨hpos, rfl⟩
    exact ⟨hmem hpos, hupper⟩

theorem Ranked.mem_take_cutoff_iff (h : Ranked passes order) (hweakening : Weakening passes) {candidate : α} :
    candidate ∈ order.take (cutoff passes order) ↔ candidate ∈ order ∧ Selected passes order candidate := by
  constructor
  · intro hmem
    obtain ⟨index, hindex, rfl⟩ := List.mem_iff_getElem.mp hmem
    rw [List.length_take, lt_min_iff] at hindex
    have hgreatest := h.isGreatest_cutoff_iff.mpr ⟨Nat.zero_lt_of_lt hindex.1, rfl⟩
    rw [List.getElem_take]
    exact ⟨List.getElem_mem hindex.2, _, hgreatest, (h.lt_countP_iff hindex.2).mp (hindex.1.trans_le hgreatest.1.2)⟩
  · rintro ⟨hmem, rank, hgreatest, hpasses⟩
    obtain ⟨index, hindex, rfl⟩ := List.mem_iff_getElem.mp hmem
    obtain ⟨hpos, rfl⟩ := h.isGreatest_cutoff_iff.mp hgreatest
    have hlt : index < cutoff passes order := by
      by_contra hnot
      have hcount := (h.lt_countP_iff hindex).mpr (hweakening _ _ hpos hpasses)
      have hnext : cutoff passes order + 1 ∈ attained passes order := ⟨Nat.succ_pos _, by omega⟩
      exact absurd (hgreatest.2 hnext) (by omega)
    exact List.mem_iff_getElem.mpr ⟨index, by rw [List.length_take, lt_min_iff]; exact ⟨hlt, hindex⟩,
      List.getElem_take⟩

end UniMem.Library.StepUp
