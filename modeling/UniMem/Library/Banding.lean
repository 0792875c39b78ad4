import Mathlib

/-!
# Bands of positions

Two lists of one length are cut into bands. When fewer positions disagree than there are bands, some band agrees.
-/

namespace UniMem.Library.Banding

variable {α : Type} [DecidableEq α]

/-- The number of positions at which two lists agree. -/
def agreements (first second : List α) : ℕ := ((first.zip second).filter fun pair ↦ pair.1 = pair.2).length

/-- The band of an index. -/
def band (size index : ℕ) (values : List α) : List α := (values.drop (index * size)).take size

theorem agreements_append {first second : List α} (h : first.length = second.length) (rest other : List α) :
    agreements (first ++ rest) (second ++ other) = agreements first second + agreements rest other := by
  rw [agreements, List.zip_append h, List.filter_append, List.length_append]
  rfl

theorem agreements_le_length (first second : List α) : agreements first second ≤ first.length := by
  apply (List.length_filter_le _ _).trans
  rw [List.length_zip]
  exact Nat.min_le_left _ _

theorem eq_of_agreements {first second : List α} (hlength : first.length = second.length)
    (h : agreements first second = first.length) : first = second := by
  induction first generalizing second with
  | nil => exact (List.length_eq_zero_iff.mp hlength.symm).symm
  | cons value first ih =>
    cases second with
    | nil => cases hlength
    | cons other second =>
      have hrest := agreements_le_length first second
      by_cases hvalue : value = other
      · subst hvalue
        have hcount : agreements (value :: first) (value :: second) = agreements first second + 1 := by
          simp [agreements]
        rw [hcount, List.length_cons, Nat.add_right_cancel_iff] at h
        rw [ih (Nat.succ.inj hlength) h]
      · have hcount : agreements (value :: first) (other :: second) = agreements first second := by
          simp [agreements, hvalue]
        rw [hcount, List.length_cons] at h
        omega

omit [DecidableEq α] in
theorem band_succ (size index : ℕ) (values : List α) :
    band size (index + 1) values = band size index (values.drop size) := by
  rw [band, band, List.drop_drop]
  congr 2
  ring

theorem exists_band_eq {size bands : ℕ} {first second : List α} (hfirst : first.length = bands * size)
    (hsecond : second.length = bands * size) (h : bands * size < agreements first second + bands) :
    ∃ index < bands, band size index first = band size index second := by
  induction bands generalizing first second with
  | zero =>
    have hle := agreements_le_length first second
    omega
  | succ bands ih =>
    by_cases hhead : first.take size = second.take size
    · refine ⟨0, Nat.succ_pos _, ?_⟩
      rw [band, band, Nat.zero_mul, List.drop_zero, List.drop_zero]
      exact hhead
    · have hsize : size ≤ (bands + 1) * size := Nat.le_mul_of_pos_left _ (Nat.succ_pos _)
      have htake : (first.take size).length = size := by rw [List.length_take]; omega
      have htake' : (second.take size).length = size := by rw [List.length_take]; omega
      have hsplit : agreements first second =
          agreements (first.take size) (second.take size) + agreements (first.drop size) (second.drop size) := by
        rw [← agreements_append (htake.trans htake'.symm), List.take_append_drop, List.take_append_drop]
      have hdiffer : agreements (first.take size) (second.take size) < size := by
        apply lt_of_le_of_ne
        · exact (agreements_le_length _ _).trans_eq htake
        · intro heq
          exact hhead (eq_of_agreements (htake.trans htake'.symm) (heq.trans htake.symm))
      have hmul : (bands + 1) * size = bands * size + size := Nat.succ_mul bands size
      have hdrop : (first.drop size).length = bands * size := by rw [List.length_drop]; omega
      have hdrop' : (second.drop size).length = bands * size := by rw [List.length_drop]; omega
      obtain ⟨index, hindex, hband⟩ := ih hdrop hdrop' (by omega)
      refine ⟨index + 1, Nat.succ_lt_succ hindex, ?_⟩
      rw [band_succ, band_succ]
      exact hband

/-- The pairs of values of a list, each in the order of the list. -/
def orderedPairs {β : Type} : List β → List (β × β)
  | [] => []
  | value :: rest => rest.map (value, ·) ++ orderedPairs rest

variable {β : Type}

theorem mem_orderedPairs {values : List β} {first second : β} :
    (first, second) ∈ orderedPairs values ↔ [first, second].Sublist values := by
  induction values with
  | nil => simp [orderedPairs]
  | cons value values ih =>
    rw [orderedPairs, List.mem_append, ih, List.sublist_cons_iff, or_comm]
    refine or_congr_right ⟨?_, ?_⟩
    · intro hmem
      obtain ⟨other, hother, heq⟩ := List.mem_map.mp hmem
      obtain ⟨rfl, rfl⟩ := Prod.mk.inj heq
      exact ⟨[other], rfl, List.singleton_sublist.mpr hother⟩
    · rintro ⟨rest, heq, hrest⟩
      obtain ⟨rfl, rfl⟩ := List.cons.inj heq
      exact List.mem_map_of_mem (List.singleton_sublist.mp hrest)

theorem pair_sublist_concat {values : List β} {last first second : β} :
    [first, second].Sublist (values ++ [last]) ↔ [first, second].Sublist values ∨ first ∈ values ∧ second = last := by
  rw [List.sublist_append_iff]
  constructor
  · rintro ⟨left, right, heq, hleft, hright⟩
    obtain rfl | rfl := List.sublist_singleton.mp hright
    · rw [List.append_nil] at heq
      exact Or.inl (heq ▸ hleft)
    · have hlast : [first] ++ [second] = left ++ [last] := heq
      obtain ⟨rfl, hsecond⟩ := List.append_inj' hlast rfl
      exact Or.inr ⟨List.singleton_sublist.mp hleft, List.singleton_injective hsecond⟩
  · rintro (h | ⟨hfirst, rfl⟩)
    · exact ⟨[first, second], [], (List.append_nil _).symm, h, List.nil_sublist _⟩
    · exact ⟨[first], [second], rfl, List.singleton_sublist.mpr hfirst, List.Sublist.refl _⟩

theorem pair_sublist_iff {key : β → ℕ} {values : List β} (h : values.Pairwise (key · < key ·)) {first second : β} :
    [first, second].Sublist values ↔ first ∈ values ∧ second ∈ values ∧ key first < key second := by
  constructor
  · intro hpair
    exact ⟨hpair.subset List.mem_cons_self, hpair.subset (List.mem_cons_of_mem _ List.mem_cons_self),
      List.pairwise_iff_forall_sublist.mp h hpair⟩
  · rintro ⟨hfirst, hsecond, hlt⟩
    induction values with
    | nil => cases hfirst
    | cons value values ih =>
      obtain ⟨hvalue, hvalues⟩ := List.pairwise_cons.mp h
      rcases List.mem_cons.mp hsecond with rfl | hlater
      · rcases List.mem_cons.mp hfirst with rfl | hearlier
        · exact absurd hlt (lt_irrefl _)
        · exact absurd hlt (hvalue first hearlier).asymm
      · rcases List.mem_cons.mp hfirst with rfl | hearlier
        · exact (List.singleton_sublist.mpr hlater).cons_cons _
        · exact (ih hvalues hearlier hlater).cons _

end UniMem.Library.Banding
