import UniMem.Library.SlidingWindow

/-!
# Occurrences of a pattern

A scan from the left finds the occurrences of a pattern that do not overlap an earlier one, and replaces them. It
finds one exactly when every occurrence starts within the first.
-/

namespace UniMem.Library

variable {α : Type} {pattern new text : List α} {index : ℕ}

theorem not_occursAt_nil (hne : pattern ≠ []) : ¬OccursAt pattern [] index := by
  intro h
  rw [OccursAt, List.drop_nil] at h
  exact hne (List.prefix_nil.mp h)

theorem drop_pred_length (head : α) (hne : pattern ≠ []) :
    text.drop (pattern.length - 1) = (head :: text).drop pattern.length := by
  cases pattern with
  | nil => exact absurd rfl hne
  | cons _ rest => rfl

variable [DecidableEq α]

instance : Decidable (OccursAt pattern text index) := inferInstanceAs (Decidable (_ <+: _))

/-- The number of the occurrences that a scan finds after some elements. -/
def countFrom (pattern : List α) : ℕ → List α → ℕ
  | _, [] => 0
  | skip + 1, _ :: text => countFrom pattern skip text
  | 0, head :: text =>
    if pattern <+: head :: text then countFrom pattern (pattern.length - 1) text + 1 else countFrom pattern 0 text

/-- The text with another one for each of them. -/
def replaceFrom (pattern new : List α) : ℕ → List α → List α
  | _, [] => []
  | skip + 1, _ :: text => replaceFrom pattern new skip text
  | 0, head :: text =>
    if pattern <+: head :: text then new ++ replaceFrom pattern new (pattern.length - 1) text
    else head :: replaceFrom pattern new 0 text

theorem countFrom_eq_drop (skip : ℕ) : countFrom pattern skip text = countFrom pattern 0 (text.drop skip) := by
  induction text generalizing skip with
  | nil => cases skip <;> rfl
  | cons head text ih =>
    cases skip with
    | zero => rfl
    | succ skip => exact ih skip

theorem replaceFrom_eq_drop (skip : ℕ) :
    replaceFrom pattern new skip text = replaceFrom pattern new 0 (text.drop skip) := by
  induction text generalizing skip with
  | nil => cases skip <;> rfl
  | cons head text ih =>
    cases skip with
    | zero => rfl
    | succ skip => exact ih skip

theorem countFrom_eq_zero_iff (hne : pattern ≠ []) :
    countFrom pattern 0 text = 0 ↔ ∀ index, ¬OccursAt pattern text index := by
  induction text with
  | nil => exact iff_of_true rfl fun _ ↦ not_occursAt_nil hne
  | cons head text ih =>
    rw [countFrom]
    by_cases hstart : pattern <+: head :: text
    · rw [if_pos hstart]
      exact iff_of_false (Nat.succ_ne_zero _) fun h ↦ h 0 hstart
    · rw [if_neg hstart, ih]
      constructor
      · rintro h (_ | index)
        · exact hstart
        · exact h index
      · exact fun h index ↦ h (index + 1)

theorem countFrom_eq_one_iff (hne : pattern ≠ []) :
    countFrom pattern 0 text = 1 ↔ ∃ index, OccursAt pattern text index ∧ ∀ other, OccursAt pattern text other →
      index ≤ other ∧ other < index + pattern.length := by
  induction text with
  | nil => exact iff_of_false Nat.zero_ne_one fun ⟨_, h, _⟩ ↦ not_occursAt_nil hne h
  | cons head text ih =>
    rw [countFrom]
    by_cases hstart : pattern <+: head :: text
    · rw [if_pos hstart, Nat.add_eq_right, countFrom_eq_drop, drop_pred_length head hne, countFrom_eq_zero_iff hne]
      have hdrop : ∀ index, OccursAt pattern ((head :: text).drop pattern.length) index ↔
          OccursAt pattern (head :: text) (pattern.length + index) := by
        intro index
        rw [OccursAt, OccursAt, List.drop_drop]
      constructor
      · intro h
        refine ⟨0, hstart, fun other hother ↦ ⟨Nat.zero_le _, ?_⟩⟩
        by_contra hfar
        apply h (other - pattern.length)
        rwa [hdrop, Nat.add_sub_cancel' (by omega)]
      · rintro ⟨first, -, hfirst⟩ index hindex
        have hzero := (hfirst 0 hstart).1
        have hnear := (hfirst _ ((hdrop index).mp hindex)).2
        omega
    · rw [if_neg hstart, ih]
      constructor
      · rintro ⟨first, hoccurs, hfirst⟩
        refine ⟨first + 1, hoccurs, ?_⟩
        rintro (_ | other) hother
        · exact absurd hother hstart
        · have := hfirst other hother
          omega
      · rintro ⟨_ | first, hoccurs, hfirst⟩
        · exact absurd hoccurs hstart
        · refine ⟨first, hoccurs, fun other hother ↦ ?_⟩
          have := hfirst (other + 1) hother
          omega

theorem replaceFrom_of_none (h : ∀ index, ¬OccursAt pattern text index) :
    replaceFrom pattern new 0 text = text := by
  induction text with
  | nil => rfl
  | cons head text ih =>
    have hstart : ¬pattern <+: head :: text := h 0
    rw [replaceFrom, if_neg hstart, ih fun index ↦ h (index + 1)]

theorem replaceFrom_of_count (hne : pattern ≠ []) (hcount : countFrom pattern 0 text = 1)
    (hindex : OccursAt pattern text index) (hfirst : ∀ other, OccursAt pattern text other → index ≤ other) :
    replaceFrom pattern new 0 text = text.take index ++ new ++ text.drop (index + pattern.length) := by
  induction text generalizing index with
  | nil => exact absurd hindex (not_occursAt_nil hne)
  | cons head text ih =>
    rw [countFrom] at hcount
    rw [replaceFrom]
    by_cases hstart : pattern <+: head :: text
    · rw [if_pos hstart] at hcount ⊢
      obtain rfl := Nat.le_zero.mp (hfirst 0 hstart)
      rw [Nat.add_eq_right, countFrom_eq_drop, drop_pred_length head hne, countFrom_eq_zero_iff hne] at hcount
      rw [replaceFrom_eq_drop, drop_pred_length head hne, replaceFrom_of_none hcount, List.take_zero,
        List.nil_append, Nat.zero_add]
    · rw [if_neg hstart] at hcount ⊢
      cases index with
      | zero => exact absurd hindex hstart
      | succ index =>
        rw [ih hcount hindex fun other hother ↦ Nat.succ_le_succ_iff.mp (hfirst (other + 1) hother),
          Nat.succ_add, List.take_succ_cons, List.drop_succ_cons, List.cons_append, List.cons_append]

end UniMem.Library
