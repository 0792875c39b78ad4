import Mathlib

/-!
# Expectations over adaptive assignments

At every step one of two entries is added to a history, with a chance that the history determines. A value that does
not grow in expectation in one step does not grow over any number of steps.
-/

namespace UniMem.Library

variable {α 𝕜 : Type} [Field 𝕜] [LinearOrder 𝕜] [IsStrictOrderedRing 𝕜]

/-- Two entries and the chance of the first one. -/
structure Fork (α 𝕜 : Type) where
  chance : 𝕜
  first : α
  second : α

/-- The expected value of the history after so many more steps. -/
def expectation (plan : List α → Fork α 𝕜) (value : List α → 𝕜) : ℕ → List α → 𝕜
  | 0, history => value history
  | steps + 1, history =>
    (plan history).chance * expectation plan value steps (history ++ [(plan history).first]) +
      (1 - (plan history).chance) * expectation plan value steps (history ++ [(plan history).second])

variable {plan : List α → Fork α 𝕜} {valid : List α → Prop} {value : List α → 𝕜}

/-- Both entries of a fork lead to valid histories. -/
def Grows (plan : List α → Fork α 𝕜) (valid : List α → Prop) : Prop :=
  ∀ history, valid history → (0 ≤ (plan history).chance ∧ (plan history).chance ≤ 1) ∧
    valid (history ++ [(plan history).first]) ∧ valid (history ++ [(plan history).second])

theorem expectation_mono (hgrows : Grows plan valid) {other : List α → 𝕜}
    (hle : ∀ history, valid history → value history ≤ other history) (steps : ℕ) {history : List α}
    (h : valid history) : expectation plan value steps history ≤ expectation plan other steps history := by
  induction steps generalizing history with
  | zero => exact hle history h
  | succ steps ih =>
    obtain ⟨⟨hnonneg, hone⟩, hfirst, hsecond⟩ := hgrows history h
    exact add_le_add (mul_le_mul_of_nonneg_left (ih hfirst) hnonneg)
      (mul_le_mul_of_nonneg_left (ih hsecond) (sub_nonneg.mpr hone))

theorem expectation_le (hgrows : Grows plan valid) (hstep : ∀ history, valid history →
      (plan history).chance * value (history ++ [(plan history).first]) +
        (1 - (plan history).chance) * value (history ++ [(plan history).second]) ≤ value history)
    (steps : ℕ) {history : List α} (h : valid history) :
    expectation plan value steps history ≤ value history := by
  induction steps generalizing history with
  | zero => exact le_rfl
  | succ steps ih =>
    obtain ⟨⟨hnonneg, hone⟩, hfirst, hsecond⟩ := hgrows history h
    calc
      _ ≤ (plan history).chance * value (history ++ [(plan history).first]) +
          (1 - (plan history).chance) * value (history ++ [(plan history).second]) :=
        add_le_add (mul_le_mul_of_nonneg_left (ih hfirst) hnonneg)
          (mul_le_mul_of_nonneg_left (ih hsecond) (sub_nonneg.mpr hone))
      _ ≤ value history := hstep history h

end UniMem.Library
