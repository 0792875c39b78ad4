import Mathlib

/-!
# Mixtures of restarts

A wealth process adds a stake before every step and is multiplied by a factor whose conditional mean is at most one,
so its expectation is at most the sum of the stakes.
-/

namespace UniMem.Library

open MeasureTheory

variable {Ω : Type} {m m0 : MeasurableSpace Ω} {P : Measure Ω} [IsProbabilityMeasure P]

theorem integrable_of_bounds {value : Ω → ℝ} (hvalue : StronglyMeasurable[m0] value) {low high : ℝ}
    (hlow : ∀ ω, low ≤ value ω) (hhigh : ∀ ω, value ω ≤ high) : Integrable value P := by
  refine Integrable.of_bound hvalue.aestronglyMeasurable (max |low| |high|) (.of_forall fun ω ↦ ?_)
  rw [Real.norm_eq_abs]
  exact abs_le_max_abs_abs (hlow ω) (hhigh ω)

theorem integral_mul_le (hm : m ≤ m0) {stake factor : Ω → ℝ} {bound : ℝ} (hstake : StronglyMeasurable[m] stake)
    (hnonneg : ∀ ω, 0 ≤ stake ω) (hbound : ∀ ω, stake ω ≤ bound) (hfactor : Integrable factor P)
    (hmean : P[factor | m] ≤ᵐ[P] fun _ ↦ 1) : ∫ ω, stake ω * factor ω ∂P ≤ ∫ ω, stake ω ∂P := by
  have hnorm : ∀ᵐ ω ∂P, ‖stake ω‖ ≤ bound := .of_forall fun ω ↦ by
    rw [Real.norm_eq_abs, abs_of_nonneg (hnonneg ω)]
    exact hbound ω
  have hpull : P[stake * factor | m] =ᵐ[P] stake * P[factor | m] :=
    condExp_stronglyMeasurable_mul_of_bound hm hstake hfactor bound hnorm
  calc
    _ = ∫ ω, (P[stake * factor | m]) ω ∂P := (integral_condExp hm).symm
    _ ≤ ∫ ω, stake ω ∂P := by
      refine integral_mono_ae integrable_condExp (integrable_of_bounds (hstake.mono hm) hnonneg hbound) ?_
      filter_upwards [hpull, hmean] with ω hvalue hone
      rw [hvalue, Pi.mul_apply]
      exact mul_le_of_le_one_right (hnonneg ω) hone

theorem integral_wealth_le {ℱ : Filtration ℕ m0} {wealth factor : ℕ → Ω → ℝ} {stakes : ℕ → ℝ} {cap : ℝ} {last : ℕ}
    (hmeasurable : ∀ k, StronglyMeasurable[ℱ k] (wealth k)) (hzero : ∀ ω, wealth 0 ω = 0)
    (hnonneg : ∀ k ω, 0 ≤ wealth k ω) (hcap : ∀ k ω, wealth k ω ≤ cap) (hstakes : ∀ k, 0 ≤ stakes k)
    (hfactor : ∀ k < last, Integrable (factor k) P)
    (hstep : ∀ k < last, ∀ ω, wealth (k + 1) ω ≤ (wealth k ω + stakes k) * factor k ω)
    (hmean : ∀ k < last, P[factor k | ℱ k] ≤ᵐ[P] fun _ ↦ 1) {k : ℕ} (hk : k ≤ last) :
    ∫ ω, wealth k ω ∂P ≤ ∑ j ∈ Finset.range k, stakes j := by
  have hintegrable : ∀ k, Integrable (wealth k) P := fun k ↦
    integrable_of_bounds ((hmeasurable k).mono (ℱ.le k)) (hnonneg k) (hcap k)
  induction k with
  | zero =>
    rw [integral_congr_ae (.of_forall hzero), integral_zero, Finset.range_zero, Finset.sum_empty]
  | succ k ih =>
    have hlt : k < last := hk
    have hstake : StronglyMeasurable[ℱ k] fun ω ↦ wealth k ω + stakes k := (hmeasurable k).add_const _
    have hnonneg' : ∀ ω, 0 ≤ wealth k ω + stakes k := fun ω ↦ add_nonneg (hnonneg k ω) (hstakes k)
    have hbound : ∀ ω, wealth k ω + stakes k ≤ cap + stakes k := fun ω ↦ by
      gcongr
      exact hcap k ω
    have hproduct : Integrable (fun ω ↦ (wealth k ω + stakes k) * factor k ω) P := by
      refine (hfactor k hlt).bdd_mul (c := cap + stakes k) (hstake.mono (ℱ.le k)).aestronglyMeasurable
        (.of_forall fun ω ↦ ?_)
      rw [Real.norm_eq_abs, abs_of_nonneg (hnonneg' ω)]
      exact hbound ω
    calc
      _ ≤ ∫ ω, (wealth k ω + stakes k) * factor k ω ∂P :=
        integral_mono (hintegrable (k + 1)) hproduct (hstep k hlt)
      _ ≤ ∫ ω, (wealth k ω + stakes k) ∂P :=
        integral_mul_le (ℱ.le k) hstake hnonneg' hbound (hfactor k hlt) (hmean k hlt)
      _ = ∫ ω, wealth k ω ∂P + stakes k := by
        rw [integral_add (hintegrable k) (integrable_const _), integral_const, probReal_univ, one_smul]
      _ ≤ ∑ j ∈ Finset.range (k + 1), stakes j := by
        rw [Finset.sum_range_succ]
        gcongr
        exact ih hlt.le

theorem sum_six_div_pi_sq_le (k : ℕ) :
    ∑ j ∈ Finset.range k, 6 / (Real.pi * Real.pi * (j + 1 : ℕ) * (j + 1 : ℕ)) ≤ 1 := by
  have hpi : (0 : ℝ) < Real.pi ^ 2 := by positivity
  have hsum : ∑ j ∈ Finset.range (k + 1), 1 / (j : ℝ) ^ 2 ≤ Real.pi ^ 2 / 6 :=
    sum_le_hasSum _ (fun j _ ↦ by positivity) hasSum_zeta_two
  rw [Finset.sum_range_succ'] at hsum
  norm_num at hsum
  calc
    _ = ∑ j ∈ Finset.range k, 6 / Real.pi ^ 2 * (((j : ℝ) + 1) ^ 2)⁻¹ := by
      refine Finset.sum_congr rfl fun j _ ↦ ?_
      push_cast
      field_simp
    _ = 6 / Real.pi ^ 2 * ∑ j ∈ Finset.range k, (((j : ℝ) + 1) ^ 2)⁻¹ := (Finset.mul_sum _ _ _).symm
    _ ≤ 6 / Real.pi ^ 2 * (Real.pi ^ 2 / 6) := by gcongr
    _ = 1 := by field_simp

end UniMem.Library
