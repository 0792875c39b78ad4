import UniMem.ZkEffect.Privacy

/-!
# The noise radius

`_noise` looks for the first distance beyond which the weights are a small part of their total, and adds one step of
the grid for the rounding of the estimate.
-/

namespace UniMem.ZkEffect

open Library FrontierProtocol

/-- The weights of the indices that are further from the center than a distance. -/
def tailMass (plan : Plan) (fraction : Fraction) (value tail : ℤ) : ℕ :=
  ∑ index ∈ (Finset.range ((gridMaximum plan).toNat + 1)).filter fun index : ℕ ↦
    tail < |(index : ℤ) - center plan value|, weight plan fraction value index

/-- An estimate within the bounds of the grid. -/
def clamped (plan : Plan) (value : ℤ) : ℤ := max (lowest plan) (min scale value)

variable {registered : Plan} {fraction : Fraction} {value : ℤ}

theorem tailMass_eq (tail : ℕ) : tailMass registered fraction value tail =
    ∑ index ∈ (Finset.range ((gridMaximum registered).toNat + 1)).filter fun index ↦
      tail < Nat.dist index (center registered value).toNat,
        Tickets.decaying fraction.numerator fraction.denominator (gridMaximum registered).toNat
          (center registered value).toNat index := by
  have hcenter := (center_mem registered value).1
  refine Finset.sum_congr (Finset.filter_congr fun index _ ↦ ?_) fun index _ ↦ weight_eq _ _ _ index
  rw [Int.abs_eq_natAbs]
  unfold Nat.dist
  omega

theorem tailDistance_cases (registered : Plan) (fraction : Fraction) :
    (∃ tail < (gridMaximum registered).toNat, tailDistance registered fraction = tail ∧
      8 * scale * (fraction.numerator : ℤ) ^ (tail + 1) * fraction.denominator ≤
        registered.alpha * ((fraction.denominator : ℤ) - fraction.numerator) *
          (fraction.denominator : ℤ) ^ (tail + 1)) ∨
      tailDistance registered fraction = (gridMaximum registered).toNat := by
  unfold tailDistance
  dsimp only
  cases hfind : (List.range (gridMaximum registered).toNat).find? fun distance ↦
    8 * scale * (fraction.numerator : ℤ) ^ (distance + 1) * fraction.denominator ≤
      registered.alpha * ((fraction.denominator : ℤ) - fraction.numerator) *
        (fraction.denominator : ℤ) ^ (distance + 1) with
  | none => exact .inr rfl
  | some tail =>
    have hholds := List.find?_some hfind
    exact .inl ⟨tail, List.mem_range.mp (List.mem_of_find?_eq_some hfind), rfl, of_decide_eq_true hholds⟩

theorem tailMass_le (hfraction : fraction.numerator < fraction.denominator) (halpha : 0 ≤ registered.alpha) :
    4 * scale * tailMass registered fraction value (tailDistance registered fraction) ≤
      registered.alpha * (weights registered fraction value).sum := by
  obtain ⟨hnonneg, hle⟩ := center_mem registered value
  have hcenter : (center registered value).toNat ≤ (gridMaximum registered).toNat := by omega
  obtain ⟨tail, htail, heq, hpower⟩ | heq := tailDistance_cases registered fraction
  · obtain ⟨level, hlevel⟩ := Int.eq_ofNat_of_zero_le halpha
    have hscale : scale = (1_000_000 : ℕ) := rfl
    have hsmall : 2 * (4 * 1_000_000) * fraction.numerator ^ (tail + 1) * fraction.denominator ≤
        level * (fraction.denominator - fraction.numerator) * fraction.denominator ^ (tail + 1) := by
      zify [hfraction.le]
      rw [hlevel, hscale] at hpower
      push_cast at hpower ⊢
      linarith only [hpower]
    have hmass := Tickets.beyond_le hfraction htail hcenter hsmall
    rw [heq, tailMass_eq, weights_eq, hlevel, hscale]
    exact_mod_cast hmass
  · have hempty : tailMass registered fraction value (tailDistance registered fraction) = 0 := by
      rw [heq, tailMass]
      refine Finset.sum_eq_zero fun index hindex ↦ ?_
      obtain ⟨hrange, hfar⟩ := Finset.mem_filter.mp hindex
      rw [Finset.mem_range] at hrange
      have hnear : |(index : ℤ) - center registered value| ≤ (gridMaximum registered).toNat := by
        rw [abs_le]
        omega
      exact absurd hfar (not_lt.mpr hnear)
    rw [hempty, Nat.cast_zero, mul_zero]
    exact mul_nonneg halpha (Int.natCast_nonneg _)

theorem abs_value_sub_le {index tail : ℤ} (h : |index - center registered value| ≤ tail) :
    |lowest registered + index * quantum - clamped registered value| ≤ tail * quantum + quantum := by
  have hdivision := Int.mul_ediv_add_emod (clamped registered value - lowest registered) quantum
  have hleast := Int.emod_nonneg (clamped registered value - lowest registered) quantum_pos.ne'
  have hmost := Int.emod_lt_of_pos (clamped registered value - lowest registered) quantum_pos
  have hcenter : center registered value = (clamped registered value - lowest registered) / quantum := rfl
  rw [← hcenter] at hdivision
  have hquantum : quantum = 1_000 := rfl
  generalize (clamped registered value - lowest registered) % quantum = remainder at hdivision hleast hmost
  rw [hquantum] at hdivision hmost ⊢
  rw [abs_le] at h ⊢
  omega

/-- The weights beyond the tail are a quarter of the level at most; others are within the radius. -/
theorem noise_radius_covers (setting : Setting) (registered : Plan) (parameters : NoiseParameters) (value : ℤ)
    (halpha : registered.alpha ∈ logUpper.map LogUpper.alpha)
    (hparameters : dpParameters registered = .ok parameters) :
    4 * scale * tailMass registered parameters.fraction value (tailDistance registered parameters.fraction) ≤
        registered.alpha * (weights registered parameters.fraction value).sum ∧
      ∀ seed release, noise setting registered value seed = .ok release →
        ∃ draw, let index := selected (weights registered parameters.fraction value) draw
          release.value = lowest registered + index * quantum ∧
          (|(index : ℤ) - center registered value| ≤ tailDistance registered parameters.fraction →
            |release.value - clamped registered value| ≤ release.radius) := by
  have hlevels : ∀ level ∈ logUpper.map LogUpper.alpha, 0 ≤ level := by decide
  have hfractions : ∀ fraction ∈ dpLogUpper, fraction.numerator < fraction.denominator := by decide
  obtain ⟨hfraction, -⟩ := dpParameters_spec hparameters
  refine ⟨tailMass_le (hfractions _ hfraction) (hlevels _ halpha), fun seed release hrelease ↦ ?_⟩
  simp only [noise, hparameters, Py.bind_ok, Py.bind_eq_ok_iff, Py.pure_eq_ok, Except.ok.injEq] at hrelease
  obtain ⟨_, -, _, -, _, -, _, -, rfl⟩ := hrelease
  exact ⟨_, rfl, abs_value_sub_le⟩

open Sample in
/-- The radius of the plan of the witnesses with noise. -/
theorem noise_radius_covers_noisyPlan : ∃ parameters, dpParameters noisyPlan = .ok parameters ∧
    4 * scale * tailMass noisyPlan parameters.fraction 300_000 (tailDistance noisyPlan parameters.fraction) ≤
        noisyPlan.alpha * (weights noisyPlan parameters.fraction 300_000).sum ∧
      ∀ seed release, noise setting noisyPlan 300_000 seed = .ok release →
        ∃ draw, let index := selected (weights noisyPlan parameters.fraction 300_000) draw
          release.value = lowest noisyPlan + index * quantum ∧
          (|(index : ℤ) - center noisyPlan 300_000| ≤ tailDistance noisyPlan parameters.fraction →
            |release.value - clamped noisyPlan 300_000| ≤ release.radius) := by
  obtain ⟨parameters, hparameters⟩ := dpParameters_noisyPlan
  have halpha : noisyPlan.alpha ∈ logUpper.map LogUpper.alpha := by decide
  exact ⟨parameters, hparameters, noise_radius_covers setting noisyPlan parameters 300_000 halpha hparameters⟩

end UniMem.ZkEffect
