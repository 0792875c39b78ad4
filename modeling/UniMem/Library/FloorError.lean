import Mathlib

/-!
# Rounding errors of integer divisions

What floor divisions lose: in one quotient, in a sum of quotients, in the mean of such a sum, and in a ratio of two
sums that were both rounded down.
-/

namespace UniMem.Library.FloorError

variable {α : Type}

theorem ediv_bounds (numerator : ℤ) {denominator : ℤ} (h : 0 < denominator) :
    ((numerator / denominator : ℤ) : ℚ) ≤ numerator / denominator ∧
      (numerator : ℚ) / denominator - 1 ≤ (numerator / denominator : ℤ) := by
  have hpos : (0 : ℚ) < denominator := by exact_mod_cast h
  have hlow : ((numerator / denominator * denominator : ℤ) : ℚ) ≤ numerator := by
    exact_mod_cast Int.ediv_mul_le numerator (by omega)
  have hhigh : (numerator : ℚ) ≤ (((numerator / denominator + 1) * denominator : ℤ) : ℚ) := by
    exact_mod_cast (Int.lt_ediv_add_one_mul_self numerator h).le
  push_cast at hlow hhigh
  constructor
  · rw [le_div_iff₀ hpos]
    exact hlow
  · rw [tsub_le_iff_right, div_le_iff₀ hpos]
    exact hhigh

theorem sum_bounds {values : List α} {rounded : α → ℤ} {exact : α → ℚ}
    (h : ∀ value ∈ values, (rounded value : ℚ) ≤ exact value ∧ exact value - 1 ≤ rounded value) :
    (((values.map rounded).sum : ℤ) : ℚ) ≤ (values.map exact).sum ∧
      (values.map exact).sum - values.length ≤ ((values.map rounded).sum : ℤ) := by
  induction values with
  | nil => simp
  | cons value rest ih =>
    have hhead := h value List.mem_cons_self
    have hrest := ih fun other hother ↦ h other (List.mem_cons_of_mem _ hother)
    rw [List.map_cons, List.map_cons, List.sum_cons, List.sum_cons, List.length_cons]
    push_cast at hrest ⊢
    constructor
    · linarith only [hhead.1, hrest.1]
    · linarith only [hhead.2, hrest.2]

theorem abs_sum_le {values : List α} {rounded : α → ℤ} {exact : α → ℚ}
    (h : ∀ value ∈ values, |(rounded value : ℚ) - exact value| ≤ 1) :
    |(((values.map rounded).sum : ℤ) : ℚ) - (values.map exact).sum| ≤ values.length := by
  induction values with
  | nil => simp
  | cons value rest ih =>
    have hhead := h value List.mem_cons_self
    have hrest := ih fun other hother ↦ h other (List.mem_cons_of_mem _ hother)
    rw [List.map_cons, List.map_cons, List.sum_cons, List.sum_cons, List.length_cons]
    push_cast at hrest ⊢
    calc
      _ = |((rounded value : ℚ) - exact value) +
          (((rest.map rounded).map ((↑) : ℤ → ℚ)).sum - (rest.map exact).sum)| := by
        congr 1
        ring
      _ ≤ |(rounded value : ℚ) - exact value| +
          |((rest.map rounded).map ((↑) : ℤ → ℚ)).sum - (rest.map exact).sum| := abs_add_le _ _
      _ ≤ 1 + rest.length := by
        refine add_le_add hhead ?_
        simpa using hrest
      _ = _ := add_comm _ _

theorem abs_mean_le {total : ℤ} {exact : ℚ} {count : ℤ} (hcount : 0 < count)
    (h : |(total : ℚ) - exact| ≤ count) : |((total / count : ℤ) : ℚ) - exact / count| ≤ 2 := by
  have hpos : (0 : ℚ) < count := by exact_mod_cast hcount
  have hfloor := ediv_bounds total hcount
  have hmean : |(total : ℚ) / count - exact / count| ≤ 1 := by
    rw [← sub_div, abs_div, abs_of_pos hpos, div_le_one hpos]
    exact h
  have hmean' := abs_le.mp hmean
  rw [abs_le]
  constructor
  · linarith only [hfloor.2, hmean'.1]
  · linarith only [hfloor.1, hmean'.2]

theorem abs_exact_mean_le (total : ℤ) {count : ℤ} (hcount : 0 < count) :
    |((total / count : ℤ) : ℚ) - (total : ℚ) / count| ≤ 1 := by
  have hfloor := ediv_bounds total hcount
  rw [abs_le]
  constructor
  · linarith only [hfloor.2]
  · linarith only [hfloor.1]

/-- The error of a scaled ratio of two sums whose terms were rounded down. -/
theorem abs_ratio_le {scale rounded weight count : ℤ} {exact total : ℚ} (hscale : 0 < scale)
    (hweight : 0 < weight) (hrounded : 0 ≤ rounded) (hlow : exact - count ≤ rounded) (hhigh : (rounded : ℚ) ≤ exact)
    (hweightLow : total - count ≤ weight) (hweightHigh : (weight : ℚ) ≤ total)
    (hterms : (scale * count : ℤ) ≤ weight) (hratio : exact ≤ total) (hcount : 0 ≤ count) :
    |((scale * rounded / weight : ℤ) : ℚ) - scale * exact / total| ≤ 2 := by
  have hfloor := ediv_bounds (scale * rounded) hweight
  have hscale' : (0 : ℚ) < scale := by exact_mod_cast hscale
  have hweight' : (0 : ℚ) < weight := by exact_mod_cast hweight
  have htotal : (0 : ℚ) < total := hweight'.trans_le hweightHigh
  have hrounded' : (0 : ℚ) ≤ rounded := by exact_mod_cast hrounded
  have hcount' : (0 : ℚ) ≤ count := by exact_mod_cast hcount
  have hterms' : (scale : ℚ) * count ≤ weight := by exact_mod_cast hterms
  have hexact : 0 ≤ exact := hrounded'.trans hhigh
  -- Rounding the denominator down raises the ratio by at most `scale * count / weight`.
  have hupper : (scale * rounded : ℚ) / weight ≤ scale * exact / total + 1 := by
    rw [div_add_one htotal.ne', div_le_div_iff₀ hweight' htotal]
    have hgap : exact * (total - weight) ≤ total * count := by
      calc
        _ ≤ total * (total - weight) := mul_le_mul_of_nonneg_right hratio (by linarith only [hweightHigh])
        _ ≤ total * count := mul_le_mul_of_nonneg_left (by linarith only [hweightLow]) htotal.le
    calc
      (scale * rounded : ℚ) * total ≤ scale * exact * total := by gcongr
      _ = scale * exact * weight + scale * (exact * (total - weight)) := by ring
      _ ≤ scale * exact * weight + scale * (total * count) := by gcongr
      _ = scale * exact * weight + total * (scale * count) := by ring
      _ ≤ scale * exact * weight + total * weight := by gcongr
      _ = (scale * exact + total) * weight := by ring
  -- Rounding the numerator down lowers it by at most `scale * count / total`.
  have hlower : scale * exact / total - 1 ≤ (scale * rounded : ℚ) / weight := by
    calc
      scale * exact / total - 1 ≤ scale * exact / total - scale * count / total := by
        have hone : scale * (count : ℚ) / total ≤ 1 := (div_le_one htotal).mpr (hterms'.trans hweightHigh)
        linarith only [hone]
      _ = scale * (exact - count) / total := by ring
      _ ≤ scale * rounded / total := by gcongr
      _ ≤ scale * rounded / weight := div_le_div_of_nonneg_left (by positivity) hweight' hweightHigh
  push_cast at hfloor
  rw [abs_le]
  constructor
  · linarith only [hfloor.2, hlower]
  · linarith only [hfloor.1, hupper]

end UniMem.Library.FloorError
