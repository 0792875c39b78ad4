import Mathlib

/-!
# Allowances that time refills

Calls spend an allowance that is bounded and grows with time at a rate at most. The calls of a window spend at most
a full allowance, what the window refills and what they were given.
-/

namespace UniMem.Library

variable {σ α 𝕜 : Type} [Field 𝕜] [LinearOrder 𝕜] [IsStrictOrderedRing 𝕜]

/-- The sum of a measure of the calls of a window along a run. -/
def sumDuring (step : σ → 𝕜 × α → σ) (measure : σ → 𝕜 × α → 𝕜) (first last : 𝕜) : σ → List (𝕜 × α) → 𝕜
  | _, [] => 0
  | state, call :: calls =>
    (if first ≤ call.1 ∧ call.1 ≤ last then measure state call else 0) +
      sumDuring step measure first last (step state call) calls

/-- Calls at nondecreasing times. -/
def Timely (calls : List (𝕜 × α)) : Prop := calls.Pairwise fun call later ↦ call.1 ≤ later.1

/-- An allowance that pays for what the calls spend beyond what they are given. -/
structure Metered (step : σ → 𝕜 × α → σ) (valid : σ → Prop) (spent given : σ → 𝕜 × α → 𝕜) (level : σ → 𝕜 → 𝕜)
    (capacity rate : 𝕜) : Prop where
  rate_nonneg : 0 ≤ rate
  valid_step : ∀ state call, valid state → valid (step state call)
  level_nonneg : ∀ state time, 0 ≤ level state time
  level_le : ∀ state time, level state time ≤ capacity
  given_nonneg : ∀ state call, 0 ≤ given state call
  level_advance : ∀ state time later, time ≤ later → level state later ≤ level state time + rate * (later - time)
  level_step : ∀ state call, valid state →
    level (step state call) call.1 + spent state call ≤ level state call.1 + given state call

variable {step : σ → 𝕜 × α → σ} {valid : σ → Prop} {measure other spent given : σ → 𝕜 × α → 𝕜}
  {level : σ → 𝕜 → 𝕜} {capacity rate first last : 𝕜} {state : σ} {calls : List (𝕜 × α)}

theorem sumDuring_sub : sumDuring step (fun state call ↦ measure state call - other state call) first last state
    calls = sumDuring step measure first last state calls - sumDuring step other first last state calls := by
  induction calls generalizing state with
  | nil => exact (sub_zero 0).symm
  | cons call calls ih =>
    rw [sumDuring, sumDuring, sumDuring, ih]
    split_ifs
    · ring
    · ring

theorem sumDuring_const_mul (factor : 𝕜) :
    sumDuring step (fun state call ↦ factor * measure state call) first last state calls =
      factor * sumDuring step measure first last state calls := by
  induction calls generalizing state with
  | nil => exact (mul_zero factor).symm
  | cons call calls ih =>
    rw [sumDuring, sumDuring, ih]
    split_ifs
    · ring
    · ring

theorem sumDuring_of_lt (h : ∀ call ∈ calls, last < call.1) :
    sumDuring step measure first last state calls = 0 := by
  induction calls generalizing state with
  | nil => rfl
  | cons call calls ih =>
    rw [sumDuring, if_neg fun hin ↦ absurd hin.2 (not_le.mpr (h call List.mem_cons_self)), zero_add]
    exact ih fun later hlater ↦ h later (List.mem_cons_of_mem _ hlater)

theorem Timely.of_cons {call : 𝕜 × α} (h : Timely (call :: calls)) :
    (∀ later ∈ calls, call.1 ≤ later.1) ∧ Timely calls := List.pairwise_cons.mp h

theorem Metered.spent_le_level (h : Metered step valid spent given level capacity rate) (hvalid : valid state)
    {time : 𝕜} (hfirst : first ≤ time) (hlast : time ≤ last) (htimely : Timely calls)
    (hcalls : ∀ call ∈ calls, time ≤ call.1) :
    sumDuring step spent first last state calls ≤
      level state time + rate * (last - time) + sumDuring step given first last state calls := by
  induction calls generalizing state time with
  | nil =>
    have hlevel := h.level_nonneg state time
    have hrefill := mul_nonneg h.rate_nonneg (sub_nonneg.mpr hlast)
    rw [sumDuring, sumDuring]
    linarith
  | cons call calls ih =>
    obtain ⟨hlater, hrest⟩ := htimely.of_cons
    have htime : time ≤ call.1 := hcalls call List.mem_cons_self
    by_cases hin : call.1 ≤ last
    · have hafter := ih (h.valid_step state call hvalid) (hfirst.trans htime) hin hrest hlater
      have hstep := h.level_step state call hvalid
      have hadvance := h.level_advance state time call.1 htime
      have hwindow : first ≤ call.1 ∧ call.1 ≤ last := ⟨hfirst.trans htime, hin⟩
      rw [sumDuring, sumDuring, if_pos hwindow, if_pos hwindow]
      linarith
    · have hout : ∀ later ∈ call :: calls, last < later.1 := by
        intro later hmem
        obtain rfl | hmem := List.mem_cons.mp hmem
        · exact not_le.mp hin
        · exact (not_le.mp hin).trans_le (hlater later hmem)
      have hlevel := h.level_nonneg state time
      have hrefill := mul_nonneg h.rate_nonneg (sub_nonneg.mpr hlast)
      rw [sumDuring_of_lt hout, sumDuring_of_lt hout]
      linarith

theorem Metered.spent_le (h : Metered step valid spent given level capacity rate) (hvalid : valid state)
    (htimely : Timely calls) (hwindow : first ≤ last) :
    sumDuring step spent first last state calls ≤
      capacity + rate * (last - first) + sumDuring step given first last state calls := by
  induction calls generalizing state with
  | nil =>
    have hcapacity := (h.level_nonneg state first).trans (h.level_le state first)
    have hrefill := mul_nonneg h.rate_nonneg (sub_nonneg.mpr hwindow)
    rw [sumDuring, sumDuring]
    linarith
  | cons call calls ih =>
    obtain ⟨hlater, hrest⟩ := htimely.of_cons
    by_cases hbefore : call.1 < first
    · have hout : ¬(first ≤ call.1 ∧ call.1 ≤ last) := fun hin ↦ absurd hin.1 (not_le.mpr hbefore)
      rw [sumDuring, sumDuring, if_neg hout, if_neg hout, zero_add, zero_add]
      exact ih (h.valid_step state call hvalid) hrest
    · have hfirst : first ≤ call.1 := not_lt.mp hbefore
      have hcalls : ∀ later ∈ call :: calls, first ≤ later.1 := by
        intro later hmem
        obtain rfl | hmem := List.mem_cons.mp hmem
        · exact hfirst
        · exact hfirst.trans (hlater later hmem)
      have hspent := h.spent_le_level hvalid le_rfl hwindow htimely hcalls
      have hlevel := h.level_le state first
      linarith

end UniMem.Library
