import UniMem.EProcess.Thresholds
import UniMem.Library.OrderStatistics
import UniMem.Library.RestartMixture
import UniMem.Library.RiskControl

/-!
# Step alarms and action sets

`TrajectoryAlarm` bets against the hypothesis that every step fails with probability `alpha` at most; in exact
arithmetic its e-value has expectation at most one. `action_set` covers the stated share.
-/

set_option linter.unusedSectionVars false

namespace UniMem.ConformalGate

open Library FrontierProtocol EProcess MeasureTheory

attribute [local instance] atLeastTwo_ten atLeastTwo_ninetyNine atLeastTwo_hundred

section Programs

variable {𝕜 : Type} [Field 𝕜] [LinearOrder 𝕜] [IsStrictOrderedRing 𝕜]

/-- `TrajectoryAlarm`, with the checks of its constructor. -/
structure TrajectoryAlarm (𝕜 : Type) [Field 𝕜] [LinearOrder 𝕜] where
  alpha : 𝕜
  beta : 𝕜
  steps : ℕ
  wealth : 𝕜
  allocated : 𝕜
  alpha_mem : 1 / 10 ^ 6 ≤ alpha ∧ alpha ≤ 99 / 100
  beta_mem : 1 / 10 ^ 6 ≤ beta ∧ beta ≤ 99 / 100

/-- An alarm before the first step. -/
def TrajectoryAlarm.start (alpha beta : 𝕜) (halpha : 1 / 10 ^ 6 ≤ alpha ∧ alpha ≤ 99 / 100)
    (hbeta : 1 / 10 ^ 6 ≤ beta ∧ beta ≤ 99 / 100) : TrajectoryAlarm 𝕜 := ⟨alpha, beta, 0, 0, 0, halpha, hbeta⟩

/-- What `update` returns. -/
structure Report (𝕜 : Type) where
  halt : Bool
  eValue : 𝕜
  step : ℕ
  kind : String

/-- The stake that is added before a step, for a value of `math.pi`. -/
def stepWeight (pi : 𝕜) (steps : ℕ) : 𝕜 := 6 / (pi * pi * steps * steps)

/-- The wealth factor of a loss. -/
def TrajectoryAlarm.factor (alarm : TrajectoryAlarm 𝕜) (loss : 𝕜) : 𝕜 :=
  1 + 1 / 2 / alarm.alpha * (loss - alarm.alpha)

/-- The assignments of `update`. -/
def TrajectoryAlarm.advance (pi : 𝕜) (alarm : TrajectoryAlarm 𝕜) (loss : 𝕜) : TrajectoryAlarm 𝕜 :=
  { alarm with
    steps := alarm.steps + 1
    allocated := alarm.allocated + stepWeight pi (alarm.steps + 1)
    wealth := min (10 ^ 300) ((alarm.wealth + stepWeight pi (alarm.steps + 1)) * alarm.factor loss) }

def TrajectoryAlarm.evidence (alarm : TrajectoryAlarm 𝕜) : 𝕜 := alarm.wealth + max 0 (1 - alarm.allocated)

def TrajectoryAlarm.report (alarm : TrajectoryAlarm 𝕜) : Report 𝕜 where
  halt := 1 / alarm.beta ≤ alarm.evidence
  eValue := alarm.evidence
  step := alarm.steps
  kind := "anytime alarm under conditional step risk <= alpha"

/-- `TrajectoryAlarm.update`, with the alarm that it leaves. -/
def TrajectoryAlarm.update [ToString 𝕜] (pi : 𝕜) (alarm : TrajectoryAlarm 𝕜) (loss : 𝕜) :
    Py (Report 𝕜 × TrajectoryAlarm 𝕜) := do
  let _ ← number loss 0 1 "step loss"
  let _ ← count alarm.steps 0 9999 "episode step"
  return ((alarm.advance pi loss).report, alarm.advance pi loss)

/-- The reports of an episode. -/
def TrajectoryAlarm.watch [ToString 𝕜] (pi : 𝕜) : TrajectoryAlarm 𝕜 → List 𝕜 → Py (List (Report 𝕜))
  | _, [] => return []
  | alarm, loss :: losses => do
    let updated ← alarm.update pi loss
    let reports ← updated.2.watch pi losses
    return updated.1 :: reports

/-- What `action_set` returns. -/
structure ActionSet (𝕜 : Type) where
  actions : List String
  askHuman : Bool
  coverage : 𝕜
  assumptions : String

/-- `math.isclose` with the tolerances `rel_tol` and `abs_tol`. -/
def isclose (first second relative absolute : 𝕜) : Bool :=
  |first - second| ≤ max (relative * max |first| |second|) absolute

variable [FloorSemiring 𝕜]

/-- The rank of the threshold among the scores. -/
def scoreRank (size : ℕ) (alpha : 𝕜) : ℕ := ⌈((size : 𝕜) + 1) * (1 - alpha)⌉₊

/-- The threshold that `action_set` computes. -/
def scoreThreshold (scores : List 𝕜) (alpha : 𝕜) : 𝕜 :=
  if scoreRank scores.length alpha ≤ scores.length then (ofRank scores (scoreRank scores.length alpha)).getD 1 else 1

/-- The actions that a threshold keeps. -/
def keptActions (probabilities : List (String × 𝕜)) (threshold : 𝕜) : List String :=
  ((probabilities.filter fun entry ↦ 1 - entry.2 ≤ threshold).map Prod.fst).mergeSort (· ≤ ·)

/-- The result of `action_set` for a threshold. -/
def ActionSet.of (probabilities : List (String × 𝕜)) (threshold alpha : 𝕜) : ActionSet 𝕜 where
  actions := keptActions probabilities threshold
  askHuman := (keptActions probabilities threshold).length ≠ 1
  coverage := 1 - alpha
  assumptions := "exchangeable held-out true-action scores and future action"

/-- `action_set`. -/
def actionSet [ToString 𝕜] (probabilities : List (String × 𝕜)) (calibrationScores : List 𝕜) (alpha : 𝕜) :
    Py (ActionSet 𝕜) := do
  let _ ← count probabilities.length 1 128 "count"
  let _ ← count calibrationScores.length 1 maxRows "count"
  let _ ← number alpha (1 / 10 ^ 6) (99 / 100) "number"
  probabilities.forM fun entry ↦ do
    let _ ← text entry.1 "identifier" 512
    let _ ← number entry.2 0 1 "number"
  Py.require (isclose (probabilities.map Prod.snd).sum 1 (1 / 10 ^ 9) (1 / 10 ^ 6))
    (.valueError "action probabilities must sum to one")
  let scores ← calibrationScores.mapM (number · 0 1 "nonconformity score")
  return ActionSet.of probabilities (scoreThreshold scores alpha) alpha

variable {pi : 𝕜} {alarm : TrajectoryAlarm 𝕜} {losses : List 𝕜}

/-- The alarm after some losses. -/
def TrajectoryAlarm.after (pi : 𝕜) (alarm : TrajectoryAlarm 𝕜) (losses : List 𝕜) : TrajectoryAlarm 𝕜 :=
  losses.foldl (·.advance pi) alarm

theorem after_append_singleton (pi : 𝕜) (alarm : TrajectoryAlarm 𝕜) (losses : List 𝕜) (loss : 𝕜) :
    alarm.after pi (losses ++ [loss]) = (alarm.after pi losses).advance pi loss := List.foldl_append

theorem update_of_mem [ToString 𝕜] {loss : 𝕜} (hloss : 0 ≤ loss ∧ loss ≤ 1) (hsteps : alarm.steps < 10000) :
    alarm.update pi loss = .ok ((alarm.advance pi loss).report, alarm.advance pi loss) := by
  refine Py.bind_eq_ok_iff.mpr ⟨loss, number_eq_ok_iff.mpr ⟨hloss, rfl⟩, ?_⟩
  exact Py.bind_eq_ok_iff.mpr ⟨alarm.steps, count_of_mem _ (Int.natCast_nonneg _) (by omega), rfl⟩

theorem watch_eq [ToString 𝕜] (hlosses : ∀ loss ∈ losses, 0 ≤ loss ∧ loss ≤ 1)
    (hsteps : alarm.steps + losses.length ≤ 10000) :
    alarm.watch pi losses =
      .ok ((List.range losses.length).map fun k ↦ (alarm.after pi (losses.take (k + 1))).report) := by
  induction losses generalizing alarm with
  | nil => rfl
  | cons loss losses ih =>
    rw [List.length_cons] at hsteps
    have hrest := @ih (alarm.advance pi loss) (fun other hother ↦ hlosses other (List.mem_cons_of_mem _ hother))
      (by change alarm.steps + 1 + losses.length ≤ 10000; omega)
    refine Py.bind_eq_ok_iff.mpr ⟨_, update_of_mem (hlosses loss List.mem_cons_self) (by omega), ?_⟩
    refine Py.bind_eq_ok_iff.mpr ⟨_, hrest, ?_⟩
    rw [List.length_cons, List.range_succ_eq_map, List.map_cons, List.map_map]
    rfl

theorem alpha_after (pi : 𝕜) (alarm : TrajectoryAlarm 𝕜) (losses : List 𝕜) :
    (alarm.after pi losses).alpha = alarm.alpha := by
  induction losses generalizing alarm with
  | nil => rfl
  | cons loss losses ih => exact ih (alarm.advance pi loss)

theorem steps_after (pi : 𝕜) (alarm : TrajectoryAlarm 𝕜) (losses : List 𝕜) :
    (alarm.after pi losses).steps = alarm.steps + losses.length := by
  induction losses generalizing alarm with
  | nil => rfl
  | cons loss losses ih =>
    have hnext := ih (alarm.advance pi loss)
    rw [List.length_cons]
    change (alarm.after pi (loss :: losses)).steps = alarm.steps + 1 + losses.length at hnext
    omega

theorem allocated_after (pi : 𝕜) (alarm : TrajectoryAlarm 𝕜) (losses : List 𝕜) :
    (alarm.after pi losses).allocated =
      alarm.allocated + ∑ k ∈ Finset.range losses.length, stepWeight pi (alarm.steps + k + 1) := by
  induction losses using List.reverseRecOn with
  | nil => exact (add_zero _).symm
  | append_singleton losses loss ih =>
    have hnext : (alarm.after pi (losses ++ [loss])).allocated =
        (alarm.after pi losses).allocated + stepWeight pi ((alarm.after pi losses).steps + 1) := by
      rw [after_append_singleton]
      rfl
    rw [hnext, ih, steps_after, List.length_append, List.length_singleton, Finset.sum_range_succ, add_assoc]

theorem stepWeight_nonneg (pi : 𝕜) (steps : ℕ) : 0 ≤ stepWeight pi steps :=
  div_nonneg (by norm_num) (mul_nonneg (mul_nonneg (mul_self_nonneg pi) (Nat.cast_nonneg _)) (Nat.cast_nonneg _))

theorem alpha_pos (alarm : TrajectoryAlarm 𝕜) : 0 < alarm.alpha :=
  lt_of_lt_of_le (by positivity) alarm.alpha_mem.1

theorem half_le_factor (alarm : TrajectoryAlarm 𝕜) {loss : 𝕜} (hloss : 0 ≤ loss) : 1 / 2 ≤ alarm.factor loss := by
  have hpos := alpha_pos alarm
  have hsplit : alarm.factor loss = 1 / 2 + 1 / 2 / alarm.alpha * loss := by
    unfold TrajectoryAlarm.factor
    field_simp
    ring
  rw [hsplit]
  exact le_add_of_nonneg_right (by positivity)

theorem wealth_after_mem (pi : 𝕜) (alarm : TrajectoryAlarm 𝕜) (hstart : alarm.wealth = 0)
    (hlosses : ∀ loss ∈ losses, 0 ≤ loss) :
    0 ≤ (alarm.after pi losses).wealth ∧ (alarm.after pi losses).wealth ≤ 10 ^ 300 := by
  induction losses using List.reverseRecOn with
  | nil =>
    change 0 ≤ alarm.wealth ∧ alarm.wealth ≤ 10 ^ 300
    rw [hstart]
    exact ⟨le_rfl, by positivity⟩
  | append_singleton losses loss ih =>
    obtain ⟨hnonneg, -⟩ := ih fun other hother ↦ hlosses other (List.mem_append_left _ hother)
    have hfactor := half_le_factor (alarm.after pi losses)
      (hlosses loss (List.mem_append_right _ (List.mem_singleton_self loss)))
    rw [after_append_singleton]
    refine ⟨le_min (by positivity) (mul_nonneg (add_nonneg hnonneg (stepWeight_nonneg pi _)) ?_), min_le_left _ _⟩
    exact (by norm_num : (0 : 𝕜) ≤ 1 / 2).trans hfactor

section Coverage

variable {scores : List 𝕜} {probabilities : List (String × 𝕜)} {alpha : 𝕜} {result : ActionSet 𝕜}

theorem mapM_number [ToString 𝕜] {low high : 𝕜} {label : String} {checked : List 𝕜}
    (h : scores.mapM (number · low high label) = .ok checked) :
    checked = scores ∧ ∀ score ∈ scores, low ≤ score ∧ score ≤ high := by
  induction scores generalizing checked with
  | nil => exact ⟨(Except.ok.inj h).symm, fun _ hmem ↦ absurd hmem List.not_mem_nil⟩
  | cons score scores ih =>
    rw [List.mapM_cons] at h
    obtain ⟨first, hfirst, h⟩ := Py.of_bind h
    obtain ⟨rest, hrest, h⟩ := Py.of_bind h
    obtain ⟨hmem, hsame⟩ := number_eq_ok_iff.mp hfirst
    obtain ⟨hsames, hall⟩ := ih hrest
    rw [← hsame, hsames] at h
    exact ⟨(Except.ok.inj h).symm, List.forall_mem_cons.mpr ⟨hmem, hall⟩⟩

theorem actionSet_spec [ToString 𝕜] (h : actionSet probabilities scores alpha = .ok result) :
    (1 ≤ scores.length ∧ 1 / 10 ^ 6 ≤ alpha ∧ alpha ≤ 99 / 100) ∧ (∀ score ∈ scores, 0 ≤ score ∧ score ≤ 1) ∧
      result.actions = keptActions probabilities (scoreThreshold scores alpha) := by
  obtain ⟨_, h⟩ := Py.of_rest h
  obtain ⟨_, hcount, h⟩ := Py.of_bind h
  obtain ⟨_, halpha, h⟩ := Py.of_bind h
  obtain ⟨_, h⟩ := Py.of_rest h
  obtain ⟨_, h⟩ := Py.of_rest h
  obtain ⟨checked, hscores, h⟩ := Py.of_bind h
  obtain ⟨hsame, hrange⟩ := mapM_number hscores
  rw [hsame] at h
  obtain rfl := Except.ok.inj h
  refine ⟨⟨?_, (number_eq_ok_iff.mp halpha).1⟩, hrange, rfl⟩
  exact_mod_cast (count_eq_ok_iff.mp hcount).1.1

/-- The scores that are covered by the thresholds of the others. -/
def covered (scores : List 𝕜) (alpha : 𝕜) : Finset (Fin scores.length) :=
  Finset.univ.filter fun place ↦ scores.get place ≤ scoreThreshold (scores.eraseIdx place) alpha

theorem scoreRank_pos (size : ℕ) (halpha : alpha ≤ 99 / 100) : 0 < scoreRank size alpha := by
  refine Nat.ceil_pos.mpr (mul_pos (by positivity) (sub_pos.mpr (halpha.trans_lt ?_)))
  norm_num

theorem card_placesOf (test : 𝕜 → Bool) (scores : List 𝕜) :
    (Finset.univ.filter fun place : Fin scores.length ↦ test (scores.get place) = true).card =
      scores.countP test := by
  have hones := sum_placesOf test scores fun _ ↦ (1 : ℤ)
  rw [Finset.sum_const, nsmul_one, List.map_const', List.sum_replicate, nsmul_one, Nat.cast_inj,
    ← List.countP_eq_length_filter] at hones
  exact hones

theorem coverage_le (halpha : 0 ≤ alpha ∧ alpha ≤ 99 / 100) (hone : ∀ score ∈ scores, score ≤ 1) :
    (1 - alpha) * scores.length ≤ (covered scores alpha).card := by
  obtain hnone | hpos := scores.length.eq_zero_or_pos
  · have hzero : (scores.length : 𝕜) = 0 := by rw [hnone, Nat.cast_zero]
    rw [hzero, mul_zero]
    exact Nat.cast_nonneg _
  obtain ⟨size, hsize⟩ := Nat.exists_eq_succ_of_ne_zero hpos.ne'
  have hrest : ∀ place : Fin scores.length, (scores.eraseIdx place).length = size := fun place ↦ by
    rw [List.length_eraseIdx_of_lt place.isLt, hsize]
    rfl
  by_cases hrank : scoreRank size alpha ≤ size
  · have hcovered : covered scores alpha = Finset.univ.filter fun place : Fin scores.length ↦
        decide (scores.countP (· < scores.get place) < scoreRank size alpha) = true := by
      refine Finset.filter_congr fun place _ ↦ ?_
      have hplace : scoreRank size alpha - 1 < ((scores.eraseIdx place).mergeSort (· ≤ ·)).length := by
        rw [List.length_mergeSort, hrest place]
        have hpos := scoreRank_pos size halpha.2
        omega
      have hvalue : ofRank (scores.eraseIdx place) (scoreRank size alpha) =
          some ((scores.eraseIdx place).mergeSort (· ≤ ·))[scoreRank size alpha - 1] :=
        List.getElem?_eq_getElem hplace
      rw [scoreThreshold, hrest place, if_pos hrank, hvalue, Option.getD_some, decide_eq_true_eq]
      exact le_ofRank_eraseIdx_iff (scoreRank_pos size halpha.2) place hvalue
    have hcount : scoreRank size alpha ≤ scores.countP fun score ↦
        scores.countP (· < score) < scoreRank size alpha := le_countP_countP (by omega)
    rw [hcovered, card_placesOf fun score ↦ decide (scores.countP (· < score) < scoreRank size alpha)]
    calc
      _ = ((size : 𝕜) + 1) * (1 - alpha) := by rw [hsize, Nat.cast_succ, mul_comm]
      _ ≤ scoreRank size alpha := Nat.le_ceil _
      _ ≤ _ := Nat.cast_le.mpr hcount
  · have hall : covered scores alpha = Finset.univ := by
      refine Finset.filter_true_of_mem fun place _ ↦ ?_
      rw [scoreThreshold, hrest place, if_neg hrank]
      exact hone _ (List.get_mem scores place)
    rw [hall, Finset.card_univ, Fintype.card_fin]
    exact mul_le_of_le_one_left (Nat.cast_nonneg _) (sub_le_self 1 halpha.1)

end Coverage

end Programs

section Expectation

variable {Ω : Type} {m0 : MeasurableSpace Ω} {P : Measure Ω} [IsProbabilityMeasure P]
  {ℱ : Filtration ℕ m0} {losses : ℕ → Ω → ℝ} {alarm : TrajectoryAlarm ℝ}

/-- The first losses of an outcome. -/
def lossesUpTo (losses : ℕ → Ω → ℝ) (k : ℕ) (ω : Ω) : List ℝ := (List.range k).map (losses · ω)

/-- Losses in `[0, 1]`, known after their step, with conditional mean at most `alpha`. -/
structure StepRisk (P : Measure Ω) (ℱ : Filtration ℕ m0) (alpha : ℝ) (losses : ℕ → Ω → ℝ) : Prop where
  adapted : ∀ k, StronglyMeasurable[ℱ (k + 1)] (losses k)
  mem : ∀ k ω, 0 ≤ losses k ω ∧ losses k ω ≤ 1
  mean_le : ∀ k, P[losses k | ℱ k] ≤ᵐ[P] fun _ ↦ alpha

/-- The alarm after the first losses of an outcome. -/
noncomputable def alarmAt (alarm : TrajectoryAlarm ℝ) (losses : ℕ → Ω → ℝ) (k : ℕ) (ω : Ω) : TrajectoryAlarm ℝ :=
  alarm.after Real.pi (lossesUpTo losses k ω)

theorem alarmAt_succ (alarm : TrajectoryAlarm ℝ) (losses : ℕ → Ω → ℝ) (k : ℕ) (ω : Ω) :
    alarmAt alarm losses (k + 1) ω = (alarmAt alarm losses k ω).advance Real.pi (losses k ω) := by
  rw [alarmAt, lossesUpTo, List.range_succ, List.map_append, List.map_singleton, after_append_singleton]
  rfl

theorem continuous_factor (alarm : TrajectoryAlarm ℝ) : Continuous alarm.factor :=
  continuous_const.add (continuous_const.mul (continuous_id.sub continuous_const))

theorem factor_alarmAt (alarm : TrajectoryAlarm ℝ) (losses : ℕ → Ω → ℝ) (k : ℕ) (ω : Ω) (loss : ℝ) :
    (alarmAt alarm losses k ω).factor loss = alarm.factor loss := by
  rw [TrajectoryAlarm.factor, TrajectoryAlarm.factor, alarmAt, alpha_after]

theorem steps_alarmAt (hsteps : alarm.steps = 0) (losses : ℕ → Ω → ℝ) (k : ℕ) (ω : Ω) :
    (alarmAt alarm losses k ω).steps = k := by
  rw [alarmAt, steps_after, hsteps, lossesUpTo, List.length_map, List.length_range, zero_add]

theorem wealth_succ (hsteps : alarm.steps = 0) (losses : ℕ → Ω → ℝ) (k : ℕ) (ω : Ω) :
    (alarmAt alarm losses (k + 1) ω).wealth =
      min (10 ^ 300) (((alarmAt alarm losses k ω).wealth + stepWeight Real.pi (k + 1)) * alarm.factor
        (losses k ω)) := by
  rw [alarmAt_succ, TrajectoryAlarm.advance]
  dsimp only
  rw [steps_alarmAt hsteps, factor_alarmAt]

variable (hrisk : StepRisk P ℱ alarm.alpha losses) (hsteps : alarm.steps = 0) (hwealth : alarm.wealth = 0)
  (hallocated : alarm.allocated = 0)

include hrisk hsteps hwealth in
theorem stronglyMeasurable_wealth (k : ℕ) :
    StronglyMeasurable[ℱ k] fun ω ↦ (alarmAt alarm losses k ω).wealth := by
  induction k with
  | zero =>
    have hzero : (fun ω ↦ (alarmAt alarm losses 0 ω).wealth) = fun _ ↦ (0 : ℝ) := funext fun ω ↦ hwealth
    rw [hzero]
    exact stronglyMeasurable_const
  | succ k ih =>
    have hstep : (fun ω ↦ (alarmAt alarm losses (k + 1) ω).wealth) = fun ω ↦ min (10 ^ 300)
        (((alarmAt alarm losses k ω).wealth + stepWeight Real.pi (k + 1)) * alarm.factor (losses k ω)) :=
      funext fun ω ↦ wealth_succ hsteps losses k ω
    have hpast : StronglyMeasurable[ℱ (k + 1)] fun ω ↦ (alarmAt alarm losses k ω).wealth :=
      ih.mono (ℱ.mono k.le_succ)
    rw [hstep]
    exact (continuous_const.min continuous_id).comp_stronglyMeasurable
      ((hpast.add_const _).mul ((continuous_factor alarm).comp_stronglyMeasurable (hrisk.adapted k)))

theorem factor_le (alarm : TrajectoryAlarm ℝ) {loss : ℝ} (hloss : loss ≤ 1) : alarm.factor loss ≤ alarm.factor 1 := by
  have hpos := alpha_pos alarm
  unfold TrajectoryAlarm.factor
  gcongr

include hrisk in
theorem integrable_factor (k : ℕ) : Integrable (fun ω ↦ alarm.factor (losses k ω)) P := by
  have hmeasurable := (continuous_factor alarm).comp_stronglyMeasurable ((hrisk.adapted k).mono (ℱ.le _))
  exact integrable_of_bounds hmeasurable (fun ω ↦ half_le_factor alarm (hrisk.mem k ω).1)
    fun ω ↦ factor_le alarm (hrisk.mem k ω).2

theorem condExp_factor_le (hrisk : StepRisk P ℱ alarm.alpha losses) (k : ℕ) :
    P[fun ω ↦ alarm.factor (losses k ω) | ℱ k] ≤ᵐ[P] fun _ ↦ 1 := by
  have hpos := alpha_pos alarm
  have hloss : Integrable (losses k) P := integrable_of_bounds ((hrisk.adapted k).mono (ℱ.le _))
    (fun ω ↦ (hrisk.mem k ω).1) fun ω ↦ (hrisk.mem k ω).2
  have hsplit : (fun ω ↦ alarm.factor (losses k ω)) = (fun _ ↦ (1 / 2 : ℝ)) + (1 / 2 / alarm.alpha) • losses k := by
    funext ω
    simp only [TrajectoryAlarm.factor, Pi.add_apply, Pi.smul_apply, smul_eq_mul]
    field_simp
    ring
  rw [hsplit]
  filter_upwards [condExp_add (integrable_const _) (hloss.smul (1 / 2 / alarm.alpha)) (ℱ k),
    condExp_smul (1 / 2 / alarm.alpha) (losses k) (ℱ k), hrisk.mean_le k] with ω hadd hsmul hmean
  rw [hadd, Pi.add_apply, hsmul, condExp_const (ℱ.le k), Pi.smul_apply, smul_eq_mul]
  calc
    _ ≤ 1 / 2 + 1 / 2 / alarm.alpha * alarm.alpha := by gcongr
    _ = 1 := by field_simp; norm_num

theorem sum_stepWeight_le (k : ℕ) : ∑ j ∈ Finset.range k, stepWeight Real.pi (j + 1) ≤ 1 := sum_six_div_pi_sq_le k

theorem lossesUpTo_mem (hrisk : StepRisk P ℱ alarm.alpha losses) (k : ℕ) (ω : Ω) :
    ∀ loss ∈ lossesUpTo losses k ω, 0 ≤ loss ∧ loss ≤ 1 := by
  intro loss hloss
  obtain ⟨j, -, rfl⟩ := List.mem_map.mp hloss
  exact hrisk.mem j ω

include hrisk hsteps hwealth in
theorem integral_wealth_alarmAt_le (k : ℕ) :
    ∫ ω, (alarmAt alarm losses k ω).wealth ∂P ≤ ∑ j ∈ Finset.range k, stepWeight Real.pi (j + 1) := by
  have hmem : ∀ k ω, 0 ≤ (alarmAt alarm losses k ω).wealth ∧ (alarmAt alarm losses k ω).wealth ≤ 10 ^ 300 :=
    fun k ω ↦ wealth_after_mem _ alarm hwealth fun loss hloss ↦ (lossesUpTo_mem hrisk k ω loss hloss).1
  have hmeasurable := stronglyMeasurable_wealth hrisk hsteps hwealth
  refine integral_wealth_le hmeasurable (fun ω ↦ hwealth) (fun k ω ↦ (hmem k ω).1) (fun k ω ↦ (hmem k ω).2)
    (fun k ↦ stepWeight_nonneg _ _) (fun k _ ↦ integrable_factor hrisk k) (fun k _ ω ↦ ?_)
      (fun k _ ↦ condExp_factor_le hrisk k) le_rfl
  rw [wealth_succ hsteps]
  exact min_le_right _ _

theorem evidence_alarmAt (hsteps : alarm.steps = 0) (hallocated : alarm.allocated = 0) (losses : ℕ → Ω → ℝ) (k : ℕ)
    (ω : Ω) : (alarmAt alarm losses k ω).evidence = (alarmAt alarm losses k ω).wealth +
      (1 - ∑ j ∈ Finset.range k, stepWeight Real.pi (j + 1)) := by
  rw [TrajectoryAlarm.evidence]
  congr 1
  have hstakes : (alarmAt alarm losses k ω).allocated = ∑ j ∈ Finset.range k, stepWeight Real.pi (j + 1) := by
    rw [alarmAt, allocated_after, hallocated, zero_add, lossesUpTo, List.length_map, List.length_range, hsteps]
    exact Finset.sum_congr rfl fun j _ ↦ by rw [zero_add]
  rw [hstakes]
  exact max_eq_right (sub_nonneg.mpr (sum_stepWeight_le k))

include hrisk hsteps hwealth hallocated in
theorem integral_evidence_le (k : ℕ) :
    Integrable (fun ω ↦ (alarmAt alarm losses k ω).evidence) P ∧ ∫ ω, (alarmAt alarm losses k ω).evidence ∂P ≤ 1 := by
  have hsplit : (fun ω ↦ (alarmAt alarm losses k ω).evidence) = fun ω ↦ (alarmAt alarm losses k ω).wealth +
      (1 - ∑ j ∈ Finset.range k, stepWeight Real.pi (j + 1)) :=
    funext fun ω ↦ evidence_alarmAt hsteps hallocated losses k ω
  have hintegrable : Integrable (fun ω ↦ (alarmAt alarm losses k ω).wealth) P := by
    have hmem := fun ω ↦ wealth_after_mem Real.pi alarm hwealth
      fun loss hloss ↦ (lossesUpTo_mem hrisk k ω loss hloss).1
    exact integrable_of_bounds ((stronglyMeasurable_wealth hrisk hsteps hwealth k).mono (ℱ.le k))
      (fun ω ↦ (hmem ω).1) fun ω ↦ (hmem ω).2
  have hmean := integral_wealth_alarmAt_le hrisk hsteps hwealth k
  rw [hsplit]
  refine ⟨hintegrable.add (integrable_const _), ?_⟩
  rw [integral_add hintegrable (integrable_const _), integral_const, probReal_univ, one_smul]
  linarith

end Expectation

/-- The e-values have expectation at most one, and the promised share of scores is covered. -/
theorem alarm_and_coverage [ToString ℝ] :
    (∀ {Ω : Type} {m0 : MeasurableSpace Ω} (P : Measure Ω) [IsProbabilityMeasure P] (ℱ : Filtration ℕ m0)
      (alpha beta : ℝ) (halpha : 1 / 10 ^ 6 ≤ alpha ∧ alpha ≤ 99 / 100)
      (hbeta : 1 / 10 ^ 6 ≤ beta ∧ beta ≤ 99 / 100) (losses : ℕ → Ω → ℝ), StepRisk P ℱ alpha losses →
      (∀ k ω, 0 < (TrajectoryAlarm.start alpha beta halpha hbeta).factor (losses k ω)) ∧
      ∀ steps ≤ 10000, ∃ reports : ℕ → Ω → Report ℝ,
        (∀ ω, (TrajectoryAlarm.start alpha beta halpha hbeta).watch Real.pi (lossesUpTo losses steps ω) =
          .ok ((List.range steps).map (reports · ω))) ∧
        ∀ k < steps, Integrable (fun ω ↦ (reports k ω).eValue) P ∧ ∫ ω, (reports k ω).eValue ∂P ≤ 1) ∧
    ∀ (scores : List ℝ) (alpha : ℝ) (distributions : Fin scores.length → List (String × ℝ))
      (results : Fin scores.length → ActionSet ℝ),
      (∀ place, actionSet (distributions place) (scores.eraseIdx place) alpha = .ok (results place)) →
      (1 - alpha) * scores.length ≤ (covered scores alpha).card ∧ ∀ place, (results place).actions =
        keptActions (distributions place) (scoreThreshold (scores.eraseIdx place) alpha) := by
  refine ⟨fun P _ ℱ alpha beta halpha hbeta losses hrisk ↦ ⟨fun k ω ↦ ?_, fun steps hle ↦ ?_⟩,
    fun scores alpha distributions results hresults ↦ ⟨?_, fun place ↦ (actionSet_spec (hresults place)).2.2⟩⟩
  · exact lt_of_lt_of_le (by norm_num) (half_le_factor _ (hrisk.mem k ω).1)
  · set alarm := TrajectoryAlarm.start alpha beta halpha hbeta
    have hstep : StepRisk P ℱ alarm.alpha losses := hrisk
    refine ⟨fun k ω ↦ (alarmAt alarm losses (k + 1) ω).report, fun ω ↦ ?_, fun k _ ↦
      integral_evidence_le hstep rfl rfl rfl (k + 1)⟩
    have hlength : (lossesUpTo losses steps ω).length = steps := by
      rw [lossesUpTo, List.length_map, List.length_range]
    have hsteps : alarm.steps + (lossesUpTo losses steps ω).length ≤ 10000 := by
      rw [hlength]
      exact (zero_add steps).trans_le hle
    rw [watch_eq (lossesUpTo_mem hstep steps ω) hsteps, hlength]
    refine congrArg Except.ok (List.map_congr_left fun k hk ↦ ?_)
    dsimp only
    rw [alarmAt, lossesUpTo, lossesUpTo, ← List.map_take, List.take_range, min_eq_left (List.mem_range.mp hk)]
  · obtain hnone | hpos := scores.length.eq_zero_or_pos
    · have hzero : (scores.length : ℝ) = 0 := by rw [hnone, Nat.cast_zero]
      rw [hzero, mul_zero]
      exact Nat.cast_nonneg _
    obtain ⟨⟨hcount, halpha⟩, -⟩ := actionSet_spec (hresults ⟨0, hpos⟩)
    refine coverage_le ⟨(by positivity : (0 : ℝ) ≤ 1 / 10 ^ 6).trans halpha.1, halpha.2⟩ fun score hscore ↦ ?_
    -- Every score is among the others of some place, where it was checked.
    obtain ⟨own, hown, rfl⟩ := List.getElem_of_mem hscore
    rw [List.length_eraseIdx_of_lt hpos] at hcount
    obtain ⟨place, hne⟩ : ∃ place : Fin scores.length, own ≠ place := by
      obtain rfl | hne := eq_or_ne own 0
      · exact ⟨⟨1, by omega⟩, Nat.zero_ne_one⟩
      · exact ⟨⟨0, hpos⟩, hne⟩
    obtain ⟨-, hrange, -⟩ := actionSet_spec (hresults place)
    exact (hrange _ (List.mem_eraseIdx_iff_getElem.mpr ⟨own, hown, hne, rfl⟩)).2

namespace Sample

/-! An episode without losses, and two equal scores of a fair coin. -/

instance toStringReal : ToString ℝ := ⟨fun _ ↦ "a real number"⟩

theorem half_mem : (1 : ℝ) / 10 ^ 6 ≤ 1 / 2 ∧ (1 : ℝ) / 2 ≤ 99 / 100 := by norm_num

theorem stepRisk_zero : StepRisk (Measure.dirac ()) (⊥ : Filtration ℕ _) (1 / 2) fun _ _ ↦ 0 where
  adapted := fun _ ↦ stronglyMeasurable_const
  mem := fun _ _ ↦ ⟨le_rfl, zero_le_one⟩
  mean_le := fun k ↦ by
    rw [condExp_const (Filtration.le _ k)]
    exact .of_forall fun _ ↦ by norm_num

noncomputable def coin : List (String × ℝ) := [("heads", 1 / 2), ("tails", 1 / 2)]

theorem actionSet_coin : actionSet coin [1 / 2] (1 / 2) =
    .ok (ActionSet.of coin (scoreThreshold [1 / 2] (1 / 2)) (1 / 2)) := by
  have hclose : isclose (coin.map Prod.snd).sum 1 (1 / 10 ^ 9) (1 / 10 ^ 6) = true := by
    norm_num [isclose, coin]
  have hnumber : ∀ (low high : ℝ) (label : String), low ≤ 1 / 2 → 1 / 2 ≤ high →
      number (1 / 2) low high label = .ok (1 / 2) := fun low high label hlow hhigh ↦
    number_eq_ok_iff.mpr ⟨⟨hlow, hhigh⟩, rfl⟩
  refine Py.bind_eq_ok_iff.mpr ⟨2, by decide, Py.bind_eq_ok_iff.mpr ⟨1, by decide, ?_⟩⟩
  refine Py.bind_eq_ok_iff.mpr ⟨1 / 2, hnumber _ _ _ (by norm_num) (by norm_num), ?_⟩
  refine Py.bind_eq_ok_iff.mpr ⟨(), ?_, ?_⟩
  · refine Py.forM_eq_ok_iff.mpr fun entry hentry ↦ ?_
    obtain rfl | hentry := List.mem_cons.mp hentry
    · exact Py.bind_eq_ok_iff.mpr ⟨"heads", by decide, Py.bind_eq_ok_iff.mpr
        ⟨1 / 2, hnumber _ _ _ (by norm_num) (by norm_num), rfl⟩⟩
    · obtain rfl := List.mem_singleton.mp hentry
      exact Py.bind_eq_ok_iff.mpr ⟨"tails", by decide, Py.bind_eq_ok_iff.mpr
        ⟨1 / 2, hnumber _ _ _ (by norm_num) (by norm_num), rfl⟩⟩
  · rw [hclose]
    refine Py.bind_eq_ok_iff.mpr ⟨(), rfl, Py.bind_eq_ok_iff.mpr ⟨[1 / 2], ?_, rfl⟩⟩
    rw [List.mapM_cons, hnumber _ _ _ (by norm_num) (by norm_num)]
    rfl

end Sample

theorem alarm_and_coverage_coin :
    0 < (TrajectoryAlarm.start (1 / 2 : ℝ) (1 / 2) Sample.half_mem Sample.half_mem).factor 0 ∧
      (1 - 1 / 2) * ((2 : ℕ) : ℝ) ≤ (covered [1 / 2, 1 / 2] (1 / 2 : ℝ)).card := by
  refine ⟨(alarm_and_coverage.1 (Measure.dirac ()) ⊥ (1 / 2) (1 / 2) Sample.half_mem Sample.half_mem
    (fun _ _ ↦ 0) Sample.stepRisk_zero).1 0 (), ?_⟩
  refine (alarm_and_coverage.2 [1 / 2, 1 / 2] (1 / 2) (fun _ ↦ Sample.coin)
    (fun _ ↦ ActionSet.of Sample.coin (scoreThreshold [1 / 2] (1 / 2)) (1 / 2)) fun place ↦ ?_).1
  fin_cases place
  · exact Sample.actionSet_coin
  · exact Sample.actionSet_coin

end UniMem.ConformalGate
