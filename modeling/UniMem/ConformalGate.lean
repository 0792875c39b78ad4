import UniMem.EProcess.Thresholds
import UniMem.Library.RiskControl

/-!
# The harm gate

`calibrate` chooses a threshold on the scores of memories for each stratum, and `admit` compares scores with it.
Under `crc` the rows control the risk of one more row. Sums are exact.
-/

set_option linter.unusedSectionVars false

namespace UniMem.ConformalGate

open Library FrontierProtocol EProcess

attribute [local instance] atLeastTwo_ten

variable {𝕜 : Type} [Field 𝕜] [LinearOrder 𝕜] [IsStrictOrderedRing 𝕜] [ToString 𝕜]

/-- `Calibration`, with the checks of its constructor. -/
structure Calibration (𝕜 : Type) [Field 𝕜] [LinearOrder 𝕜] where
  score : 𝕜
  injected : Bool
  failed : Bool
  rate : 𝕜
  context : String
  metric : String
  score_mem : 0 ≤ score ∧ score ≤ 1
  rate_mem : 0 ≤ rate ∧ rate ≤ 99 / 100
  context_length : context.length ≤ 128
  metric_length : metric.length ≤ 128

/-- The arguments of `calibrate` after the rows. -/
structure Design (𝕜 : Type) where
  alpha : 𝕜
  beta : 𝕜
  perContext : Bool
  method : String
  propensityFloor : 𝕜

/-- `math.sqrt` and `math.log`. -/
structure Functions (𝕜 : Type) where
  sqrt : 𝕜 → 𝕜
  log : 𝕜 → 𝕜

/-- `THRESHOLDS`. -/
def thresholds : List 𝕜 := (List.range 101).map (fun i : ℕ ↦ (i : 𝕜) / 100) ++ [101 / 100]

/-- What `calibrate` reports about a metric. -/
structure Estimate (𝕜 : Type) where
  n : ℕ
  observedIpwFailure : Option 𝕜
  riskBound : 𝕜
  lossBound : 𝕜

structure Stratum (𝕜 : Type) where
  threshold : 𝕜
  metrics : List (String × Estimate 𝕜)

/-- What `calibrate` returns. -/
structure Calibrated (𝕜 : Type) where
  alpha : 𝕜
  beta : 𝕜
  method : String
  perContext : Bool
  strata : List (String × Stratum 𝕜)
  propensityFloor : 𝕜
  kind : String

/-- The stratum of a row. -/
def Design.label (design : Design 𝕜) (row : Calibration 𝕜) : String := if design.perContext then row.context else ""

/-- Names in order, or one for want of any. -/
def namesOr (fallback : String) (names : List String) : List String :=
  if names = [] then [fallback] else sortBy id names.dedup

def Design.contexts (design : Design 𝕜) (rows : List (Calibration 𝕜)) : List String :=
  namesOr "" (rows.map design.label)

def metricsOf (rows : List (Calibration 𝕜)) : List String := namesOr "failure" (rows.map Calibration.metric)

/-- Whether a row belongs to a stratum and a metric. -/
def Design.belongs (design : Design 𝕜) (context metric : String) (row : Calibration 𝕜) : Bool :=
  (!design.perContext || row.context = context) && row.metric = metric

/-- The weight of an injected failure. -/
def Calibration.failureWeight (row : Calibration 𝕜) : 𝕜 := (if row.injected && row.failed then 1 else 0) /
    (1 - row.rate)

/-- What a row loses under a threshold. -/
def Calibration.loss (row : Calibration 𝕜) (candidate : 𝕜) : 𝕜 :=
  (if row.injected && row.failed && candidate ≤ row.score then 1 else 0) / (1 - row.rate)

/-- The greatest loss that the design allows. -/
def Design.bound (design : Design 𝕜) : 𝕜 := 1 / (design.propensityFloor - 1 / 10 ^ 12)

/-- The losses of a group. -/
def totalLoss (group : List (Calibration 𝕜)) (candidate : 𝕜) : 𝕜 := (group.map (·.loss candidate)).sum

/-- The bound on the risk of a group, among as many tests as strata and metrics. -/
def Design.upper (design : Design 𝕜) (functions : Functions 𝕜) (family : ℕ) (group : List (Calibration 𝕜))
    (candidate : 𝕜) : 𝕜 :=
  if design.method = "ltt" ∧ candidate ≤ 1 then
    totalLoss group candidate / (max group.length 1 : ℕ) + design.bound * functions.sqrt
      (functions.log (((thresholds : List 𝕜).length * family : ℕ) / design.beta) / (2 * max group.length 1 : ℕ))
  else if 1 < candidate then 0
  else (totalLoss group candidate + design.bound) / (group.length + 1 : ℕ)

/-- Whether a threshold keeps the risk of a group within the budget. -/
def Design.passes (design : Design 𝕜) (functions : Functions 𝕜) (family : ℕ) (candidate : 𝕜)
    (group : List (Calibration 𝕜)) : Bool :=
  (group.length ≠ 0 && design.upper functions family group candidate ≤ design.alpha) || 1 < candidate

def Design.estimate (design : Design 𝕜) (functions : Functions 𝕜) (family : ℕ) (group : List (Calibration 𝕜))
    (candidate : 𝕜) : Estimate 𝕜 where
  n := group.length
  observedIpwFailure := if group.length = 0 then none else some (totalLoss group candidate / group.length)
  riskBound := min 1 (design.upper functions family group candidate)
  lossBound := design.bound

/-- The groups of a stratum, by metric. -/
def Design.groups (design : Design 𝕜) (rows : List (Calibration 𝕜)) (context : String) :
    List (String × List (Calibration 𝕜)) :=
  (metricsOf rows).map fun metric ↦ (metric, rows.filter (design.belongs context metric))

/-- The first threshold that every group of a stratum passes. -/
def Design.stratum (design : Design 𝕜) (functions : Functions 𝕜) (rows : List (Calibration 𝕜)) (family : ℕ)
    (context : String) : Stratum 𝕜 :=
  let groups := design.groups rows context
  match thresholds.find? fun candidate ↦ groups.all fun group ↦ design.passes functions family candidate group.2 with
  | none => ⟨101 / 100, []⟩
  | some candidate =>
    ⟨candidate, groups.map fun group ↦ (group.1, design.estimate functions family group.2 candidate)⟩

/-- `calibrate`. -/
def calibrate (functions : Functions 𝕜) (rows : List (Calibration 𝕜)) (design : Design 𝕜) : Py (Calibrated 𝕜) := do
  let _ ← number design.alpha (1 / 10 ^ 6) (99 / 100) "harm budget"
  let _ ← number design.beta (1 / 10 ^ 6) (99 / 100) "failure probability"
  let _ ← count rows.length 0 maxRows "count"
  let _ ← number design.propensityFloor (1 / 100) 1 "preregistered injection-propensity floor"
  Py.require (rows.all fun row ↦ ¬1 - row.rate < design.propensityFloor - 1 / 10 ^ 12)
    (.valueError "calibration violates the declared propensity floor")
  Py.require (design.method = "crc" ∨ design.method = "ltt") (.valueError "method must be crc or ltt")
  let contexts := design.contexts rows
  let family := contexts.length * (metricsOf rows).length
  let _ ← count family 1 256 "strata times metrics"
  return {
    alpha := design.alpha
    beta := design.beta
    method := design.method
    perContext := design.perContext
    strata := contexts.map fun context ↦ (context, design.stratum functions rows family context)
    propensityFloor := design.propensityFloor
    kind := if design.method = "crc" then "expected marginal guarantee" else "high-probability simultaneous bound" }

/-- A calibration with the scorers whose scale it is about. -/
structure Gate (𝕜 : Type) where
  calibration : Calibrated 𝕜
  scorers : List String

/-- The threshold of a context. -/
def Calibrated.thresholdOf (calibration : Calibrated 𝕜) (context : String) : 𝕜 :=
  ((calibration.strata.lookup (if calibration.perContext then context else "")).map Stratum.threshold).getD
    (101 / 100)

/-- `admit`. -/
def admits (gate : Gate 𝕜) (score : 𝕜) (context : String) (hazard : Bool) (scorer : Option String) : Py Bool := do
  let _ ← number score 0 1 "score"
  if hazard then return true
  else if scorer.any (fun scorer ↦ gate.scorers ≠ [] ∧ scorer ∉ gate.scorers) then return false
  else
    let threshold ← number (gate.calibration.thresholdOf context) 0 (101 / 100) "calibrated threshold"
    return decide (threshold ≤ score)

/-- What a row loses under the calibration of other rows: its weighted failure when it is let through. -/
def heldOutLoss (calibration : Calibrated 𝕜) (row : Calibration 𝕜) : 𝕜 :=
  if admits ⟨calibration, []⟩ row.score row.context false none = .ok true then row.failureWeight else 0

variable {functions : Functions 𝕜} {design : Design 𝕜} {rows : List (Calibration 𝕜)} {result : Calibrated 𝕜}
  {family : ℕ} {context metric : String} {row : Calibration 𝕜} {candidate : 𝕜}

/-- A row meets the declared floor. -/
def Design.Meets (design : Design 𝕜) (row : Calibration 𝕜) : Prop :=
  design.propensityFloor - 1 / 10 ^ 12 ≤ 1 - row.rate

theorem calibrate_spec (h : calibrate functions rows design = .ok result) :
    0 < design.alpha ∧ 1 / 100 ≤ design.propensityFloor ∧ (∀ row ∈ rows, design.Meets row) ∧
      result.perContext = design.perContext ∧ result.strata = (design.contexts rows).map fun context ↦
        (context, design.stratum functions rows ((design.contexts rows).length * (metricsOf rows).length)
          context) := by
  obtain ⟨_, halpha, h⟩ := Py.of_bind h
  obtain ⟨_, h⟩ := Py.of_rest h
  obtain ⟨_, h⟩ := Py.of_rest h
  obtain ⟨_, hfloor, h⟩ := Py.of_bind h
  obtain ⟨_, hrows, h⟩ := Py.of_bind h
  obtain ⟨_, h⟩ := Py.of_rest h
  obtain ⟨_, h⟩ := Py.of_rest h
  have hpositive : (0 : 𝕜) < 1 / 10 ^ 6 := by positivity
  rw [← Except.ok.inj h]
  refine ⟨hpositive.trans_le (number_eq_ok_iff.mp halpha).1.1, (number_eq_ok_iff.mp hfloor).1.1,
    fun row hrow ↦ ?_, rfl, rfl⟩
  rw [Py.require_eq_ok_iff, List.all_eq_true] at hrows
  exact not_lt.mp (of_decide_eq_true (hrows row hrow))

theorem Calibration.rate_lt (row : Calibration 𝕜) : 0 < 1 - row.rate := by
  have hrate := row.rate_mem.2
  linarith

theorem Calibration.loss_nonneg (row : Calibration 𝕜) (candidate : 𝕜) : 0 ≤ row.loss candidate := by
  refine div_nonneg ?_ row.rate_lt.le
  split_ifs
  · exact zero_le_one
  · exact le_rfl

theorem Calibration.antitone_loss (row : Calibration 𝕜) : Antitone row.loss := by
  intro lower upper hle
  refine div_le_div_of_nonneg_right ?_ row.rate_lt.le
  by_cases hupper : (row.injected && row.failed && upper ≤ row.score) = true
  · have hlower : (row.injected && row.failed && lower ≤ row.score) = true := by
      rw [Bool.and_eq_true, decide_eq_true_eq] at hupper ⊢
      exact ⟨hupper.1, hle.trans hupper.2⟩
    rw [if_pos hupper, if_pos hlower]
  · rw [if_neg hupper]
    split_ifs
    · exact zero_le_one
    · exact le_rfl

theorem Calibration.loss_of_one_lt (row : Calibration 𝕜) (h : 1 < candidate) : row.loss candidate = 0 := by
  have hscore : ¬candidate ≤ row.score := not_le.mpr (row.score_mem.2.trans_lt h)
  rw [Calibration.loss, decide_eq_false hscore, Bool.and_false, if_neg Bool.false_ne_true, zero_div]

theorem bound_pos (hfloor : 1 / 100 ≤ design.propensityFloor) : 0 < design.propensityFloor - 1 / 10 ^ 12 := by
  have hsmall : (1 : 𝕜) / 10 ^ 12 < 1 / 100 := by
    apply one_div_lt_one_div_of_lt <;> norm_num
  linarith

theorem Design.Meets.loss_le (h : design.Meets row) (hfloor : 1 / 100 ≤ design.propensityFloor) (candidate : 𝕜) :
    row.loss candidate ≤ design.bound := by
  calc
    row.loss candidate ≤ 1 / (1 - row.rate) := by
      refine div_le_div_of_nonneg_right ?_ row.rate_lt.le
      split_ifs
      · exact le_rfl
      · exact zero_le_one
    _ ≤ design.bound := one_div_le_one_div_of_le (bound_pos hfloor) h

theorem totalLoss_antitone (group : List (Calibration 𝕜)) : Antitone (totalLoss group) :=
  fun _ _ hle ↦ List.sum_le_sum fun row _ ↦ row.antitone_loss hle

theorem upper_crc (hmethod : design.method = "crc") (group : List (Calibration 𝕜)) (hle : candidate ≤ 1) :
    design.upper functions family group candidate =
      (totalLoss group candidate + design.bound) / (group.length + 1 : ℕ) := by
  have hltt : ¬(design.method = "ltt" ∧ candidate ≤ 1) := by
    rw [hmethod]
    exact fun h ↦ absurd h.1 (by decide)
  rw [Design.upper, if_neg hltt, if_neg (not_lt.mpr hle)]

theorem upper_of_one_lt (group : List (Calibration 𝕜)) (hlt : 1 < candidate) :
    design.upper functions family group candidate = 0 := by
  rw [Design.upper, if_neg fun h ↦ absurd h.2 (not_le.mpr hlt), if_pos hlt]

theorem stratum_cases (design : Design 𝕜) (functions : Functions 𝕜) (rows : List (Calibration 𝕜)) (family : ℕ)
    (context : String) : 1 < (design.stratum functions rows family context).threshold ∨
      ∀ group ∈ design.groups rows context, group.2.length ≠ 0 ∧
        design.upper functions family group.2 (design.stratum functions rows family context).threshold ≤
          design.alpha := by
  unfold Design.stratum
  dsimp only
  cases hfind : thresholds.find? fun candidate ↦
      (design.groups rows context).all fun group ↦ design.passes functions family candidate group.2 with
  | none =>
    refine .inl ?_
    dsimp only
    norm_num
  | some candidate =>
    dsimp only
    have hpasses := List.find?_some hfind
    rw [List.all_eq_true] at hpasses
    by_cases hlarge : 1 < candidate
    · exact .inl hlarge
    · refine .inr fun group hgroup ↦ ?_
      have hgroup := hpasses group hgroup
      rw [Design.passes, decide_eq_false hlarge, Bool.or_false, Bool.and_eq_true, decide_eq_true_eq,
        decide_eq_true_eq] at hgroup
      exact hgroup

theorem upper_le_of_lt (hmethod : design.method = "crc") (halpha : 0 ≤ design.alpha)
    (hlt : (design.stratum functions rows family context).threshold < candidate)
    {group : String × List (Calibration 𝕜)} (hgroup : group ∈ design.groups rows context) :
    design.upper functions family group.2 candidate ≤ design.alpha := by
  obtain hlarge | hlarge := lt_or_ge 1 candidate
  · rw [upper_of_one_lt _ hlarge]
    exact halpha
  · obtain hone | hpasses := stratum_cases design functions rows family context
    · exact absurd (hone.trans hlt) (not_lt.mpr hlarge)
    · calc
        design.upper functions family group.2 candidate
          = (totalLoss group.2 candidate + design.bound) / (group.2.length + 1 : ℕ) := upper_crc hmethod _ hlarge
        _ ≤ (totalLoss group.2 (design.stratum functions rows family context).threshold + design.bound) /
              (group.2.length + 1 : ℕ) := by
          gcongr
          exact totalLoss_antitone group.2 hlt.le
        _ = design.upper functions family group.2 (design.stratum functions rows family context).threshold :=
          (upper_crc hmethod _ (hlt.le.trans hlarge)).symm
        _ ≤ design.alpha := (hpasses group hgroup).2

theorem mem_metricsOf (h : row ∈ rows) : row.metric ∈ metricsOf rows := by
  have hmem : row.metric ∈ rows.map Calibration.metric := List.mem_map_of_mem h
  rw [metricsOf, namesOr, if_neg (List.ne_nil_of_mem hmem), mem_sortBy, List.mem_dedup]
  exact hmem

theorem thresholdOf_cases (h : calibrate functions rows design = .ok result) (row : Calibration 𝕜) :
    1 < result.thresholdOf row.context ∨ ∃ family, ∀ group ∈ design.groups rows (design.label row),
      group.2.length ≠ 0 ∧ design.upper functions family group.2 (result.thresholdOf row.context) ≤ design.alpha := by
  obtain ⟨-, -, -, hcontext, hstrata⟩ := calibrate_spec h
  rw [Calibrated.thresholdOf, hcontext, hstrata, ← Design.label]
  cases hlookup : ((design.contexts rows).map fun context ↦ (context, design.stratum functions rows
      ((design.contexts rows).length * (metricsOf rows).length) context)).lookup (design.label row) with
  | none =>
    refine .inl ?_
    rw [Option.map_none, Option.getD_none]
    norm_num
  | some stratum =>
    obtain ⟨context, -, heq⟩ := List.mem_map.mp (mem_of_lookup hlookup)
    obtain ⟨rfl, rfl⟩ := Prod.mk.inj heq
    exact (stratum_cases design functions rows _ _).imp_right fun hgroups ↦ ⟨_, hgroups⟩

theorem heldOutLoss_le (result : Calibrated 𝕜) (row : Calibration 𝕜) :
    heldOutLoss result row ≤ row.loss (result.thresholdOf row.context) := by
  unfold heldOutLoss
  split_ifs with hadmit
  · obtain ⟨_, hadmit⟩ := Py.of_rest hadmit
    obtain ⟨threshold, hthreshold, hadmit⟩ := Py.of_bind hadmit
    obtain ⟨-, rfl⟩ := number_eq_ok_iff.mp hthreshold
    have hscore : result.thresholdOf row.context ≤ row.score := of_decide_eq_true (Except.ok.inj hadmit)
    rw [Calibration.loss, decide_eq_true hscore, Bool.and_true]
    exact le_rfl
  · exact row.loss_nonneg _

/-- Whether a row belongs to a stratum. -/
def Design.within (design : Design 𝕜) (label : String) (row : Calibration 𝕜) : Bool := design.label row = label

/-- The places of the rows of a stratum. -/
def Design.places (design : Design 𝕜) (rows : List (Calibration 𝕜)) (label : String) : Finset (Fin rows.length) :=
  placesOf (design.within label) rows

/-- The threshold rejects every score, or the losses and one greatest loss keep to the budget. -/
theorem heldOut_budget (hmethod : design.method = "crc") (hmetric : ∀ row ∈ rows, row.metric = metric)
    {place : Fin rows.length} (h : calibrate functions (rows.eraseIdx place) design = .ok result)
    (hle : result.thresholdOf (rows.get place).context ≤ 1) :
    ∑ other ∈ (design.places rows (design.label (rows.get place))).erase place,
        (rows.get other).loss (result.thresholdOf (rows.get place).context) + design.bound ≤
      design.alpha * (design.places rows (design.label (rows.get place))).card := by
  obtain ⟨family, hgroups⟩ := (thresholdOf_cases h (rows.get place)).resolve_left (not_lt.mpr hle)
  set label := design.label (rows.get place) with hlabel
  set rest := rows.eraseIdx place with hrest
  have hbelongs : rest.filter (design.belongs label metric) =
      rest.filter (design.within label) := by
    refine List.filter_congr fun row hrow ↦ ?_
    have hsame : row.metric = metric := hmetric row (List.mem_of_mem_eraseIdx hrow)
    rw [Design.belongs, decide_eq_true hsame, Bool.and_true, hlabel, Design.within, Design.label, Design.label]
    cases design.perContext with
    | false => rfl
    | true => rfl
  have hgroup : (metric, rest.filter (design.within label)) ∈ design.groups rest label := by
    have hne : rest ≠ [] := by
      intro hempty
      have hfailure : ("failure", []) ∈ design.groups rest label := by
        rw [hempty]
        exact List.mem_singleton.mpr rfl
      exact (hgroups _ hfailure).1 rfl
    obtain ⟨other, hother⟩ := List.exists_mem_of_ne_nil rest hne
    rw [← hbelongs, ← hmetric other (List.mem_of_mem_eraseIdx hother)]
    exact List.mem_map_of_mem (mem_metricsOf hother)
  have hrisk := (hgroups _ hgroup).2
  rw [upper_crc hmethod _ hle, div_le_iff₀ (by positivity)] at hrisk
  have hplace : design.within label (rows.get place) = true := decide_eq_true hlabel.symm
  have hsum := sum_erase_placesOf hplace
    fun row : Calibration 𝕜 ↦ row.loss (result.thresholdOf (rows.get place).context)
  have hcard : ((design.places rows label).card : 𝕜) =
      ((rest.filter (design.within label)).length + 1 : ℕ) := by
    have hones := sum_erase_placesOf hplace fun _ ↦ (1 : 𝕜)
    rw [Finset.sum_const, nsmul_one, List.map_const', List.sum_replicate, nsmul_one, Nat.cast_inj] at hones
    rw [← hones, Nat.cast_inj]
    exact (Finset.card_erase_add_one (mem_placesOf.mpr hplace)).symm
  calc
    _ = totalLoss (rest.filter (design.within label))
        (result.thresholdOf (rows.get place).context) + design.bound := congrArg (· + design.bound) hsum
    _ ≤ design.alpha * ((rest.filter (design.within label)).length + 1 : ℕ) := hrisk
    _ = design.alpha * (design.places rows label).card := by rw [hcard]

/-- With each row held out of its calibration, the losses of a stratum keep to the budget on average. -/
theorem risk_controlled (functions : Functions 𝕜) (design : Design 𝕜) (hmethod : design.method = "crc") :
    (∀ (rows : List (Calibration 𝕜)) (metric : String) (gates : Fin rows.length → Calibrated 𝕜),
      (∀ row ∈ rows, row.metric = metric) → (∀ row ∈ rows, design.Meets row) →
      (∀ place : Fin rows.length, calibrate functions (rows.eraseIdx place) design = .ok (gates place)) →
      ∀ row ∈ rows, (∑ place ∈ design.places rows (design.label row), heldOutLoss (gates place) (rows.get place)) /
        (design.places rows (design.label row)).card ≤ design.alpha) ∧
    ∀ (rows : List (Calibration 𝕜)) (gate : Calibrated 𝕜), calibrate functions rows design = .ok gate →
      ∀ entry ∈ gate.strata, ∀ candidate ∈ thresholds, entry.2.threshold < candidate →
      ∀ group ∈ design.groups rows entry.1, design.upper functions
        ((design.contexts rows).length * (metricsOf rows).length) group.2 candidate ≤ design.alpha := by
  refine ⟨fun rows metric gates hmetric hmeets hgates row hrow ↦ ?_, fun rows gate h entry hentry candidate _ hlt ↦
    ?_⟩
  · obtain ⟨first, hfirst⟩ := List.get_of_mem hrow
    obtain ⟨halpha, hfloor, -⟩ := calibrate_spec (hgates first)
    have hmem : first ∈ design.places rows (design.label row) := by
      refine mem_placesOf.mpr (decide_eq_true ?_)
      rw [hfirst]
    have hcard : (0 : 𝕜) < (design.places rows (design.label row)).card :=
      Nat.cast_pos.mpr (Finset.card_pos.mpr ⟨first, hmem⟩)
    have hlabel : ∀ place ∈ design.places rows (design.label row),
        design.label (rows.get place) = design.label row := by
      intro place hplace
      have hwithin : design.within (design.label row) (rows.get place) = true := mem_placesOf.mp hplace
      exact of_decide_eq_true hwithin
    rw [div_le_iff₀ hcard]
    calc
      _ ≤ ∑ place ∈ design.places rows (design.label row),
          (rows.get place).loss ((gates place).thresholdOf (rows.get place).context) :=
        Finset.sum_le_sum fun place _ ↦ heldOutLoss_le (gates place) (rows.get place)
      _ ≤ design.alpha * (design.places rows (design.label row)).card := by
        refine sum_loss_le_budget (fun place _ ↦ (rows.get place).antitone_loss)
          (fun place _ ↦ (rows.get place).loss_nonneg)
          (fun place _ ↦ (hmeets _ (List.get_mem rows place)).loss_le hfloor)
          (mul_nonneg halpha.le hcard.le) fun place hplace ↦ ?_
        obtain hlarge | hle := lt_or_ge 1 ((gates place).thresholdOf (rows.get place).context)
        · exact .inl ((rows.get place).loss_of_one_lt hlarge)
        · rw [← hlabel place hplace]
          exact .inr (heldOut_budget hmethod hmetric (hgates place) hle)
  · obtain ⟨halpha, -, -, -, hstrata⟩ := calibrate_spec h
    rw [hstrata] at hentry
    obtain ⟨context, -, rfl⟩ := List.mem_map.mp hentry
    exact fun group hgroup ↦ upper_le_of_lt hmethod halpha.le hlt hgroup

namespace Sample

/-! An injected failure and an injected success of one stratum, under a floor of one. -/

def failure : Calibration ℚ :=
  ⟨1 / 2, true, true, 0, "", "failure", by norm_num, by norm_num, by decide, by decide⟩

def success : Calibration ℚ :=
  ⟨4 / 5, true, false, 0, "", "failure", by norm_num, by norm_num, by decide, by decide⟩

def pair : List (Calibration ℚ) := [failure, success]

def generous : Design ℚ := ⟨99 / 100, 1 / 20, false, "crc", 1⟩

def gate (place : Fin pair.length) : Calibrated ℚ :=
  (calibrate ⟨id, id⟩ (pair.eraseIdx place) generous).toOption.getD ⟨0, 0, "", false, [], 0, ""⟩

theorem isOk_calibrate : ∀ place : Fin pair.length,
    (calibrate ⟨id, id⟩ (pair.eraseIdx place) generous).isOk = true := by decide +kernel

theorem calibrate_eq (place : Fin pair.length) :
    calibrate ⟨id, id⟩ (pair.eraseIdx place) generous = .ok (gate place) := by
  have hok := isOk_calibrate place
  unfold gate
  cases hresult : calibrate ⟨id, id⟩ (pair.eraseIdx place) generous with
  | error error =>
    rw [hresult] at hok
    cases hok
  | ok calibrated => rfl

/-- The gate that the success calibrates lets the failure through. -/
theorem risk_controlled_pair :
    (∀ row ∈ pair, (∑ place ∈ generous.places pair (generous.label row),
      heldOutLoss (gate place) (pair.get place)) / (generous.places pair (generous.label row)).card ≤ 99 / 100) ∧
    heldOutLoss (gate ⟨0, by decide⟩) failure = 1 := by
  refine ⟨(risk_controlled ⟨id, id⟩ generous rfl).1 pair "failure" gate ?_ ?_ calibrate_eq, by decide +kernel⟩
  · decide
  · intro row hrow
    have hrate : row.rate = 0 := by
      obtain rfl | hrow := List.mem_cons.mp hrow
      · rfl
      · obtain rfl := List.mem_singleton.mp hrow
        rfl
    rw [Design.Meets, hrate]
    norm_num [generous]

end Sample

end UniMem.ConformalGate
