import UniMem.EProcess.Betting
import UniMem.Library.Totals

/-!
# The expectation of betting evidence

Every factor of the wealth is between one half and three halves, and under the null its expectation given the past
is at most one, however rates, strata and outcomes depend on the past.
-/

set_option linter.unusedSectionVars false

namespace UniMem.EProcess

open Library FrontierProtocol

attribute [local instance] atLeastTwo_two atLeastTwo_ten

variable {𝕜 : Type} [Field 𝕜] [LinearOrder 𝕜] [IsStrictOrderedRing 𝕜]

/-- A running mean of outcomes. -/
structure RunningMean.Sound (mean : RunningMean 𝕜) : Prop where
  total : mean.total = mean.values.sum
  values : ∀ value ∈ mean.values, 0 ≤ value ∧ value ≤ 1

structure Means.Sound (means : Means 𝕜) : Prop where
  pooled : ∀ arm, (means.pooled arm).Sound
  byStratum : ∀ entry ∈ means.byStratum, entry.2.Sound

theorem outcome_mem (succeeded : Bool) : 0 ≤ (outcome succeeded : 𝕜) ∧ (outcome succeeded : 𝕜) ≤ 1 := by
  cases succeeded with
  | true => exact ⟨zero_le_one, le_rfl⟩
  | false => exact ⟨le_rfl, zero_le_one⟩

theorem sound_empty : (RunningMean.empty : RunningMean 𝕜).Sound :=
  ⟨rfl, fun _ h ↦ absurd h List.not_mem_nil⟩

theorem RunningMean.Sound.get_mem {mean : RunningMean 𝕜} (h : mean.Sound) {fallback : Option 𝕜}
    (hfallback : ∀ value ∈ fallback, 0 ≤ value ∧ value ≤ 1) : 0 ≤ mean.get fallback ∧ mean.get fallback ≤ 1 := by
  have hnonneg : 0 ≤ mean.values.sum := List.sum_nonneg fun value hvalue ↦ (h.values value hvalue).1
  have hle : mean.values.sum ≤ mean.values.length := by
    have hsum := List.sum_le_card_nsmul mean.values 1 fun value hvalue ↦ (h.values value hvalue).2
    rwa [nsmul_one] at hsum
  have hprior : 0 ≤ fallback.getD (1 / 2) ∧ fallback.getD (1 / 2) ≤ 1 := by
    cases fallback with
    | none => norm_num
    | some value => exact hfallback value rfl
  unfold RunningMean.get
  rw [h.total]
  refine ⟨by positivity [hprior.1], (div_le_one (by positivity)).mpr ?_⟩
  linarith [hprior.2]

theorem RunningMean.Sound.add {mean : RunningMean 𝕜} (h : mean.Sound) (window : ℕ) (succeeded : Bool) :
    (mean.add window (outcome succeeded)).Sound := by
  unfold RunningMean.add
  split_ifs with hfull
  · refine ⟨?_, List.forall_mem_append.mpr ⟨fun value hvalue ↦ h.values value (List.mem_of_mem_tail hvalue),
      List.forall_mem_singleton.mpr (outcome_mem succeeded)⟩⟩
    dsimp only
    rw [h.total, List.sum_append, List.sum_singleton]
    cases mean.values with
    | nil => simp
    | cons value values => simp
  · refine ⟨?_, List.forall_mem_append.mpr ⟨h.values, List.forall_mem_singleton.mpr (outcome_mem succeeded)⟩⟩
    dsimp only
    rw [h.total, List.sum_append, List.sum_singleton]

theorem Means.sound_empty : (Means.empty : Means 𝕜).Sound :=
  ⟨fun _ ↦ EProcess.sound_empty, fun _ h ↦ absurd h List.not_mem_nil⟩

theorem pooled_add (window : ℕ) (means : Means 𝕜) (row : Observation 𝕜) :
    (means.add window row).pooled = Function.update means.pooled row.injected
      ((means.pooled row.injected).add window (outcome row.succeeded)) := rfl

theorem Means.Sound.add {means : Means 𝕜} (h : means.Sound) (window : ℕ) (row : Observation 𝕜) :
    (means.add window row).Sound := by
  refine ⟨fun arm ↦ ?_, ?_⟩
  · by_cases harm : arm = row.injected
    · subst harm
      rw [pooled_add, Function.update_self]
      exact (h.pooled _).add window row.succeeded
    · rw [pooled_add, Function.update_of_ne harm]
      exact h.pooled arm
  · have hold : ((means.byStratum.lookup (row.stratum, row.injected)).getD .empty).Sound := by
      cases hlookup : means.byStratum.lookup (row.stratum, row.injected) with
      | none => exact EProcess.sound_empty
      | some mean => exact h.byStratum _ (mem_of_lookup hlookup)
    unfold Means.add
    dsimp only
    split_ifs
    · exact h.byStratum
    · intro entry hentry
      obtain rfl | hmem := eq_or_mem_of_mem_assign hentry
      · exact hold.add window row.succeeded
      · exact h.byStratum entry hmem

theorem Means.Sound.mean_mem {means : Means 𝕜} (h : means.Sound) (stratum : String) (arm : Bool) :
    0 ≤ means.mean stratum arm ∧ means.mean stratum arm ≤ 1 := by
  have hpooled : 0 ≤ (means.pooled arm).get none ∧ (means.pooled arm).get none ≤ 1 :=
    (h.pooled arm).get_mem fun _ hnone ↦ by cases hnone
  unfold Means.mean
  cases hlookup : means.byStratum.lookup (stratum, arm) with
  | none => exact hpooled
  | some mean =>
    refine (h.byStratum _ (mem_of_lookup hlookup)).get_mem fun value hvalue ↦ ?_
    obtain rfl := Option.some.inj hvalue
    exact hpooled

theorem abs_corrected_le {first second value p : 𝕜} (hfirst : 0 ≤ first ∧ first ≤ 1)
    (hsecond : 0 ≤ second ∧ second ≤ 1) (hvalue : 0 ≤ value ∧ value ≤ 1) (hpos : 0 < p) (hle : p ≤ 1) :
    |first - second + (value - first) / p| ≤ 1 / p := by
  have hq : 1 ≤ 1 / p := (one_le_div hpos).mpr hle
  have hdiv : (value - first) / p = (value - first) * (1 / p) := div_eq_mul_one_div _ _
  rw [hdiv, abs_le]
  constructor
  · have hmul := mul_nonneg (sub_nonneg.mpr hq) (by linarith : 0 ≤ 1 + value - first)
    linarith
  · have hmul := mul_nonneg (sub_nonneg.mpr hq) (by linarith : 0 ≤ 1 - value + first)
    linarith

variable {row : Observation 𝕜} {means : Means 𝕜} {entry : Entry 𝕜} {sums : Sums 𝕜}

theorem least_pos (hrate : 0 < row.rate ∧ row.rate < 1) : 0 < row.least := lt_min (sub_pos.mpr hrate.2) hrate.1

theorem one_div_le_least (hrate : 0 < row.rate ∧ row.rate < 1) :
    1 / (1 - row.rate) ≤ 1 / row.least ∧ 1 / row.rate ≤ 1 / row.least :=
  ⟨one_div_le_one_div_of_le (least_pos hrate) (min_le_left _ _),
    one_div_le_one_div_of_le (least_pos hrate) (min_le_right _ _)⟩

theorem Means.Sound.abs_score_le (h : means.Sound) (hrate : 0 < row.rate ∧ row.rate < 1) :
    |means.score row| ≤ 1 / row.least := by
  have htrue := h.mean_mem row.stratum true
  have hfalse := h.mean_mem row.stratum false
  unfold Means.score
  split_ifs
  · exact (abs_corrected_le htrue hfalse (outcome_mem _) (sub_pos.mpr hrate.2) (by linarith [hrate.1])).trans
      (one_div_le_least hrate).1
  · have hnegated : means.mean row.stratum true - means.mean row.stratum false -
        (outcome row.succeeded - means.mean row.stratum false) / row.rate =
        -(means.mean row.stratum false - means.mean row.stratum true +
          (outcome row.succeeded - means.mean row.stratum false) / row.rate) := by ring
    rw [hnegated, abs_neg]
    exact (abs_corrected_le hfalse htrue (outcome_mem _) hrate.1 hrate.2.le).trans (one_div_le_least hrate).2

theorem abs_slope_le (sums : Sums 𝕜) : |sums.slope| ≤ 1 := by
  unfold Sums.slope
  exact abs_le.mpr ⟨le_max_left _ _, max_le (by linarith [(zero_le_one : (0 : 𝕜) ≤ 1)]) (min_le_left _ _)⟩

theorem abs_contrast_le (hrate : 0 < row.rate ∧ row.rate < 1) : |row.contrast| ≤ 1 / row.least := by
  have hp : 0 < 1 / (1 - row.rate) := one_div_pos.mpr (sub_pos.mpr hrate.2)
  have hr : 0 < 1 / row.rate := one_div_pos.mpr hrate.1
  unfold Observation.contrast outcome
  cases row.injected with
  | true =>
    simp only [if_true, Bool.not_true, Bool.false_eq_true, if_false, zero_div, sub_zero]
    rw [abs_of_pos hp]
    exact (one_div_le_least hrate).1
  | false =>
    simp only [if_true, Bool.not_false, Bool.false_eq_true, if_false, zero_div, zero_sub, abs_neg]
    rw [abs_of_pos hr]
    exact (one_div_le_least hrate).2

/-- A row that is randomized, with a prior that is a probability. -/
structure Randomized (entry : Entry 𝕜) : Prop where
  rate : 0 < entry.1.rate ∧ entry.1.rate < 1
  prior : ∀ prior ∈ entry.2, 0 ≤ prior ∧ prior ≤ 1

theorem abs_adjust_le (h : Randomized entry) (sums : Sums 𝕜) {score : 𝕜} (hscore : |score| ≤ 1 / entry.1.least) :
    |(sums.adjust entry score).1| ≤ (sums.adjust entry score).2 := by
  unfold Sums.adjust
  cases hprior : entry.2 with
  | none => exact hscore
  | some prior =>
    obtain ⟨hnonneg, hone⟩ := h.prior prior hprior
    have hhalf : |prior - 1 / 2| ≤ 1 / 2 := abs_le.mpr ⟨by linarith, by linarith⟩
    dsimp only
    calc
      _ ≤ |score| + |sums.slope * entry.1.contrast * (prior - 1 / 2)| := abs_sub _ _
      _ ≤ 1 / entry.1.least + 1 * (1 / entry.1.least) * (1 / 2) := by
        have hpos := least_pos h.rate
        rw [abs_mul, abs_mul]
        gcongr
        · exact abs_slope_le sums
        · exact abs_contrast_le h.rate
      _ = 1 / entry.1.least + 1 / 2 / entry.1.least := by ring

theorem adjust_bound_pos (h : Randomized entry) (sums : Sums 𝕜) (score : 𝕜) : 0 < (sums.adjust entry score).2 := by
  have hpos := least_pos h.rate
  unfold Sums.adjust
  cases entry.2 with
  | none => exact one_div_pos.mpr hpos
  | some prior =>
    dsimp only
    positivity

variable {scored : 𝕜 × 𝕜} {delta : 𝕜} {direction : Direction} {wager : Wager 𝕜}

theorem bet_mem (wager : Wager 𝕜) {bound : 𝕜} (hpos : 0 < bound) :
    0 ≤ wager.bet bound ∧ wager.bet bound ≤ 1 / 2 / bound :=
  ⟨le_min (by positivity) (le_max_of_le_left (by positivity)), min_le_left _ _⟩

theorem abs_betValue_le (hscored : |scored.1| ≤ scored.2) (delta : 𝕜) (direction : Direction) :
    |betValue delta direction scored.1| ≤ scored.2 + |delta| := by
  unfold betValue
  cases direction with
  | helps => exact (abs_sub _ _).trans (add_le_add_left hscored _)
  | hurts =>
    refine (abs_sub _ _).trans (add_le_add_left ?_ _)
    rw [abs_neg]
    exact hscored

theorem factor_mem (wager : Wager 𝕜) (hscored : |scored.1| ≤ scored.2) (hpos : 0 < scored.2) (delta : 𝕜)
    (direction : Direction) :
    1 / 2 ≤ wager.factor delta direction scored ∧ wager.factor delta direction scored ≤ 3 / 2 := by
  have hbound : 0 < scored.2 + |delta| := add_pos_of_pos_of_nonneg hpos (abs_nonneg _)
  obtain ⟨hnonneg, hle⟩ := bet_mem wager hbound
  have hproduct : |wager.bet (scored.2 + |delta|) * betValue delta direction scored.1| ≤ 1 / 2 := by
    calc
      _ = wager.bet (scored.2 + |delta|) * |betValue delta direction scored.1| :=
        by rw [abs_mul, abs_of_nonneg hnonneg]
      _ ≤ 1 / 2 / (scored.2 + |delta|) * (scored.2 + |delta|) := by
        gcongr
        exact abs_betValue_le hscored delta direction
      _ = 1 / 2 := div_mul_cancel₀ _ hbound.ne'
  obtain ⟨hlow, hhigh⟩ := abs_le.mp hproduct
  unfold Wager.factor
  exact ⟨by linarith, by linarith⟩

/-- The variables of the three loops after some rows. -/
structure Trial (𝕜 : Type) where
  means : Means 𝕜
  sums : Sums 𝕜
  wager : Wager 𝕜

def Trial.start : Trial 𝕜 := ⟨.empty, .empty, .start⟩

/-- The adjusted score of the next row. -/
def Trial.scoreOf (trial : Trial 𝕜) (entry : Entry 𝕜) : 𝕜 × 𝕜 :=
  trial.sums.adjust entry (trial.means.score entry.1)

def Trial.next (functions : Functions 𝕜) (delta : 𝕜) (direction : Direction) (trial : Trial 𝕜) (entry : Entry 𝕜) :
    Trial 𝕜 where
  means := trial.means.add scoreWindow entry.1
  sums := trial.sums.next entry
  wager := trial.wager.next functions delta direction (trial.scoreOf entry)

/-- The scores of rows after a trial. -/
def Trial.scores (trial : Trial 𝕜) (entries : List (Entry 𝕜)) : List (𝕜 × 𝕜) :=
  adjustFrom trial.sums (entries.zip (scoresFrom scoreWindow trial.means (entries.map Prod.fst)))

theorem scores_cons (trial : Trial 𝕜) {entries : List (Entry 𝕜)} (h : Randomized entry) (functions : Functions 𝕜)
    (delta : 𝕜) (direction : Direction) :
    trial.scores (entry :: entries) =
      trial.scoreOf entry :: (trial.next functions delta direction entry).scores entries := by
  rw [Trial.scores, List.map_cons, scoresFrom, if_pos h.rate]
  rfl

/-- The factors that the loop of `_wealth` tests. -/
def factorsFrom (functions : Functions 𝕜) (delta : 𝕜) (direction : Direction) : Wager 𝕜 → List (𝕜 × 𝕜) → List 𝕜
  | _, [] => []
  | wager, scored :: rows =>
    wager.factor delta direction scored ::
      factorsFrom functions delta direction (wager.next functions delta direction scored) rows

variable {trial : Trial 𝕜} {entries : List (Entry 𝕜)} {functions : Functions 𝕜}

theorem Trial.scoreOf_spec (hmeans : trial.means.Sound) (h : Randomized entry) :
    |(trial.scoreOf entry).1| ≤ (trial.scoreOf entry).2 ∧ 0 < (trial.scoreOf entry).2 :=
  ⟨abs_adjust_le h trial.sums (hmeans.abs_score_le h.rate), adjust_bound_pos h trial.sums _⟩

theorem factors_mem (hmeans : trial.means.Sound) (h : ∀ entry ∈ entries, Randomized entry) (functions : Functions 𝕜)
    (delta : 𝕜) (direction : Direction) :
    ∀ factor ∈ factorsFrom functions delta direction trial.wager (trial.scores entries),
      1 / 2 ≤ factor ∧ factor ≤ 3 / 2 := by
  induction entries generalizing trial with
  | nil => exact fun _ hmem ↦ absurd hmem List.not_mem_nil
  | cons entry entries ih =>
    obtain ⟨hentry, hrest⟩ := List.forall_mem_cons.mp h
    obtain ⟨hscored, hpos⟩ := Trial.scoreOf_spec hmeans hentry
    rw [scores_cons trial hentry functions delta direction]
    refine List.forall_mem_cons.mpr ⟨factor_mem trial.wager hscored hpos delta direction, ?_⟩
    exact @ih (trial.next functions delta direction entry) (hmeans.add scoreWindow entry.1) hrest

theorem wealthFrom_scores (hmeans : trial.means.Sound) (h : ∀ entry ∈ entries, Randomized entry)
    (functions : Functions 𝕜) (delta : 𝕜) (direction : Direction) :
    wealthFrom functions delta direction trial.wager (trial.scores entries) =
      .ok (entries.foldl (Trial.next functions delta direction) trial).wager := by
  induction entries generalizing trial with
  | nil => rfl
  | cons entry entries ih =>
    obtain ⟨hentry, hrest⟩ := List.forall_mem_cons.mp h
    obtain ⟨hscored, hpos⟩ := Trial.scoreOf_spec hmeans hentry
    have hfactor := (factor_mem trial.wager hscored hpos delta direction).1
    rw [scores_cons trial hentry functions delta direction]
    refine Py.bind_eq_ok_iff.mpr ⟨(), Py.require_eq_ok_iff.mpr (decide_eq_true ?_), ?_⟩
    · exact lt_of_lt_of_le (by norm_num) hfactor
    · exact @ih (trial.next functions delta direction entry) (hmeans.add scoreWindow entry.1) hrest

/-- Observations with their priors; the priors are used or not. -/
abbrev History (𝕜 : Type) : Type := List (Observation 𝕜 × 𝕜)

def entryOf (used : Bool) (record : Observation 𝕜 × 𝕜) : Entry 𝕜 := (record.1, if used then some record.2 else none)

/-- The argument `prior_success`. -/
def priorsOf (used : Bool) (history : History 𝕜) : Option (List 𝕜) :=
  if used then some (history.map Prod.snd) else none

/-- The rows are randomized and the priors are probabilities. -/
def Valid (history : History 𝕜) : Prop :=
  ∀ record ∈ history, (0 < record.1.rate ∧ record.1.rate < 1) ∧ 0 ≤ record.2 ∧ record.2 ≤ 1

variable {history : History 𝕜}

theorem withPriors_priorsOf (used : Bool) (history : History 𝕜) :
    withPriors (history.map Prod.fst) (priorsOf used history) = history.map (entryOf used) := by
  cases used with
  | false =>
    rw [priorsOf, if_neg Bool.false_ne_true, withPriors, List.map_map]
    rfl
  | true =>
    rw [priorsOf, if_pos rfl, withPriors, List.zipWith_map, List.zipWith_self]
    rfl

theorem Valid.randomized (h : Valid history) (used : Bool) : ∀ entry ∈ history.map (entryOf used),
    Randomized entry := by
  intro entry hentry
  obtain ⟨record, hrecord, rfl⟩ := List.mem_map.mp hentry
  refine ⟨(h record hrecord).1, fun prior hprior ↦ ?_⟩
  cases used with
  | false => cases hprior
  | true =>
    obtain rfl := Option.some.inj hprior
    exact (h record hrecord).2

theorem usable_of_randomized (h : Randomized entry) : entry.1.usable = true := by
  rw [Observation.usable, Bool.not_eq_true', Bool.or_eq_false_iff, decide_eq_false_iff_not, decide_eq_false_iff_not]
  exact ⟨h.rate.1.ne', h.rate.2.ne⟩

theorem checkEntry_of_randomized [ToString 𝕜] (h : Randomized entry) : checkEntry entry = .ok () := by
  refine Py.bind_eq_ok_iff.mpr ⟨entry.1.rate, number_eq_ok_iff.mpr ⟨⟨h.rate.1.le, h.rate.2.le⟩, rfl⟩, ?_⟩
  rw [if_pos (usable_of_randomized h)]
  cases hprior : entry.2 with
  | none => rfl
  | some prior => exact Py.bind_eq_ok_iff.mpr ⟨prior, number_eq_ok_iff.mpr ⟨h.prior prior hprior, rfl⟩, rfl⟩

theorem adjusted_eq [ToString 𝕜] (h : Valid history) (hlength : history.length ≤ maxRows) (used : Bool) :
    adjusted (history.map Prod.fst) (priorsOf used history) =
      .ok (Trial.start.scores (history.map (entryOf used))) := by
  have hrandomized := h.randomized used
  refine Py.bind_eq_ok_iff.mpr ⟨_, count_of_mem _ (Int.natCast_nonneg _) (by simpa using hlength), ?_⟩
  refine Py.bind_eq_ok_iff.mpr ⟨(), Py.require_eq_ok_iff.mpr ?_, ?_⟩
  · cases used with
    | false => rfl
    | true => simp [priorsOf]
  rw [withPriors_priorsOf]
  refine Py.bind_eq_ok_iff.mpr ⟨(), Py.forM_eq_ok_iff.mpr fun entry hentry ↦
    checkEntry_of_randomized (hrandomized entry hentry), ?_⟩
  rw [List.filter_eq_self.mpr fun entry hentry ↦ usable_of_randomized (hrandomized entry hentry)]
  rfl

/-- The trial after a history. -/
def trialOf (functions : Functions 𝕜) (delta : 𝕜) (direction : Direction) (used : Bool) (history : History 𝕜) :
    Trial 𝕜 := (history.map (entryOf used)).foldl (Trial.next functions delta direction) .start

/-- The evidence of a history. -/
def evidenceOf (functions : Functions 𝕜) (delta : 𝕜) (direction : Direction) (used : Bool) (history : History 𝕜) :
    Evidence 𝕜 :=
  (trialOf functions delta direction used history).wager.evidence functions
    (Trial.start.scores (history.map (entryOf used))).length delta direction

theorem process_eq [ToString 𝕜] (functions : Functions 𝕜) (hdelta : -1 ≤ delta ∧ delta ≤ 1) (direction : Direction)
    (used : Bool) (h : Valid history) (hlength : history.length ≤ maxRows) :
    process functions (history.map Prod.fst) delta direction (priorsOf used history) =
      .ok (evidenceOf functions delta direction used history) := by
  refine Py.bind_eq_ok_iff.mpr ⟨delta, number_eq_ok_iff.mpr ⟨hdelta, rfl⟩, ?_⟩
  refine Py.bind_eq_ok_iff.mpr ⟨_, adjusted_eq h hlength used, ?_⟩
  have hwealth : wealthFrom functions delta direction Trial.start.wager
      (Trial.start.scores (history.map (entryOf used))) =
      .ok (trialOf functions delta direction used history).wager :=
    wealthFrom_scores Means.sound_empty (h.randomized used) functions delta direction
  exact Py.bind_eq_ok_iff.mpr ⟨_, hwealth, rfl⟩

theorem trialOf_append_singleton (functions : Functions 𝕜) (delta : 𝕜) (direction : Direction) (used : Bool)
    (history : History 𝕜) (record : Observation 𝕜 × 𝕜) :
    trialOf functions delta direction used (history ++ [record]) =
      (trialOf functions delta direction used history).next functions delta direction (entryOf used record) := by
  rw [trialOf, List.map_append, List.foldl_append]
  rfl

theorem sound_trialOf (functions : Functions 𝕜) (delta : 𝕜) (direction : Direction) (used : Bool)
    (history : History 𝕜) : (trialOf functions delta direction used history).means.Sound := by
  induction history using List.reverseRecOn with
  | nil => exact Means.sound_empty
  | append_singleton history record ih =>
    rw [trialOf_append_singleton]
    exact ih.add scoreWindow _

/-- A task: what it logs, and what happens to it in each arm. -/
structure Occasion (𝕜 : Type) where
  rate : 𝕜
  stratum : String
  prior : 𝕜
  treated : Bool
  control : Bool

/-- What is recorded of a task. -/
def Occasion.record (occasion : Occasion 𝕜) (injected : Bool) : Observation 𝕜 × 𝕜 :=
  (⟨injected, if injected then occasion.treated else occasion.control, occasion.rate, occasion.stratum⟩,
    occasion.prior)

/-- The randomization of a task. -/
def Occasion.fork (occasion : Occasion 𝕜) : Fork (Observation 𝕜 × 𝕜) 𝕜 :=
  ⟨1 - occasion.rate, occasion.record true, occasion.record false⟩

/-- An effect is within the margin of the null. -/
def Direction.Within (delta : 𝕜) : Direction → 𝕜 → Prop
  | .helps, effect => effect ≤ delta
  | .hurts, effect => -delta ≤ effect

/-- A task is randomized, with a prior in `[0, 1]` and an effect within the margin. -/
structure Occasion.Null (delta : 𝕜) (direction : Direction) (occasion : Occasion 𝕜) : Prop where
  rate : 0 < occasion.rate ∧ occasion.rate < 1
  prior : 0 ≤ occasion.prior ∧ occasion.prior ≤ 1
  effect : direction.Within delta (outcome occasion.treated - outcome occasion.control)

variable {occasion : Occasion 𝕜}

theorem bound_record (trial : Trial 𝕜) (used : Bool) (occasion : Occasion 𝕜) :
    (trial.scoreOf (entryOf used (occasion.record true))).2 =
      (trial.scoreOf (entryOf used (occasion.record false))).2 := by
  cases used with
  | true => rfl
  | false => rfl

theorem expected_score (trial : Trial 𝕜) (used : Bool) (hrate : 0 < occasion.rate ∧ occasion.rate < 1) :
    (1 - occasion.rate) * (trial.scoreOf (entryOf used (occasion.record true))).1 +
        occasion.rate * (trial.scoreOf (entryOf used (occasion.record false))).1 =
      outcome occasion.treated - outcome occasion.control := by
  have hr : occasion.rate ≠ 0 := hrate.1.ne'
  have hp : 1 - occasion.rate ≠ 0 := (sub_pos.mpr hrate.2).ne'
  have hscore : (1 - occasion.rate) * trial.means.score (occasion.record true).1 +
      occasion.rate * trial.means.score (occasion.record false).1 =
      outcome occasion.treated - outcome occasion.control := by
    simp only [Means.score, Occasion.record, if_true, Bool.false_eq_true, if_false]
    field_simp
    ring
  cases used with
  | false => exact hscore
  | true =>
    have hcontrast : (1 - occasion.rate) * (occasion.record true).1.contrast +
        occasion.rate * (occasion.record false).1.contrast = 0 := by
      simp only [Observation.contrast, Occasion.record, outcome, if_true, Bool.not_true, Bool.not_false,
        Bool.false_eq_true, if_false]
      field_simp
      ring
    calc
      _ = (1 - occasion.rate) * trial.means.score (occasion.record true).1 +
            occasion.rate * trial.means.score (occasion.record false).1 -
          trial.sums.slope * (occasion.prior - 1 / 2) * ((1 - occasion.rate) * (occasion.record true).1.contrast +
            occasion.rate * (occasion.record false).1.contrast) := by
        simp only [Trial.scoreOf, Sums.adjust, entryOf, if_true]
        change (1 - occasion.rate) * (_ - _ * _ * (occasion.prior - 1 / 2)) +
          occasion.rate * (_ - _ * _ * (occasion.prior - 1 / 2)) = _
        ring
      _ = _ := by rw [hcontrast, mul_zero, sub_zero, hscore]

theorem betValue_combine (delta : 𝕜) (direction : Direction) (rate first second : 𝕜) :
    (1 - rate) * betValue delta direction first + rate * betValue delta direction second =
      betValue delta direction ((1 - rate) * first + rate * second) := by
  cases direction with
  | helps =>
    dsimp only [betValue]
    ring
  | hurts =>
    dsimp only [betValue]
    ring

theorem betValue_nonpos {effect : 𝕜} (h : direction.Within delta effect) : betValue delta direction effect ≤ 0 := by
  cases direction with
  | helps => exact sub_nonpos.mpr h
  | hurts => exact sub_nonpos.mpr (neg_le.mpr h)

theorem expected_factor_le (hmeans : trial.means.Sound) (used : Bool) (h : occasion.Null delta direction) :
    (1 - occasion.rate) * trial.wager.factor delta direction (trial.scoreOf (entryOf used (occasion.record true))) +
        occasion.rate * trial.wager.factor delta direction (trial.scoreOf (entryOf used (occasion.record false))) ≤
      1 := by
  have hrandomized : Randomized (entryOf used (occasion.record false)) := by
    refine ⟨h.rate, fun prior hprior ↦ ?_⟩
    cases used with
    | false => cases hprior
    | true =>
      obtain rfl := Option.some.inj hprior
      exact h.prior
  obtain ⟨-, hpos⟩ := Trial.scoreOf_spec hmeans hrandomized
  unfold Wager.factor
  rw [bound_record]
  set bet := trial.wager.bet ((trial.scoreOf (entryOf used (occasion.record false))).2 + |delta|)
  have hbet : 0 ≤ bet := (bet_mem trial.wager (add_pos_of_pos_of_nonneg hpos (abs_nonneg delta))).1
  have hvalue := betValue_combine delta direction occasion.rate
    (trial.scoreOf (entryOf used (occasion.record true))).1 (trial.scoreOf (entryOf used (occasion.record false))).1
  rw [expected_score trial used h.rate] at hvalue
  calc
    _ = 1 + bet * ((1 - occasion.rate) *
          betValue delta direction (trial.scoreOf (entryOf used (occasion.record true))).1 +
        occasion.rate * betValue delta direction (trial.scoreOf (entryOf used (occasion.record false))).1) := by ring
    _ ≤ 1 := by
      rw [hvalue]
      exact add_le_of_nonpos_right (mul_nonpos_of_nonneg_of_nonpos hbet (betValue_nonpos h.effect))

/-- `math.log1p` and `math.exp` on the real numbers. -/
noncomputable def realFunctions : Functions ℝ := ⟨fun value ↦ Real.log (1 + value), Real.exp⟩

theorem exp_logE_next {trial : Trial ℝ} {entry : Entry ℝ} (hmeans : trial.means.Sound) (h : Randomized entry)
    (delta : ℝ) (direction : Direction) :
    Real.exp (trial.next realFunctions delta direction entry).wager.logE =
      Real.exp trial.wager.logE * trial.wager.factor delta direction (trial.scoreOf entry) := by
  obtain ⟨hscored, hpos⟩ := Trial.scoreOf_spec hmeans h
  have hfactor := (factor_mem trial.wager hscored hpos delta direction).1
  calc
    _ = Real.exp (trial.wager.logE + Real.log (trial.wager.factor delta direction (trial.scoreOf entry))) := rfl
    _ = Real.exp trial.wager.logE *
        Real.exp (Real.log (trial.wager.factor delta direction (trial.scoreOf entry))) := Real.exp_add _ _
    _ = _ := by rw [Real.exp_log (lt_of_lt_of_le (by norm_num) hfactor)]

/-- The wealth of a history, the exponential of `log_e`. -/
noncomputable def wealthOf (delta : ℝ) (direction : Direction) (used : Bool) (history : History ℝ) : ℝ :=
  Real.exp (evidenceOf realFunctions delta direction used history).logEValue

theorem valid_append_record {history : History ℝ} {occasion : Occasion ℝ} {delta : ℝ} {direction : Direction}
    (h : Valid history) (hnull : occasion.Null delta direction) (injected : Bool) :
    Valid (history ++ [occasion.record injected]) :=
  List.forall_mem_append.mpr ⟨h, List.forall_mem_singleton.mpr ⟨hnull.rate, hnull.prior⟩⟩

theorem expected_wealth_le {history : History ℝ} {occasion : Occasion ℝ} {delta : ℝ} {direction : Direction}
    (used : Bool) (h : Valid history) (hnull : occasion.Null delta direction) :
    (1 - occasion.rate) * wealthOf delta direction used (history ++ [occasion.record true]) +
        occasion.rate * wealthOf delta direction used (history ++ [occasion.record false]) ≤
      wealthOf delta direction used history := by
  have hmeans := sound_trialOf realFunctions delta direction used history
  have hnext : ∀ injected : Bool, wealthOf delta direction used (history ++ [occasion.record injected]) =
      wealthOf delta direction used history *
        (trialOf realFunctions delta direction used history).wager.factor delta direction
          ((trialOf realFunctions delta direction used history).scoreOf
            (entryOf used (occasion.record injected))) := by
    intro injected
    have hrandomized : Randomized (entryOf used (occasion.record injected)) :=
      (valid_append_record h hnull injected).randomized used _
        (List.mem_map.mpr ⟨_, List.mem_append_right _ (List.mem_singleton_self _), rfl⟩)
    have hstep := exp_logE_next hmeans hrandomized delta direction
    rw [← trialOf_append_singleton] at hstep
    exact hstep
  have hfactor := expected_factor_le hmeans used hnull
  rw [hnext, hnext]
  calc
    _ = wealthOf delta direction used history * ((1 - occasion.rate) *
          (trialOf realFunctions delta direction used history).wager.factor delta direction
            ((trialOf realFunctions delta direction used history).scoreOf (entryOf used (occasion.record true))) +
        occasion.rate * (trialOf realFunctions delta direction used history).wager.factor delta direction
          ((trialOf realFunctions delta direction used history).scoreOf
            (entryOf used (occasion.record false)))) := by ring
    _ ≤ wealthOf delta direction used history * 1 :=
      mul_le_mul_of_nonneg_left hfactor (Real.exp_pos _).le
    _ = _ := mul_one _

/-- The evidence of `process` is an e-value under the null, and no factor leaves `[1 / 2, 3 / 2]`. -/
theorem betting_evidence_valid [ToString ℝ] (delta : ℝ) (hdelta : -1 ≤ delta ∧ delta ≤ 1) (direction : Direction)
    (used : Bool) :
    (∀ history : History ℝ, Valid history → history.length ≤ maxRows →
      process realFunctions (history.map Prod.fst) delta direction (priorsOf used history) =
        .ok (evidenceOf realFunctions delta direction used history) ∧
      ∀ scored, adjusted (history.map Prod.fst) (priorsOf used history) = .ok scored →
        ∀ factor ∈ factorsFrom realFunctions delta direction .start scored, 1 / 2 ≤ factor ∧ factor ≤ 3 / 2) ∧
    ∀ plan : History ℝ → Occasion ℝ, (∀ history, (plan history).Null delta direction) → ∀ n,
      expectation (fun history ↦ (plan history).fork)
        (fun history ↦ Real.exp (evidenceOf realFunctions delta direction used history).logEValue) n [] ≤ 1 ∧
      expectation (fun history ↦ (plan history).fork)
        (fun history ↦ (evidenceOf realFunctions delta direction used history).eValue) n [] ≤ 1 := by
  refine ⟨fun history h hlength ↦ ⟨process_eq realFunctions hdelta direction used h hlength, fun scored hscored ↦ ?_⟩,
    fun plan hnull n ↦ ?_⟩
  · rw [adjusted_eq h hlength used] at hscored
    obtain rfl := Except.ok.inj hscored
    have hfactors := @factors_mem _ _ _ _ .start _ Means.sound_empty (h.randomized used) realFunctions delta direction
    exact hfactors
  · have hempty : Valid ([] : History ℝ) := fun _ h ↦ absurd h List.not_mem_nil
    have hgrows : Grows (fun history ↦ (plan history).fork) (Valid : History ℝ → Prop) := fun history h ↦
      ⟨⟨(sub_pos.mpr (hnull history).rate.2).le, sub_le_self _ (hnull history).rate.1.le⟩,
        valid_append_record h (hnull history) true, valid_append_record h (hnull history) false⟩
    have hwealth : expectation (fun history ↦ (plan history).fork) (wealthOf delta direction used) n [] ≤ 1 := by
      refine (expectation_le hgrows (fun history h ↦ ?_) n hempty).trans_eq Real.exp_zero
      have hstep := expected_wealth_le used h (hnull history)
      dsimp only [Occasion.fork]
      rw [sub_sub_cancel]
      exact hstep
    refine ⟨hwealth, (expectation_mono hgrows (fun history _ ↦ ?_) n hempty).trans hwealth⟩
    exact Real.exp_le_exp.mpr (min_le_left _ _)

namespace Sample

noncomputable def indifferent : Occasion ℝ := ⟨1 / 2, "", 1 / 2, true, true⟩

theorem null_indifferent : indifferent.Null 0 .helps where
  rate := by norm_num [indifferent]
  prior := by norm_num [indifferent]
  effect := by norm_num [indifferent, Direction.Within]

end Sample

theorem betting_evidence_valid_indifferent :
    expectation (fun _ ↦ Sample.indifferent.fork)
      (fun history ↦ (evidenceOf realFunctions 0 .helps true history).eValue) 2 [] ≤ 1 :=
  ((@betting_evidence_valid ⟨fun _ ↦ "a real number"⟩ 0 (by norm_num) .helps true).2 (fun _ ↦ Sample.indifferent)
    (fun _ ↦ Sample.null_indifferent) 2).2

end UniMem.EProcess
