import UniMem.EProcess.Thresholds
import UniMem.Library.AssignmentTree

/-!
# Betting evidence

`aipw_scores` turns randomized observations into pseudo-outcomes, `_adjusted` removes what a prior predicts, and
`_wealth` bets on the sign of the effect. Arithmetic is exact.
-/

set_option linter.unusedSectionVars false

namespace UniMem.EProcess

open Library FrontierProtocol

attribute [local instance] atLeastTwo_two atLeastTwo_ten

variable {𝕜 : Type} [Field 𝕜] [LinearOrder 𝕜] [IsStrictOrderedRing 𝕜]

/-- `aipw.Observation`. -/
structure Observation (𝕜 : Type) where
  injected : Bool
  succeeded : Bool
  /-- The probability of being withheld, as logged. -/
  rate : 𝕜
  stratum : String

/-- `1.0 if o.succeeded else 0.0`. -/
def outcome (succeeded : Bool) : 𝕜 := if succeeded then 1 else 0

/-- `_RunningMean`: the last outcomes, oldest first, and their sum. -/
structure RunningMean (𝕜 : Type) where
  values : List 𝕜
  total : 𝕜

def RunningMean.empty : RunningMean 𝕜 := ⟨[], 0⟩

/-- `_RunningMean.get`. -/
def RunningMean.get (mean : RunningMean 𝕜) (fallback : Option 𝕜) : 𝕜 :=
  (mean.total + 2 * fallback.getD (1 / 2)) / (mean.values.length + 2)

/-- `_RunningMean.add`. -/
def RunningMean.add (window : ℕ) (mean : RunningMean 𝕜) (value : 𝕜) : RunningMean 𝕜 :=
  if mean.values.length = window then ⟨mean.values.tail ++ [value], mean.total - mean.values.headD 0 + value⟩
  else ⟨mean.values ++ [value], mean.total + value⟩

/-- `WINDOW`. -/
def scoreWindow : ℕ := 400

/-- `pooled` and `by_stratum`. -/
structure Means (𝕜 : Type) where
  pooled : Bool → RunningMean 𝕜
  byStratum : List ((String × Bool) × RunningMean 𝕜)

def Means.empty : Means 𝕜 := ⟨fun _ ↦ .empty, []⟩

/-- The mean of an arm: that of the stratum, when it has one. -/
def Means.mean (means : Means 𝕜) (stratum : String) (arm : Bool) : 𝕜 :=
  match means.byStratum.lookup (stratum, arm) with
  | some mean => mean.get (some ((means.pooled arm).get none))
  | none => (means.pooled arm).get none

/-- The score of an observation. -/
def Means.score (means : Means 𝕜) (row : Observation 𝕜) : 𝕜 :=
  if row.injected then
    means.mean row.stratum true - means.mean row.stratum false +
      (outcome row.succeeded - means.mean row.stratum true) / (1 - row.rate)
  else
    means.mean row.stratum true - means.mean row.stratum false -
      (outcome row.succeeded - means.mean row.stratum false) / row.rate

/-- The means after an observation. -/
def Means.add (window : ℕ) (means : Means 𝕜) (row : Observation 𝕜) : Means 𝕜 where
  pooled := Function.update means.pooled row.injected
    ((means.pooled row.injected).add window (outcome row.succeeded))
  byStratum :=
    if row.stratum = "" then means.byStratum
    else assign (row.stratum, row.injected)
      (((means.byStratum.lookup (row.stratum, row.injected)).getD .empty).add window (outcome row.succeeded))
      means.byStratum

/-- The loop of `aipw_scores`. -/
def scoresFrom (window : ℕ) : Means 𝕜 → List (Observation 𝕜) → List 𝕜
  | _, [] => []
  | means, row :: rows =>
    if 0 < row.rate ∧ row.rate < 1 then means.score row :: scoresFrom window (means.add window row) rows
    else scoresFrom window means rows

/-- `aipw_scores`. -/
def aipwScores (observations : List (Observation 𝕜)) (window : ℕ) : List 𝕜 := scoresFrom window .empty observations

/-- An observation with its prior, when there are priors. -/
abbrev Entry (𝕜 : Type) : Type := Observation 𝕜 × Option 𝕜

/-- The sums over the preceding rows. -/
structure Sums (𝕜 : Type) where
  n : 𝕜
  sb : 𝕜
  sy : 𝕜
  sbb : 𝕜
  sby : 𝕜

def Sums.empty : Sums 𝕜 := ⟨0, 0, 0, 0, 0⟩

/-- The clipped slope of the outcome on the prior. -/
def Sums.slope (sums : Sums 𝕜) : 𝕜 :=
  let variance := if sums.n = 0 then 0 else sums.sbb - sums.sb * sums.sb / sums.n
  let slope :=
    if 10 ≤ sums.n ∧ 1 / 10 ^ 9 < variance then (sums.sby - sums.sb * sums.sy / sums.n) / variance else 0
  max (-1) (min 1 slope)

def Sums.add (sums : Sums 𝕜) (prior outcome : 𝕜) : Sums 𝕜 :=
  ⟨sums.n + 1, sums.sb + prior, sums.sy + outcome, sums.sbb + prior * prior, sums.sby + prior * outcome⟩

/-- The probability that a design divides by, at least. -/
def Observation.least (row : Observation 𝕜) : 𝕜 := min (1 - row.rate) row.rate

/-- The multiplier of the control variate. -/
def Observation.contrast (row : Observation 𝕜) : 𝕜 :=
  outcome row.injected / (1 - row.rate) - outcome (!row.injected) / row.rate

/-- The adjusted score of a row with its bound. -/
def Sums.adjust (sums : Sums 𝕜) (entry : Entry 𝕜) (score : 𝕜) : 𝕜 × 𝕜 :=
  match entry.2 with
  | none => (score, 1 / entry.1.least)
  | some prior =>
    (score - sums.slope * entry.1.contrast * (prior - 1 / 2), 1 / entry.1.least + 1 / 2 / entry.1.least)

/-- The sums after a row. -/
def Sums.next (sums : Sums 𝕜) (entry : Entry 𝕜) : Sums 𝕜 :=
  match entry.2 with
  | none => sums
  | some prior => sums.add prior (outcome entry.1.succeeded)

/-- The second loop of `_adjusted`. -/
def adjustFrom : Sums 𝕜 → List (Entry 𝕜 × 𝕜) → List (𝕜 × 𝕜)
  | _, [] => []
  | sums, (entry, score) :: rows => sums.adjust entry score :: adjustFrom (sums.next entry) rows

/-- The observations with their priors. -/
def withPriors (observations : List (Observation 𝕜)) (priorSuccess : Option (List 𝕜)) : List (Entry 𝕜) :=
  match priorSuccess with
  | none => observations.map fun row ↦ (row, none)
  | some priors => observations.zipWith (fun row prior ↦ (row, some prior)) priors

/-- Whether the first loop of `_adjusted` keeps a row. -/
def Observation.usable (row : Observation 𝕜) : Bool := !(row.rate = 0 || row.rate = 1)

/-- The checks of the first loop of `_adjusted` on a row. -/
def checkEntry [ToString 𝕜] (entry : Entry 𝕜) : Py Unit := do
  let _ ← number entry.1.rate 0 1 "logged holdout propensity"
  if entry.1.usable then
    match entry.2 with
    | none => return ()
    | some prior => do
      let _ ← number prior 0 1 "pre-treatment prior"
  else return ()

/-- `_adjusted`: the scores with their bounds. -/
def adjusted [ToString 𝕜] (observations : List (Observation 𝕜)) (priorSuccess : Option (List 𝕜)) :
    Py (List (𝕜 × 𝕜)) := do
  let _ ← count observations.length 0 maxRows "count"
  Py.require (priorSuccess.all fun priors ↦ priors.length = observations.length)
    (.valueError "one pre-treatment prior required per observation")
  (withPriors observations priorSuccess).forM checkEntry
  let usable := (withPriors observations priorSuccess).filter fun entry ↦ entry.1.usable
  return adjustFrom .empty (usable.zip (aipwScores (usable.map Prod.fst) scoreWindow))

/-- `math.log1p` and `math.exp`. -/
structure Functions (𝕜 : Type) where
  log1p : 𝕜 → 𝕜
  exp : 𝕜 → 𝕜

inductive Direction where
  | helps
  | hurts
  deriving DecidableEq

/-- The variables of the loop of `_wealth`. -/
structure Wager (𝕜 : Type) where
  total : 𝕜
  squares : 𝕜
  logE : 𝕜
  peak : 𝕜

def Wager.start : Wager 𝕜 := ⟨0, 1, 0, 1⟩

/-- The value that is bet on. -/
def betValue (delta : 𝕜) (direction : Direction) (score : 𝕜) : 𝕜 :=
  (match direction with
    | .helps => score
    | .hurts => -score) - delta

/-- The bet, from what precedes the outcome. -/
def Wager.bet (wager : Wager 𝕜) (bound : 𝕜) : 𝕜 :=
  min (1 / 2 / bound) (max (1 / 50 / bound) (wager.total / wager.squares))

/-- The factor of a score with its bound. -/
def Wager.factor (wager : Wager 𝕜) (delta : 𝕜) (direction : Direction) (scored : 𝕜 × 𝕜) : 𝕜 :=
  1 + wager.bet (scored.2 + |delta|) * betValue delta direction scored.1

/-- The loop variables after a score. -/
def Wager.next (functions : Functions 𝕜) (wager : Wager 𝕜) (delta : 𝕜) (direction : Direction) (scored : 𝕜 × 𝕜) :
    Wager 𝕜 :=
  let value := betValue delta direction scored.1
  let logE := wager.logE + functions.log1p (wager.bet (scored.2 + |delta|) * value)
  ⟨wager.total + value, wager.squares + value * value, logE, max wager.peak (functions.exp (min logE 690))⟩

/-- The loop of `_wealth`. A factor of the field is finite. -/
def wealthFrom (functions : Functions 𝕜) (delta : 𝕜) (direction : Direction) :
    Wager 𝕜 → List (𝕜 × 𝕜) → Py (Wager 𝕜)
  | wager, [] => return wager
  | wager, scored :: rows => do
    Py.require (0 < wager.factor delta direction scored)
      (.valueError "score violates predictable betting bounds")
    wealthFrom functions delta direction (wager.next functions delta direction scored) rows

/-- `Evidence`. -/
structure Evidence (𝕜 : Type) where
  eValue : 𝕜
  logEValue : 𝕜
  maximum : 𝕜
  n : ℕ
  direction : Direction
  delta : 𝕜

/-- The evidence after the loop. -/
def Wager.evidence (functions : Functions 𝕜) (wager : Wager 𝕜) (n : ℕ) (delta : 𝕜) (direction : Direction) :
    Evidence 𝕜 :=
  ⟨functions.exp (min wager.logE 690), wager.logE, wager.peak, n, direction, delta⟩

/-- `_wealth`. -/
def wealth (functions : Functions 𝕜) (scored : List (𝕜 × 𝕜)) (delta : 𝕜) (direction : Direction) :
    Py (Evidence 𝕜) := do
  let wager ← wealthFrom functions delta direction .start scored
  return wager.evidence functions scored.length delta direction

/-- `process`. -/
def process [ToString 𝕜] (functions : Functions 𝕜) (observations : List (Observation 𝕜)) (delta : 𝕜)
    (direction : Direction) (priorSuccess : Option (List 𝕜)) : Py (Evidence 𝕜) := do
  let _ ← number delta (-1) 1 "null margin"
  let scored ← adjusted observations priorSuccess
  wealth functions scored delta direction

end UniMem.EProcess
