import UniMem.Library.Tickets
import UniMem.ZkEffect.Witnesses

/-!
# Effect statements

`statement` bounds the floor of the mean of fixed-point scores by a radius. With a noise profile the mean is
replaced by a value of a finite grid that is selected by weights.
-/

namespace UniMem.ZkEffect

open Library FrontierProtocol TransparencyLog

/-- `_sqrt_ceil`. -/
def sqrtCeil (value : ℤ) : ℤ :=
  let root := value.toNat.sqrt
  root + if root * root = value.toNat then 0 else 1

/-- The width of the range of one score. -/
def scoreWidth (plan : Plan) : ℤ :=
  match plan.kind with
  | .harm => scale
  | .effect => ceil (scale * scale) plan.propensityMin + ceil (scale * scale) (scale - plan.propensityMin)

/-- `_radius`. -/
def radius (plan : Plan) (dp : Bool) : Py ℤ := do
  match logUpper.find? fun entry ↦ entry.alpha = plan.alpha with
  | none => throw (.keyError "alpha_ppm")
  | some entry =>
    let width := scoreWidth plan
    let numerator ← i128 (width * width * if dp then entry.double else entry.single)
    return sqrtCeil (ceil numerator (2 * plan.count * scale))

/-- The lowest value of an estimate. -/
def lowest (plan : Plan) : ℤ :=
  match plan.kind with
  | .harm => 0
  | .effect => -scale

/-- `maximum` of `_noise`. -/
def gridMaximum (plan : Plan) : ℤ := (scale - lowest plan) / quantum

/-- `center` of `_noise`. -/
def center (plan : Plan) (value : ℤ) : ℤ := (max (lowest plan) (min scale value) - lowest plan) / quantum

/-- The weight of one index of the grid. -/
def weight (plan : Plan) (fraction : Fraction) (value : ℤ) (index : ℕ) : ℕ :=
  fraction.numerator ^ ((index : ℤ) - center plan value).natAbs *
    fraction.denominator ^ ((gridMaximum plan).toNat - ((index : ℤ) - center plan value).natAbs)

/-- `weights` of `_noise`. -/
def weights (plan : Plan) (fraction : Fraction) (value : ℤ) : List ℕ :=
  (List.range ((gridMaximum plan).toNat + 1)).map (weight plan fraction value)

/-- `DP_RANDOM_BITS`. -/
def dpRandomBits : ℕ := 14_256

/-- The selection loop of `_noise`. -/
def selected (weights : List ℕ) (draw : ℕ) : ℕ := Tickets.select 0 weights 0 draw

/-- `tail` of `_noise`. -/
def tailDistance (plan : Plan) (fraction : Fraction) : ℤ :=
  let maximum := (gridMaximum plan).toNat
  (((List.range maximum).find? fun distance ↦
    8 * scale * (fraction.numerator : ℤ) ^ (distance + 1) * fraction.denominator ≤
      plan.alpha * ((fraction.denominator : ℤ) - fraction.numerator) * (fraction.denominator : ℤ) ^
        (distance + 1)).getD maximum : ℕ)

/-- What `_noise` returns. -/
structure Release where
  value : ℤ
  radius : ℤ
  epsilon : ℤ

/-- `_noise`. -/
def noise (setting : Setting) (plan : Plan) (value : ℤ) (seed : Json) : Py Release := do
  let parameters ← dpParameters plan
  let weights := weights plan parameters.fraction value
  let total := weights.sum
  Py.require (bitLength total ≤ 14_000)
    (.valueError "UniMem finite noise weights exceed their documented 14000-bit bound")
  let bytes ← hexBytes seed
  let planHash ← digest setting.runtime (.obj plan.fields)
  let committed ← hexBytes (.str planHash)
  let stem := Json.utf8 "unimem-effect-dp-draw-v1" ++ 0 :: bytes ++ committed
  let raw := (List.range (ceil dpRandomBits 256).toNat).flatMap fun index ↦
    setting.sha256Digest (stem ++ littleEndian 4 index)
  let draw := fromBigEndian raw % 2 ^ dpRandomBits % total
  return ⟨lowest plan + selected weights draw * quantum, tailDistance plan parameters.fraction * quantum + quantum,
    parameters.epsilon⟩

/-- What the loop of `statement` adds up. -/
structure Sums where
  treated : ℤ := 0
  control : ℤ := 0
  treatedWeight : ℤ := 0
  controlWeight : ℤ := 0
  scores : List ℤ := []

/-- One turn of the loop of `statement`. -/
def accumulate (kind : Kind) (sums : Sums) (row : Observation) : Sums :=
  match kind with
  | .harm => { sums with scores := sums.scores ++ [row.outcome] }
  | .effect =>
    if row.assigned then
      let score := row.outcome * scale / row.propensity
      { sums with
        treated := sums.treated + score
        treatedWeight := sums.treatedWeight + scale * scale / row.propensity
        scores := sums.scores ++ [score] }
    else
      let score := row.outcome * scale / (scale - row.propensity)
      { sums with
        control := sums.control + score
        controlWeight := sums.controlWeight + scale * scale / (scale - row.propensity)
        scores := sums.scores ++ [-score] }

/-- The sums after all rows. -/
def sumsOf (kind : Kind) (rows : List Observation) : Sums := rows.foldl (accumulate kind) {}

/-- The estimate before any noise. -/
def estimate (kind : Kind) (rows : List Observation) : Py ℤ := do
  let total ← i128 (sumsOf kind rows).scores.sum
  return total / rows.length

/-- The Hajek contrast, when both arms have a weight. -/
def hajek (kind : Kind) (rows : List Observation) : Option ℤ :=
  let sums := sumsOf kind rows
  if sums.treatedWeight ≠ 0 ∧ sums.controlWeight ≠ 0 then
    some (scale * sums.treated / sums.treatedWeight - scale * sums.control / sums.controlWeight)
  else none

/-- The noise that a statement declares. -/
structure NoiseProfile where
  epsilonUpper : ℤ

/-- What a statement releases about its estimate. -/
structure Published where
  estimate : ℤ
  radius : ℤ
  hajek : Option ℤ
  noise : Option NoiseProfile

/-- The part of `statement` that adds noise when the plan asks for it. -/
def publish (setting : Setting) (plan : Plan) (value : ℤ) (ratio : Option ℤ) (seed : Json) : Py Published := do
  let exactRadius ← radius plan false
  match plan.dp with
  | .null => return ⟨value, exactRadius, ratio, none⟩
  | _ =>
    let release ← noise setting plan value seed
    let noisyRadius ← radius plan true
    return ⟨release.value, noisyRadius + release.radius, none, some ⟨release.epsilon⟩⟩

/-- A statement. -/
structure Statement where
  planHash : String
  challengeHash : String
  rowsRoot : String
  count : ℤ
  kind : Kind
  alpha : ℤ
  estimate : ℤ
  hajek : Option ℤ
  hajekRoundingError : Option ℤ
  lower : ℤ
  upper : ℤ
  roundingError : ℤ
  harmLimit : Option ℤ
  harmClaim : Option Bool
  noise : Option NoiseProfile

/-- `max(low, min(SCALE, value))`. -/
def clamp (plan : Plan) (value : ℤ) : ℤ := max (lowest plan) (min scale value)

/-- `rounding` of `statement`. -/
def rounding : Kind → ℤ
  | .harm => 1
  | .effect => 2

/-- What `statement` returns. -/
def report (plan : Plan) (published : Published) (count : ℕ) (rowsRoot planHash challengeHash : String) :
    Statement :=
  let rounding := rounding plan.kind
  let lower := clamp plan (published.estimate - published.radius - rounding)
  let upper := clamp plan (published.estimate + published.radius + rounding)
  { planHash, challengeHash, rowsRoot, count, kind := plan.kind, alpha := plan.alpha
    estimate := published.estimate, hajek := published.hajek, hajekRoundingError := published.hajek.map fun _ ↦ 6
    lower, upper, roundingError := rounding, harmLimit := plan.harmLimit
    harmClaim := if plan.kind = .harm then plan.harmLimit.map fun limit ↦ decide (upper ≤ limit) else none
    noise := published.noise }

/-- `statement`. -/
def statement (setting : Setting) (witness : Row) : Py Statement := do
  let (registered, rows, root) ← rows setting witness
  let value ← estimate registered.kind rows
  let noiseSeed ← field witness "noise_seed"
  let published ← publish setting registered value (hajek registered.kind rows) noiseSeed
  let planHash ← digest setting.runtime (.obj registered.fields)
  let challengeHash ← digest setting.runtime (← field witness "challenge")
  return report registered published rows.length root planHash challengeHash

/-- The dictionary of a noise profile. -/
def NoiseProfile.fields (profile : NoiseProfile) : Row :=
  [("mechanism", .str "finite-grid exponential"), ("epsilon_upper_ppm", .int profile.epsilonUpper),
    ("delta_upper_power_of_two", .int (-224)), ("quantum_ppm", .int quantum), ("conditions", .str
      "secret independent seeds, cryptographic hiding/PRG assumptions and one release")]

/-- The dictionary of a statement. -/
def Statement.fields (result : Statement) : Row :=
  [("schema", .str "unimem.effect-statement.v1"), ("plan_hash", .str result.planHash),
    ("challenge_hash", .str result.challengeHash), ("rows_root", .str result.rowsRoot), ("count", .int result.count),
    ("kind", .str result.kind.text), ("scale", .int scale), ("alpha_ppm", .int result.alpha),
    ("estimate_ppm", .int result.estimate), ("hajek_ppm", optional .int result.hajek),
    ("hajek_rounding_error_ppm", optional .int result.hajekRoundingError), ("lower_ppm", .int result.lower),
    ("upper_ppm", .int result.upper), ("rounding_error_ppm", .int result.roundingError),
    ("confidence", .str "bounded fixed-cohort Hoeffding; assignment and sampling assumptions required"),
    ("harm_limit_ppm", optional .int result.harmLimit), ("harm_claim", optional .bool result.harmClaim),
    ("noise", optional (fun profile ↦ .obj profile.fields) result.noise), ("execution_attested", .bool false)]

end UniMem.ZkEffect
