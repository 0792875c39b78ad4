import UniMem.FrontierProtocol.Arguments
import UniMem.FrontierProtocol.Journal
import UniMem.Library.BinaryFormat
import UniMem.Python.Collections
import UniMem.Python.Hex
import UniMem.TransparencyLog.Tree

/-!
# Plans of effect statements

`cohort` orders the episodes of a study, `cohort_root` commits to them, and `plan` fixes the parameters of a
statement. `_dp_parameters` checks a noise profile against the sensitivity of the estimate.
-/

namespace UniMem.ZkEffect

open Library FrontierProtocol TransparencyLog

/-- What effect statements are hashed with. -/
structure Setting where
  runtime : Runtime
  /-- `hashlib.sha256(message).digest()`. -/
  sha256Digest : Bytes → Bytes
  hexdigest : ∀ message, runtime.sha256 message = hexText (sha256Digest message)
  suite : HashSuite String

/-- `SCALE`. -/
def scale : ℤ := 1_000_000

/-- `MAX_ROWS`. -/
def maxCohort : ℤ := 30_000

/-- `MIN_PROPENSITY`. -/
def minPropensity : ℤ := 50_000

/-- `MAX_I128`. -/
def maxI128 : ℤ := 2 ^ 127 - 1

/-- `QUANTUM`. -/
def quantum : ℤ := 1_000

/-- `LOG_UPPER`: `ln(2/alpha)` and `ln(4/alpha)`, rounded up in millionths. -/
structure LogUpper where
  alpha : ℤ
  single : ℤ
  double : ℤ

/-- `LOG_UPPER`. -/
def logUpper : List LogUpper :=
  [⟨50_000, 3_688_880, 4_382_027⟩, ⟨10_000, 5_298_318, 5_991_465⟩, ⟨1_000, 7_600_903, 8_294_050⟩,
    ⟨1, 14_508_658, 15_201_805⟩]

/-- A fraction of `DP_LOG_UPPER`, with its logarithm rounded up in millionths. -/
structure Fraction where
  numerator : ℕ
  denominator : ℕ
  logUpper : ℤ

/-- `DP_LOG_UPPER`. -/
def dpLogUpper : List Fraction := [⟨3, 5, 510_826⟩, ⟨9, 10, 105_361⟩, ⟨99, 100, 10_051⟩]

/-- `_ceil`. -/
def ceil (numerator denominator : ℤ) : ℤ := -(-numerator / denominator)

/-- `_hex`. -/
def hex (value : Json) : Py String :=
  match value with
  | .str text =>
    if text.length = 64 ∧ ∀ char ∈ text.toList, ('a' ≤ char ∧ char ≤ 'f') ∨ ('0' ≤ char ∧ char ≤ '9') then .ok text
    else .error (.valueError "UniMem proof commitments and seeds require canonical 32-byte hex")
  | _ => .error (.valueError "UniMem proof commitments and seeds require canonical 32-byte hex")

/-- `bytes.fromhex(_hex(value))`. -/
def hexBytes (value : Json) : Py Bytes := do
  match fromHex (← hex value) with
  | some bytes => return bytes
  | none => throw (.valueError "non-hexadecimal number found in fromhex() arg")

/-- The characters of `IDENTITY`. -/
def isIdentity (char : Char) : Bool :=
  ('A' ≤ char && char ≤ 'Z') || ('a' ≤ char && char ≤ 'z') || ('0' ≤ char && char ≤ '9') ||
    "_.:/-".toList.contains char

/-- `_id`. -/
def identity (value : Json) : Py String :=
  match value with
  | .str text =>
    if 1 ≤ text.length ∧ text.length ≤ 128 ∧ text.toList.all isIdentity then .ok text
    else .error (.valueError "UniMem proof episode IDs require 1..128 printable ASCII identifier bytes")
  | _ => .error (.valueError "UniMem proof episode IDs require 1..128 printable ASCII identifier bytes")

/-- `_i128`. -/
def i128 (value : ℤ) : Py ℤ :=
  if maxI128 < |value| then .error (.valueError "UniMem proof arithmetic exceeds signed 128-bit bounds")
  else .ok value

/-- `_identifier` on an identifier that was checked. -/
def identifier (episode : String) : Bytes := littleEndian 2 (Json.utf8 episode).length ++ Json.utf8 episode

/-- One row of a cohort. -/
structure Entry where
  episode : String
  propensity : ℤ
  deriving DecidableEq

/-- The dictionary of a row. -/
def Entry.fields (entry : Entry) : Row := [("episode", .str entry.episode), ("propensity", .int entry.propensity)]

/-- The checks of `cohort` on one row. -/
def cohortEntry (entry : Row) : Py Entry := do
  Py.require (keysAre entry ["episode", "propensity"])
    (.valueError "UniMem proof cohort requires episode and integer propensity")
  let episode ← identity (← field entry "episode")
  let propensity ← countArgument (← field entry "propensity") minPropensity (scale - minPropensity) "count"
  return ⟨episode, propensity⟩

/-- `cohort`. -/
def cohort (entries : List Row) : Py (List Entry) := do
  let _ ← count entries.length 2 maxCohort "proof cohort; larger studies require a chunked provider"
  let found ← Py.collect (Py.always cohortEntry) entries
  let result := sortBy Entry.episode found
  Py.require (result.map Entry.episode).Nodup (.valueError "UniMem proof cohort episodes must be distinct")
  return result

/-- `cohort_root`. -/
def cohortRoot (setting : Setting) (entries : List Row) : Py String := do
  let selected ← cohort entries
  treeHash setting.suite (selected.map fun row ↦
    setting.runtime.sha256 (2 :: identifier row.episode ++ littleEndian 4 row.propensity.toNat))

/-- What a statement is about. -/
inductive Kind where
  | effect
  | harm
  deriving DecidableEq

def Kind.text : Kind → String
  | .effect => "effect"
  | .harm => "harm"

/-- A plan. -/
structure Plan where
  study : String
  count : ℤ
  cohortRoot : String
  propensityMin : ℤ
  alpha : ℤ
  kind : Kind
  harmLimit : Option ℤ
  commitmentKey : String
  dp : Json

/-- A value that may be `None`. -/
def optional {α : Type} (write : α → Json) (value : Option α) : Json := (value.map write).getD .null

/-- The dictionary that `plan` returns. -/
def Plan.fields (plan : Plan) : Row :=
  [("schema", .str "unimem.effect-plan.v1"), ("study", .str plan.study), ("scale", .int scale),
    ("count", .int plan.count), ("cohort_root", .str plan.cohortRoot), ("propensity_min", .int plan.propensityMin),
    ("alpha_ppm", .int plan.alpha), ("kind", .str plan.kind.text),
    ("harm_limit_ppm", optional .int plan.harmLimit), ("commitment_key", .str plan.commitmentKey), ("dp", plan.dp)]

/-- The bound on the change of the estimate by one outcome that `_dp_parameters` uses. -/
def sensitivity (plan : Plan) : ℤ :=
  match plan.kind with
  | .harm => ceil scale plan.count + 1
  | .effect => ceil (scale * scale) (plan.count * plan.propensityMin) + 2

/-- The last index of the grid of released values. -/
def maximum (plan : Plan) : ℤ :=
  match plan.kind with
  | .harm => scale / quantum
  | .effect => 2 * scale / quantum

/-- The sensitivity in steps of the grid. -/
def buckets (plan : Plan) : ℤ := min (maximum plan) (ceil (sensitivity plan) quantum)

/-- What `_dp_parameters` returns. -/
structure NoiseParameters where
  fraction : Fraction
  epsilon : ℤ

/-- The pinned profile with a numerator and a denominator. -/
def supportedFraction (numerator denominator : Json) : Option Fraction :=
  match numerator, denominator with
  | .int numerator, .int denominator =>
    dpLogUpper.find? fun fraction ↦ numerator = fraction.numerator ∧ denominator = fraction.denominator
  | _, _ => none

/-- `_dp_parameters`. -/
def dpParameters (plan : Plan) : Py NoiseParameters := do
  match plan.dp with
  | .obj dp =>
    Py.require (keysAre dp ["numerator", "denominator", "noise_key"])
      (.valueError "UniMem proof noise profile has unknown or missing fields")
    match supportedFraction (← field dp "numerator") (← field dp "denominator") with
    | none => throw (.valueError "UniMem proof noise supports only the pinned finite-grid exponential profiles")
    | some fraction =>
      let _ ← hex (← field dp "noise_key")
      let epsilon := 2 * buckets plan * fraction.logUpper
      Py.require (epsilon ≤ 20 * scale)
        (.valueError "UniMem noise profile needs more observations or a stronger noise fraction")
      return ⟨fraction, epsilon⟩
  | _ => throw (.valueError "UniMem proof noise profile has unknown or missing fields")

def unsupportedKind : PyError :=
  .valueError "UniMem proof supports effect/harm with alpha .05, .01, .001 or .000001"

/-- The checks of `plan` on the level and the kind. -/
def planKind (alpha kind : Json) : Py (ℤ × Kind) := do
  match alpha with
  | .int level =>
    Py.require (level ∈ logUpper.map LogUpper.alpha) unsupportedKind
    match kind with
    | .str "effect" => return (level, .effect)
    | .str "harm" => return (level, .harm)
    | .arr _ => throw (.typeError "unhashable type: 'list'")
    | .obj _ => throw (.typeError "unhashable type: 'dict'")
    | _ => throw unsupportedKind
  | _ => throw unsupportedKind

/-- The check of `plan` on the harm limit. -/
def planLimit (kind : Kind) (limit : Json) : Py (Option ℤ) :=
  match kind, limit with
  | .harm, .null => .error (.valueError "UniMem a harm statement needs a precommitted harm limit")
  | .harm, limit => some <$> countArgument limit 0 scale "precommitted harm limit"
  | .effect, .null => .ok none
  | .effect, _ => .error (.valueError "UniMem harm limits apply only to harm statements")

/-- The smallest probability of an arm in a cohort. -/
def propensityMin (selected : List Entry) : Py ℤ :=
  match (selected.map fun row ↦ min row.propensity (scale - row.propensity)).min? with
  | some least => .ok least
  | none => .error (.valueError "min() arg is an empty sequence")

/-- The arguments of `plan` besides the cohort. -/
structure PlanArguments where
  study : Json
  commitmentKey : Json
  alpha : Json
  kind : Json
  harmLimit : Json
  dp : Json

/-- `plan`. -/
def plan (setting : Setting) (entries : List Row) (arguments : PlanArguments) : Py Plan := do
  let selected ← cohort entries
  let (alpha, kind) ← planKind arguments.alpha arguments.kind
  let harmLimit ← planLimit kind arguments.harmLimit
  let study ← identity arguments.study
  let root ← cohortRoot setting (selected.map Entry.fields)
  let least ← propensityMin selected
  let commitmentKey ← hex arguments.commitmentKey
  let result : Plan := ⟨study, selected.length, root, least, alpha, kind, harmLimit, commitmentKey, arguments.dp⟩
  match arguments.dp with
  | .null => return result
  | _ => do
    let _ ← dpParameters result
    return result

end UniMem.ZkEffect
