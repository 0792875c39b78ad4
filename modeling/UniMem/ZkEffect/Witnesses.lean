import UniMem.Origin
import UniMem.ZkEffect.Plans

/-!
# Witnesses of effect statements

`assignment` derives the arm of an episode from a nonce of the verifier, and `_rows` accepts a witness when its rows
are the whole cohort of its plan, every arm is the derived one, and the secret seeds are the committed ones.
-/

namespace UniMem.ZkEffect

open Library FrontierProtocol TransparencyLog

variable (setting : Setting)

/-- `seed_key`. -/
def seedKey (seed : Json) (noise : Bool) : Py String := do
  let bytes ← hexBytes seed
  let label := if noise then "unimem-effect-noise-v1" else "unimem-effect-hiding-v1"
  return setting.runtime.sha256 (Json.utf8 label ++ 0 :: bytes)

/-- `challenge`. -/
def challenge (plan : Row) (nonce : Json) : Py Row := do
  let planHash ← digest setting.runtime (.obj plan)
  let checked ← hex nonce
  return [("plan_hash", .str planHash), ("nonce", .str checked)]

/-- `int.from_bytes(bytes, "big")`. -/
def fromBigEndian (bytes : Bytes) : ℕ := fromLittleEndian bytes.reverse

/-- The number of attempts of `assignment`. -/
def attempts : ℕ := 16

/-- Below them the multiples of `SCALE` are complete. -/
def acceptedBelow : ℕ := 2 ^ 256 / scale.toNat * scale.toNat

/-- The loop of `assignment`. -/
def draw (stem : Bytes) (propensity : ℤ) : Option Bool :=
  (List.range attempts).findSome? fun counter ↦
    let value := fromBigEndian (setting.sha256Digest (stem ++ littleEndian 4 counter))
    if value < acceptedBelow then some (decide ((value : ℤ) % scale < propensity)) else none

/-- A value that must be a dictionary. -/
def mapping (value : Json) : Py Row :=
  match value with
  | .obj fields => .ok fields
  | _ => .error (.typeError "expected a mapping")

/-- `assignment`. -/
def assignment (plan challenge : Row) (episode : Json) (propensity : Json) : Py Bool := do
  let planHash ← digest setting.runtime (.obj plan)
  Py.require (keysAre challenge ["plan_hash", "nonce"] && Origin.isText (challenge.lookup "plan_hash") planHash)
    (.valueError "UniMem verifier challenge is for another complete cohort")
  let probability ← countArgument propensity minPropensity (scale - minPropensity) "count"
  let nonce ← hexBytes (← field challenge "nonce")
  let committed ← hexBytes (.str planHash)
  let name ← identity episode
  let stem := Json.utf8 "unimem-effect-assignment-v1" ++ 0 :: nonce ++ committed ++ identifier name
  match draw setting stem probability with
  | some assigned => return assigned
  | none => throw (.valueError "UniMem assignment rejection bound reached; no outcome may be recorded")

/-- A row that was checked. -/
structure Observation where
  episode : String
  propensity : ℤ
  assigned : Bool
  outcome : ℤ
  deriving DecidableEq

/-- `{"episode": row["episode"], "propensity": row["propensity"]}`. -/
def cohortFields (row : Json) : Py Row := do
  let fields ← mapping row
  return [("episode", ← field fields "episode"), ("propensity", ← field fields "propensity")]

/-- `row["episode"]` of a row whose episode was checked. -/
def episodeOf (row : Row) : String :=
  match row.lookup "episode" with
  | some (.str text) => text
  | _ => ""

def exactFields : PyError :=
  .valueError "UniMem proof rows require exact episode, propensity, assignment and integer outcome"

/-- The assignment of a row, which must be a Boolean. -/
def assignedOf (row : Row) : Py Bool :=
  match row.lookup "assigned" with
  | some (.bool assigned) => .ok assigned
  | _ => .error exactFields

/-- The bytes of a row under its position, without the seed. -/
def encodeRow (index : ℕ) (row : Observation) : Bytes :=
  littleEndian 4 index ++ identifier row.episode ++ [if row.assigned then 1 else 0] ++
    littleEndian 4 row.propensity.toNat ++ littleEndian 4 row.outcome.toNat

/-- One turn of the loop of `_rows` without the leaf. -/
def observe (plan challenge row : Row) : Py Observation := do
  Py.require (keysAre row ["episode", "propensity", "assigned", "outcome"]) exactFields
  let assigned ← assignedOf row
  let outcome ← countArgument (← field row "outcome") 0 scale "fixed-point outcome"
  let expected ← assignment setting plan challenge (← field row "episode") (← field row "propensity")
  Py.require (assigned = expected) (.valueError "UniMem proof assignment differs from the verifier nonce")
  let episode ← identity (← field row "episode")
  let propensity ← countArgument (← field row "propensity") minPropensity (scale - minPropensity) "count"
  return ⟨episode, propensity, assigned, outcome⟩

/-- The leaf of a row. -/
def leaf (seed : Bytes) (index : ℕ) (row : Observation) : String :=
  setting.runtime.sha256 (0 :: seed ++ encodeRow index row)

/-- The arguments of `plan` in a submitted plan. -/
def argumentsOf (submitted : Row) : Py PlanArguments := do
  return { study := ← field submitted "study", commitmentKey := ← field submitted "commitment_key",
           alpha := ← field submitted "alpha_ppm", kind := ← field submitted "kind",
           harmLimit := ← field submitted "harm_limit_ppm", dp := ← field submitted "dp" }

/-- The check of `_rows` on the noise seed. -/
def checkNoiseSeed (dp seed : Json) : Py Unit := do
  match dp with
  | .null =>
    match seed with
    | .null => return ()
    | _ => throw (.valueError "UniMem unexpected private noise witness")
  | _ =>
    let key ← seedKey setting seed true
    let profile ← mapping dp
    let noiseKey ← field profile "noise_key"
    Py.require (Origin.isText (some noiseKey) key)
      (.valueError "UniMem private noise seed was not preregistered")

/-- What `_rows` reads of a witness: the plan and the rows. -/
def submission (witness : Row) : Py (Row × List Json) := do
  Py.require (keysAre witness ["plan", "challenge", "rows", "commitment_seed", "noise_seed"])
    (.valueError "UniMem proof witness has unknown or missing fields")
  match witness.lookup "plan", witness.lookup "rows" with
  | some (.obj submitted), some (.arr supplied) => return (submitted, supplied)
  | _, _ => throw (.valueError "UniMem proof plan and rows require canonical objects")

/-- The plan that the rows rebuild, with the canonical bytes of the submitted one. -/
def rebuild (submitted : Row) (supplied : List Json) : Py Plan := do
  let _ ← count supplied.length 2 maxCohort "proof witness row count"
  let entries ← Py.collect (Py.always cohortFields) supplied
  let selected ← cohort entries
  let arguments ← argumentsOf submitted
  let rebuilt ← plan setting (selected.map Entry.fields) arguments
  let expected ← wire (.obj rebuilt.fields)
  let found ← wire (.obj submitted)
  Py.require (expected = found) (.valueError "UniMem proof rows do not match the complete preregistered cohort")
  return rebuilt

/-- `_rows`. -/
def rows (witness : Row) : Py (Plan × List Observation × String) := do
  let (submitted, supplied) ← submission witness
  let rebuilt ← rebuild setting submitted supplied
  let seedArgument ← field witness "commitment_seed"
  let seed ← hexBytes seedArgument
  let key ← seedKey setting seedArgument false
  Py.require (Origin.isText (submitted.lookup "commitment_key") key)
    (.valueError "UniMem outcome commitment seed was not preregistered")
  checkNoiseSeed setting (← field submitted "dp") (← field witness "noise_seed")
  let found ← Py.collect (Py.always mapping) supplied
  let ordered := sortBy episodeOf found
  let challenge ← mapping (← field witness "challenge")
  let observed ← Py.collect (Py.always (observe setting submitted challenge)) ordered
  let root ← treeHash setting.suite (observed.zipIdx.map fun (row, index) ↦ leaf setting seed index row)
  return (rebuilt, observed, root)

end UniMem.ZkEffect
