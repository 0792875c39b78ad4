import UniMem.Library.Worklist
import UniMem.MeshCrdt.Operation

/-!
# The merged view of a mesh

`merge_views` reduces operations to the entities of an observed-remove set and to multi-value registers. An
operation is the fields that it may read, each of which may be absent.
-/

namespace UniMem.MeshCrdt

open Library FrontierProtocol

/-- The fields of an operation that `merge_views` reads. -/
structure Operation where
  robotId : Option Json
  id : Option Json
  operation : Option Json
  entity : Option Json
  field : Option Json
  value : Option Json
  counter : Option Json
  safety : Option Json
  parents : Option Json
  targets : Option Json

/-- The operation of a record. -/
def Operation.ofRow (row : Row) : Operation where
  robotId := row.lookup "robot_id"
  id := row.lookup "id"
  operation := row.lookup "operation"
  entity := row.lookup "entity"
  field := row.lookup "field"
  value := row.lookup "value"
  counter := row.lookup "counter"
  safety := row.lookup "safety"
  parents := row.lookup "parents"
  targets := row.lookup "targets"

/-- `op[name]`. -/
def item (value : Option Json) (name : String) : Py Json :=
  match value with
  | some value => .ok value
  | none => .error (.keyError name)

/-- `op["operation"] == name`. -/
def Operation.isA (op : Operation) (name : String) : Py Bool :=
  (fun value ↦ Origin.isText (some value) name) <$> item op.operation "operation"

/-- An operation that is not from a revoked robot, with its robot. -/
def readLive (revoked : List String) (op : Operation) : Py (Option Operation) := do
  let robot ← textItem op.robotId "robot_id"
  return if robot ∈ revoked then none else some op

/-- An operation with its id. -/
def identified (op : Operation) : Py (String × Operation) := do
  return (← textItem op.id "id", op)

/-- An add with its tag. -/
def readAdd (op : Operation) : Py (Option (String × Operation)) := do
  if ← op.isA "add" then some <$> identified op else return none

/-- `op["targets"]` of a remove, as the members of a set. -/
def readTargets (op : Operation) : Py (Option (List Key)) := do
  if ← op.isA "remove" then
    let targets ← iterate (← item op.targets "targets")
    some <$> Py.collect (Py.always hashKey) targets
  else return none

/-- An entry of an entity. -/
structure Member where
  tag : String
  value : Json
  safety : Json
  robotId : String
  counter : Json

/-- A member with the entity that it belongs to. -/
structure Placed where
  key : Key
  entity : Json
  member : Member

/-- An add that is not removed, or that is kept for safety. -/
def readMember (removed : List Key) (entry : String × Operation) : Py (Option Placed) := do
  let (tag, op) := entry
  if Key.text tag ∉ removed ∨ truthy (op.safety.getD .null) then
    let entity ← item op.entity "entity"
    let key ← hashKey entity
    let robot ← textItem op.robotId "robot_id"
    let counter ← item op.counter "counter"
    return some ⟨key, entity, ⟨tag, op.value.getD .null, op.safety.getD (.bool false), robot, counter⟩⟩
  else return none

/-- The members of an entity under its first spelling. -/
def entityOf (group : Key × List Placed) : Json × List Member :=
  ((group.2.head?.map Placed.entity).getD .null, sortBy Member.tag (group.2.map Placed.member))

/-- A put with the register that it writes. -/
structure Put where
  key : Key ×ₗ Key
  entity : Json
  field : Json
  id : String
  op : Operation

/-- A put of a register. -/
def readPut (op : Operation) : Py (Option Put) := do
  if ← op.isA "put" then
    let entity ← item op.entity "entity"
    let field ← item op.field "field"
    let entityKey ← hashKey entity
    let fieldKey ← hashKey field
    let id ← textItem op.id "id"
    return some ⟨toLex (entityKey, fieldKey), entity, field, id, op⟩
  else return none

/-- `f"{entity}/{field}"`. -/
def Put.label (put : Put) : String :=
  (Origin.scalarText put.entity).getD "" ++ "/" ++ (Origin.scalarText put.field).getD ""

/-- The parents of an operation that is found by its id. -/
def readParents (entry : String × Operation) : Py (Key × List Key) := do
  let parents ← iterate (entry.2.parents.getD (.arr []))
  return (.text entry.1, ← Py.collect (Py.always hashKey) parents)

/-- A put with what its register is judged by. -/
structure Candidate where
  id : String
  robotId : String
  value : Json
  digest : String

/-- The value of a put with its digest. -/
def readCandidate (runtime : Runtime) (put : Put) : Py Candidate := do
  let value ← item put.op.value "value"
  let valueDigest ← digest runtime value
  let robot ← textItem put.op.robotId "robot_id"
  return ⟨put.id, robot, value, valueDigest⟩

/-- Whether another candidate has this one among its ancestors. -/
def superseded (ancestors : String → List Key) (candidates : List Candidate)
    (entry : Candidate × ℕ) : Bool :=
  candidates.zipIdx.any fun other ↦
    other.2 ≠ entry.2 && Key.text entry.1.id ∈ ancestors other.1.id

/-- `maximal`. -/
def maximal (ancestors : String → List Key) (candidates : List Candidate) : List Candidate :=
  (candidates.zipIdx.filter fun entry ↦ !superseded ancestors candidates entry).map Prod.fst

/-- How many different values the candidates have. -/
def distinct (candidates : List Candidate) : ℕ := (candidates.map Candidate.digest).dedup.length

/-- A register whose maximal puts do not agree. -/
structure Contradiction where
  entity : Json
  field : Json
  values : List (String × Json)

/-- What the view says of one register. -/
inductive Report where
  | value (label : String) (value : Json)
  | contradiction (contradiction : Contradiction)

/-- The report of a register from its puts, of which the first one gave it its spelling. -/
def reportOf (ancestors : String → List Key) (first : Put) (candidates : List Candidate) : Report :=
  if distinct candidates ≤ 1 then
    .value first.label ((candidates.head?.map Candidate.value).getD .null)
  else if distinct (maximal ancestors candidates) = 1 then
    .value first.label (((maximal ancestors candidates).head?.map Candidate.value).getD .null)
  else
    .contradiction ⟨first.entity, first.field,
      (sortBy (fun candidate ↦ toLex (candidate.robotId, candidate.digest))
        (maximal ancestors candidates)).map fun candidate ↦ (candidate.robotId, candidate.value)⟩

/-- The report of one register. -/
def readRegister (runtime : Runtime) (ancestors : String → List Key) (group : (Key ×ₗ Key) × List Put) :
    Py (Option Report) :=
  match group.2 with
  | [] => .ok none
  | first :: puts => do
    let candidates ← Py.collect (Py.always (readCandidate runtime)) (first :: puts)
    return some (reportOf ancestors first candidates)

/-- `register_values[label] = value`. -/
def setRegister (registers : List (String × Json)) : Report → List (String × Json)
  | .value label value => Json.setField registers label value
  | .contradiction _ => registers

/-- The registers that the reports fill. -/
def registersOf (reports : List Report) : List (String × Json) := reports.foldl setRegister []

/-- The reports that are contradictions. -/
def contradictionsOf (reports : List Report) : List Contradiction :=
  reports.filterMap fun report ↦
    match report with
    | .contradiction contradiction => some contradiction
    | .value _ _ => none

/-- What `merge_views` returns. -/
structure View where
  entities : List (Json × List Member)
  registers : List (String × Json)
  contradictions : List Contradiction
  activeOperations : ℕ

/-- `merge_views`. -/
def mergeViews (runtime : Runtime) (operations : List Operation) (revoked : List String) :
    Py View := do
  let live ← Py.collect (readLive revoked) operations
  let adds ← Py.collect readAdd live
  let removed ← Py.collect readTargets live
  let members ← Py.collect (readMember removed.flatten)
    ((index Prod.fst adds).map Prod.snd)
  let puts ← Py.collect readPut live
  let byId ← Py.collect (Py.always identified) live
  let table ← Py.collect (Py.always readParents) ((index Prod.fst byId).map Prod.snd)
  let registers ← sortedItems tupleComparable Put.key puts
  let reports ← Py.collect
    (readRegister runtime fun id ↦ Worklist.descendants table (.text id)) registers
  let entities ← sortedItems Key.comparable Placed.key members
  return ⟨entities.map entityOf, registersOf reports, contradictionsOf reports, live.length⟩

end UniMem.MeshCrdt
