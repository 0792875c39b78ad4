import UniMem.Library.Procedure
import UniMem.FrontierProtocol.Journal
import UniMem.Python.Collections

/-!
# Signed mesh operations

A robot signs the body of an operation with `sign_operation`, and a replica stores it with `apply` after `_verify`
has checked the signature and the id.
-/

namespace UniMem.MeshCrdt

open Library FrontierProtocol Procedure

/-- The value of a hexadecimal digit. -/
def hexValue (char : Char) : Option ℕ :=
  if '0' ≤ char ∧ char ≤ '9' then some (char.toNat - '0'.toNat)
  else if 'a' ≤ char ∧ char ≤ 'f' then some (char.toNat - 'a'.toNat + 10)
  else if 'A' ≤ char ∧ char ≤ 'F' then some (char.toNat - 'A'.toNat + 10)
  else none

/-- The spaces that `bytes.fromhex` skips between bytes. -/
def isSpace (char : Char) : Bool := char = ' ' || (9 ≤ char.toNat && char.toNat ≤ 13)

/-- `bytes.fromhex`. -/
def fromHex : List Char → Option Bytes
  | [] => some []
  | [char] => if isSpace char then some [] else none
  | high :: low :: chars =>
    if isSpace high then fromHex (low :: chars)
    else do
      let first ← hexValue high
      let second ← hexValue low
      let rest ← fromHex chars
      return UInt8.ofNat (16 * first + second) :: rest

/-- `bytes.hex`. -/
def hex (bytes : Bytes) : String :=
  String.ofList (bytes.flatMap fun byte ↦
    [Char.ofNat (Json.hexDigit (byte.toNat / 16)).toNat, Char.ofNat (Json.hexDigit (byte.toNat % 16)).toNat])

/-- What an operation does. -/
inductive Effect where
  | add (value : Json)
  | remove (targets : List String)
  | put (value : Json)

/-- The field `operation`. -/
def Effect.name : Effect → String
  | add _ => "add"
  | remove _ => "remove"
  | put _ => "put"

/-- The field that only some operations have. -/
def Effect.payload : Effect → String × Json
  | add value => ("value", value)
  | remove targets => ("targets", .arr (targets.map .str))
  | put value => ("value", value)

/-- Whether the values of an effect are canonical JSON. -/
def Effect.Admissible : Effect → Prop
  | add value => Wirable value
  | remove targets => targets ≠ []
  | put value => Wirable value

/-- The signed body of an operation, as `sign_operation` builds it. -/
structure Body where
  robotId : String
  counter : ℤ
  entity : String
  field : String
  parents : List String
  safety : Bool
  effect : Effect
  id : String
  robotId_text : text robotId "robot id" 128 = .ok robotId
  entity_text : text entity "site entity" 128 = .ok entity
  field_text : text field "register field" 128 = .ok field
  effect_admissible : effect.Admissible

/-- The fields that the id covers. -/
def unidentified (robotId : String) (counter : ℤ) (entity field : String) (parents : List String)
    (safety : Bool) (effect : Effect) : Row :=
  [("robot_id", .str robotId), ("counter", .int counter), ("operation", .str effect.name),
    ("entity", .str entity), ("field", .str field), ("parents", .arr (parents.map .str)),
    ("safety", .bool safety), effect.payload]

/-- The fields of a body. -/
def Body.row (body : Body) : Row :=
  unidentified body.robotId body.counter body.entity body.field body.parents body.safety
    body.effect ++ [("id", .str body.id)]

/-- The journals of a replica: keys, revoked robots, operations and rejected ones. -/
structure Mesh where
  robots : List (String × String)
  revocations : List String
  operations : List Row
  taints : List Row

/-- The digest before a row and its time, by the number of the row. -/
abbrev Clock := ℕ → String × String

/-- `fp.append` on the records of a journal. -/
def extend (clock : Clock) (rows : List Row) (record : Row) : Py (List Row) := do
  let _ ← count rows.length 0 (maxRows - 1) "count"
  let body := sequenced record rows.length (clock rows.length).1 (clock rows.length).2
  let _ ← wire (.obj body)
  return rows ++ [body]

abbrev Call := Procedure Mesh PyError

/-- `fp.append(root, TAINTS, ...)`. -/
def taint (clock : Clock) (robot : String) (body : Row) (reason : String) : Call Unit := do
  let rows ← read Mesh.taints
  let rows ← lift (extend clock rows
    [("robot_id", .str robot), ("operation_id", (body.lookup "id").getD (.str "")), ("reason", .str reason)])
  update fun mesh ↦ { mesh with taints := rows }

/-- `_robot_keys`, at one robot: a later registration replaces an earlier one. -/
def Mesh.robotKey (mesh : Mesh) (robot : Json) : Py (Option String) := do
  match ← hashKey robot with
  | .text name => return (mesh.robots.reverse.lookup name)
  | _ => return none

/-- Whether the signature of a body verifies under a registered key. -/
def signatureValid (runtime : Runtime) (publicKey : String) (signed body : Row) : Bool :=
  match fromHex publicKey.toList, signed.lookup "signature", wire (.obj body) with
  | some key, some (.str signature), .ok message => runtime.ed25519Verify key signature message
  | _, _, _ => false

/-- The checks of `_verify` on a body. -/
def verifyBody (runtime : Runtime) (clock : Clock) (signed body : Row) : Call Row := do
  let robot := (body.lookup "robot_id").getD .null
  let mesh ← read id
  match ← lift (mesh.robotKey robot) with
  | none => do
    taint clock ((Origin.scalarText robot).getD "") body "unknown or mismatched robot key"
    lift
      (.error (.permissionError "mesh operation key is unknown; operation was tainted"))
  | some publicKey => do
    let keyDigest ← lift (digest runtime (.str publicKey))
    if !Origin.isText (signed.lookup "public_key_digest") keyDigest then do
      taint clock ((Origin.scalarText robot).getD "") body "unknown or mismatched robot key"
      lift
        (.error (.permissionError "mesh operation key is unknown; operation was tainted"))
    else if mesh.revocations.any fun name ↦ Origin.isText (some robot) name then do
      taint clock ((Origin.scalarText robot).getD "") body "revoked robot operation"
      lift
        (.error (.permissionError "revoked robot operation was rejected and tainted"))
    else if !signatureValid runtime publicKey signed body then do
      taint clock ((Origin.scalarText robot).getD "") body "invalid operation signature"
      lift
        (.error (.permissionError "forged mesh operation was rejected and tainted"))
    else do
      let expected ← lift
        (digest runtime (.obj (body.filter fun field ↦ field.1 ≠ "id")))
      lift (Py.require (Origin.isText (body.lookup "id") expected)
        (.valueError "mesh operation digest does not match its signed body"))
      return body

/-- The fields of a signed operation. -/
def signedFields : List String := ["body", "signature", "public_key_digest"]

/-- `_verify`. -/
def verify (runtime : Runtime) (clock : Clock) (signed : Row) : Call Row :=
  match signed.lookup "body" with
  | some (.obj body) =>
    if signed.all (fun field ↦ field.1 ∈ signedFields) &&
        signedFields.all fun name ↦ name ∈ signed.map Prod.fst then
      verifyBody runtime clock signed body
    else lift (.error (.valueError "malformed signed mesh operation"))
  | _ => lift (.error (.valueError "malformed signed mesh operation"))

/-- `op[name]` where a verified operation holds a text. -/
def textItem (value : Option Json) (name : String) : Py String :=
  match value with
  | some (.str content) => .ok content
  | some _ => .error (.typeError s!"{name} is not a text")
  | none => .error (.keyError name)

/-- The record of an accepted operation. -/
def accepted (signed body : Row) : Row :=
  Json.setField (Json.setField body "signature" ((signed.lookup "signature").getD .null))
    "public_key_digest" ((signed.lookup "public_key_digest").getD .null)

/-- The loop of `apply`: the ids that are known and those that were accepted. -/
def applyLoop (runtime : Runtime) (clock : Clock) :
    List Row → List String → List String → Call (List String)
  | [], _, ids => return ids
  | signed :: rest, prior, ids => do
    let body ← verify runtime clock signed
    let id ← lift (textItem (body.lookup "id") "id")
    if id ∈ prior then applyLoop runtime clock rest prior ids
    else do
      let rows ← read Mesh.operations
      let rows ← lift (extend clock rows (accepted signed body))
      update fun mesh ↦ { mesh with operations := rows }
      applyLoop runtime clock rest (id :: prior) (ids ++ [id])

/-- `apply`. -/
def apply (runtime : Runtime) (clock : Clock) (signedOps : List Row) : Call (List String) := do
  let _ ← lift (count signedOps.length 1 100_000 "count")
  let rows ← read Mesh.operations
  let prior ← lift
    (Py.collect (Py.always fun row ↦ textItem (row.lookup "id") "id") rows)
  applyLoop runtime clock signedOps prior []

/-- The batches of operations that a replica receives. -/
def receive (runtime : Runtime) (clock : Clock) : List (List Row) → Call Unit
  | [] => return ()
  | batch :: batches => do
    let _ ← apply runtime clock batch
    receive runtime clock batches

end UniMem.MeshCrdt
