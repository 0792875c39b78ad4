import UniMem.Hub.Tables
import UniMem.Python.Collections
import UniMem.Runtime

/-!
# Retention

A policy deletes old rows of one type and status, and a hold freezes rows. `plan` lists what would be deleted, and
`apply` deletes it under the digest of the plan that was read.
-/

namespace UniMem.Hub.Retention

open Library

/-- `_DIGEST_DOMAIN`. -/
def digestDomain : String := "unimem-retention-plan-v1"

/-- `_FIELD_SEP`. -/
def fieldSep : String := String.singleton '\x1f'

/-- `STATUS_ANY`. -/
def statusAny : String := "any"

/-- A day in microseconds. -/
def day : ℤ := 86400 * 1000000

/-- `ObjectKind`: a table and the vocabulary that a policy may use about it. -/
structure ObjectKind where
  name : String
  model : Model
  statuses : List (String × (Row → Bool))

def ofTrace (check : Trace → Bool) : Row → Bool
  | .trace row => check row
  | _ => false

def ofObservation (check : HoldoutObservation → Bool) : Row → Bool
  | .holdoutObservation row => check row
  | _ => false

def ofSubmission (check : KnowledgeBaseSubmission → Bool) : Row → Bool
  | .knowledgeBaseSubmission row => check row
  | _ => false

/-- `_TRACE_STATUSES`. -/
def traceStatuses : List (String × (Row → Bool)) :=
  [("active", ofTrace fun row ↦ !row.quarantined && row.commonsRetractedAt.isNone),
    ("quarantined", ofTrace fun row ↦ row.quarantined),
    ("retracted", ofTrace fun row ↦ row.commonsRetractedAt.isSome)]

/-- `_OBSERVATION_STATUSES`. -/
def observationStatuses : List (String × (Row → Bool)) :=
  [("reported", ofObservation fun row ↦ row.succeeded.isSome),
    ("unreported", ofObservation fun row ↦ row.succeeded.isNone)]

/-- `_SUBMISSION_STATUSES`. -/
def submissionStatuses : List (String × (Row → Bool)) :=
  ["pending", "approved", "rejected"].map fun name ↦ (name, ofSubmission fun row ↦ row.status = name)

/-- `KINDS`. -/
def kinds : List ObjectKind :=
  [⟨"trace", .trace, traceStatuses⟩, ⟨"vote", .vote, []⟩,
    ⟨"holdout_observation", .holdoutObservation, observationStatuses⟩,
    ⟨"kb_submission", .knowledgeBaseSubmission, submissionStatuses⟩, ⟨"audit_log", .auditLogEntry, []⟩]

/-- `KINDS.get`. -/
def kindOf (objectType : String) : Option ObjectKind := kinds.find? fun kind ↦ kind.name = objectType

/-- `policies_for`. -/
def policiesFor (database : Database) (orgId : String) : List RetentionPolicy :=
  sortBy (fun policy ↦ toLex (policy.objectType, policy.status))
    (database.policies.filter fun policy ↦ policy.orgId = orgId)

/-- `active_holds`. -/
def activeHolds (database : Database) (orgId : String) : List LegalHold :=
  database.holds.filter fun hold ↦ hold.orgId = orgId && hold.releasedAt.isNone

/-- `_holds_for_kind`: the blanket holds and the targeted ones. -/
def holdsForKind (holds : List LegalHold) (kind : ObjectKind) : List LegalHold × List LegalHold :=
  let relevant := holds.filter fun hold ↦ hold.objectType = "" || hold.objectType = kind.name
  (relevant.filter fun hold ↦ hold.targetId = "", relevant.filter fun hold ↦ hold.targetId ≠ "")

/-- Whether the holdout experiment of an organization is running. -/
def experimentRunning (database : Database) (orgId : String) : Bool :=
  database.organizations.any fun org ↦ org.id = orgId && 0 < org.holdoutRate

/-- `Bucket`: what one policy would do, and what stopped it. -/
structure Bucket where
  objectType : String
  status : String
  nMatched : ℕ
  nHeld : ℕ
  doomed : List String
  blocked : String
  deriving DecidableEq

structure PurgePlan where
  orgId : String
  buckets : List Bucket
  deriving DecidableEq

/-- `BLOCKED_EXPERIMENT_RUNNING`. -/
def blockedExperimentRunning : String :=
  "the org's randomized holdout is running -- deleting arm assignments " ++
    "mid-experiment is differential attrition, not data hygiene"

/-- The condition of a status. -/
def statusCondition (kind : ObjectKind) (status : String) : Py (Row → Bool) :=
  if status = statusAny then .ok fun _ ↦ true
  else
    match kind.statuses.lookup status with
    | some condition => .ok condition
    | none => .error (.keyError status)

/-- The ids of the rows that a policy matches. -/
def matchedIds (database : Database) (orgId : String) (cutoff : ℤ) (kind : ObjectKind) (condition : Row → Bool) :
    List String :=
  ((database.table kind.model).filter fun row ↦
    row.orgId = some orgId && row.createdAt < cutoff && condition row).map Row.id

/-- The turn of `plan` for one policy. -/
def bucketFor (database : Database) (orgId : String) (moment : ℤ) (policy : RetentionPolicy) : Py Bucket :=
  match kindOf policy.objectType with
  | none =>
    .ok ⟨policy.objectType, policy.status, 0, 0, [],
      "this build has no object type '" ++ policy.objectType ++ "', so the policy matches nothing"⟩
  | some kind =>
    if kind.name = "holdout_observation" ∧ experimentRunning database orgId then
      .ok ⟨kind.name, policy.status, 0, 0, [], blockedExperimentRunning⟩
    else do
      let condition ← statusCondition kind policy.status
      let matching := matchedIds database orgId (moment - policy.maxAgeDays * day) kind condition
      let (blanket, targeted) := holdsForKind (activeHolds database orgId) kind
      if blanket = [] then
        let doomed := sortBy id (matching.filter fun id ↦ id ∉ targeted.map LegalHold.targetId)
        return ⟨kind.name, policy.status, matching.length, matching.length - doomed.length, doomed, ""⟩
      else
        return ⟨kind.name, policy.status, matching.length, matching.length, [], ""⟩

/-- `plan`. -/
def plan (database : Database) (orgId : String) (moment : ℤ) : Py PurgePlan := do
  let buckets ← Py.collect (Py.always (bucketFor database orgId moment)) (policiesFor database orgId)
  return ⟨orgId, buckets⟩

/-- The part of a digest for one bucket. -/
def Bucket.text (bucket : Bucket) : String :=
  bucket.objectType ++ "/" ++ bucket.status ++ ":" ++ ",".intercalate bucket.doomed

/-- The buckets that a digest covers. -/
def PurgePlan.listed (plan : PurgePlan) : List Bucket :=
  (sortBy (fun bucket ↦ toLex (bucket.objectType, bucket.status)) plan.buckets).filter
    fun bucket ↦ bucket.blocked = ""

/-- What `digest` hashes. -/
def PurgePlan.text (plan : PurgePlan) : String :=
  digestDomain ++ fieldSep ++ plan.orgId ++ fieldSep ++ fieldSep.intercalate (plan.listed.map Bucket.text)

/-- `PurgePlan.digest`. -/
def PurgePlan.digest (runtime : Runtime) (plan : PurgePlan) : String := runtime.sha256 (Json.utf8 plan.text)

/-- The turn of `apply` for one bucket. -/
def purgeBucket (orgId : String) (database : Database) (bucket : Bucket) : Py Database :=
  if bucket.blocked ≠ "" ∨ bucket.doomed = [] then .ok database
  else
    match kindOf bucket.objectType with
    | none => .error (.keyError bucket.objectType)
    | some kind =>
      if kind.model = .trace then
        let unrelated := database.deleteRelationsTo bucket.doomed
        let rowcount := (unrelated.traces.filter fun trace ↦ trace.id ∈ bucket.doomed).length
        .ok ((unrelated.deleteRows .trace bucket.doomed).adjustTraceCount orgId (-rowcount))
      else .ok (database.deleteRows kind.model bucket.doomed)

/-- `StalePlanError`. -/
def stale (planned current : String) : PyError :=
  .stalePlanError ("the store changed since this plan was computed, so nothing was deleted (planned " ++
    String.ofList (planned.toList.take 12) ++ ", now " ++ String.ofList (current.toList.take 12) ++
    "). Re-plan and read the new plan before applying it.")

/-- `apply`. The id of the audit entry is new. -/
def apply (runtime : Runtime) (database : Database) (orgId expectDigest : String) (moment : ℤ) (auditId : String) :
    Py (PurgePlan × Database) := do
  let fresh ← plan database orgId moment
  Py.require (fresh.digest runtime = expectDigest) (stale expectDigest (fresh.digest runtime))
  let purged ← fresh.buckets.foldlM (purgeBucket orgId) database
  return (fresh, { purged with auditLog := purged.auditLog ++ [⟨auditId, moment, some orgId, "retention.purge"⟩] })

end UniMem.Hub.Retention
