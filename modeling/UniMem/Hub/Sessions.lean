import UniMem.Hub.Traces
import UniMem.Library.ReadCommitted

/-!
# Statements of trace transactions

The calls that store or delete traces, statement by statement: what a call reads can have changed by the time it
writes. Uncommitted rows and changed counters are locked.
-/

namespace UniMem.Hub

open Library

/-- A row, or a key of the unique constraint on idempotency keys. -/
inductive Lock where
  | organization (id : String)
  | trace (id : String)
  | traceKey (orgId key : String)
  | submission (id : String)
  deriving DecidableEq

inductive Statement where
  /-- `SELECT trace_count FROM organizations WHERE id = orgId FOR UPDATE`. -/
  | reserve (orgId : String)
  | insertTrace (trace : Trace)
  /-- `UPDATE traces SET superseded_by_trace_id = superseding WHERE id = original`. -/
  | supersede (original superseding : String)
  | insertRelations (relations : List TraceRelation)
  | deleteRelationsTo (ids : List String)
  | deleteRows (model : Model) (ids : List String)
  | adjustTraceCount (orgId : String) (delta : ℤ)
  /-- The row of a pending submission, `FOR UPDATE`. -/
  | lockSubmission (submissionId : String)
  | updateSubmission (submissionId status : String) (resultingTraceId : Option String)
  | insertAudit (entry : AuditLogEntry)

/-- What a statement writes. -/
inductive Write where
  | insertTrace (trace : Trace)
  | supersede (original superseding : String)
  | insertRelations (relations : List TraceRelation)
  | deleteRelations (relations : List TraceRelation)
  | deleteRows (model : Model) (ids : List String)
  | adjustTraceCount (orgId : String) (delta : ℤ)
  | updateSubmission (submissionId status : String) (resultingTraceId : Option String)
  | insertAudit (entry : AuditLogEntry)

def Write.apply (database : Database) : Write → Database
  | insertTrace trace => { database with traces := database.traces ++ [trace] }
  | supersede original superseding =>
    { database with
      traces := database.traces.map fun trace ↦
        if trace.id = original then { trace with supersededByTraceId := some superseding } else trace }
  | insertRelations relations => { database with relations := database.relations ++ relations }
  | deleteRelations relations =>
    { database with relations := database.relations.filter fun relation ↦ relation ∉ relations }
  | deleteRows model ids => database.deleteRows model ids
  | adjustTraceCount orgId delta => database.adjustTraceCount orgId delta
  | updateSubmission submissionId status resultingTraceId =>
    { database with
      submissions := database.submissions.map fun submission ↦
        if submission.id = submissionId then
          { submission with status := status, resultingTraceId := resultingTraceId }
        else submission }
  | insertAudit entry => { database with auditLog := database.auditLog ++ [entry] }

/-- A constraint that a new trace violates: primary key, idempotency key or organization. -/
def violates (database : Database) (trace : Trace) : Bool :=
  database.organizations.all (·.id ≠ trace.orgId) ||
    database.traces.any fun other ↦
      other.id = trace.id ||
        (trace.idempotencyKey.isSome && other.orgId = trace.orgId && other.idempotencyKey = trace.idempotencyKey)

/-- The ids among some that a table holds. -/
def Database.found (database : Database) (model : Model) (ids : List String) : List String :=
  ((database.table model).filter fun row ↦ row.id ∈ ids).map Row.id

/-- The locks of a statement. -/
def Statement.locks (database : Database) : Statement → List Lock
  | reserve orgId => [.organization orgId]
  | insertTrace trace => .trace trace.id :: (trace.idempotencyKey.map (Lock.traceKey trace.orgId)).toList
  | supersede original _ => [.trace original]
  | deleteRows .trace ids => (database.found .trace ids).map .trace
  | adjustTraceCount orgId _ => [.organization orgId]
  | lockSubmission submissionId => [.submission submissionId]
  | updateSubmission submissionId _ _ => [.submission submissionId]
  | _ => []

/-- The selected number, the rowcount, and zero for an insertion that violates a constraint. -/
def Statement.result (database : Database) : Statement → ℤ
  | reserve orgId => ((database.organizations.find? (·.id = orgId)).map Organization.traceCount).getD 0
  | insertTrace trace => if violates database trace then 0 else 1
  | supersede original _ => (database.traces.filter fun trace ↦ trace.id = original).length
  | insertRelations relations => relations.length
  | deleteRelationsTo ids => (database.relations.filter fun relation ↦ relation.relatedTraceId ∈ ids).length
  | deleteRows model ids => (database.found model ids).length
  | adjustTraceCount orgId _ => (database.organizations.filter fun org ↦ org.id = orgId).length
  | lockSubmission submissionId =>
    (database.submissions.filter fun submission ↦
      submission.id = submissionId && submission.status = "pending").length
  | updateSubmission submissionId _ _ =>
    (database.submissions.filter fun submission ↦ submission.id = submissionId).length
  | insertAudit _ => 1

/-- The writes of a statement. -/
def Statement.writes (database : Database) : Statement → List Write
  | reserve _ => []
  | insertTrace trace => if violates database trace then [] else [.insertTrace trace]
  | supersede original superseding => [.supersede original superseding]
  | insertRelations relations => [.insertRelations relations]
  | deleteRelationsTo ids =>
    [.deleteRelations (database.relations.filter fun relation ↦ relation.relatedTraceId ∈ ids)]
  | deleteRows model ids => [.deleteRows model (database.found model ids)]
  | adjustTraceCount orgId delta => [.adjustTraceCount orgId delta]
  | lockSubmission _ => []
  | updateSubmission submissionId status resultingTraceId => [.updateSubmission submissionId status resultingTraceId]
  | insertAudit entry => [.insertAudit entry]

/-- The database of the hub at read committed. -/
def engine : Engine Database (fun _ : Statement ↦ ℤ) Write Lock where
  locks statement database := statement.locks database
  result statement database := statement.result database
  writes statement database := statement.writes database
  write := Write.apply

/-- A transaction of the hub. -/
abbrev Session := Program Database (fun _ : Statement ↦ ℤ) PyError

namespace Session

open Program

variable (runtime : Runtime) (circumstances : Circumstances) (orgId : String)

/-- `_adjust_trace_count`. -/
def adjustTraceCount (delta : ℤ) : Session Unit :=
  if delta = 0 then return ()
  else do
    let _ ← statement (.adjustTraceCount orgId delta)
    return ()

/-- `_plan_for` and `_reserve_trace_slot`. -/
def reserveTraceSlot : Session Unit := do
  let (name, limit) ← read fun database ↦
    planOf (((database.organizations.find? (·.id = orgId)).map Organization.plan).getD "")
  if limit = unlimited then return ()
  else do
    let stored ← statement (.reserve orgId)
    lift (Py.require (within limit stored)
      (.entitlementExceeded (s!"traces limit reached for plan '{name}': {stored}/{limit}. " ++
        "Purge traces you no longer need, or move to a plan with more storage.")))

/-- The checks of both calls between the read of the key and the insertion. -/
def checkAdmission (agentSlot : Py Unit) (wire : Wire) (limited : String) : Session Unit := do
  lift (Py.require circumstances.allowed (.rateLimited s!"org {orgId} exceeded {limited} rate limit"))
  reserveTraceSlot orgId
  lift agentSlot
  lift (validateTrace wire)
  lift (validateSize wire circumstances.config)

/-- The `IntegrityError` of an insertion that is not a replay. -/
def integrityError : PyError := .integrityError "INSERT INTO traces violates a constraint"

/-- `contribute_trace`. -/
def contributeTrace (request : ContributeRequest) : Session Receipt := do
  let prepared ← lift (prepareContribution circumstances request)
  let first ← read fun database ↦ existing database orgId request.idempotencyKey
  match first with
  | some trace => lift (replayOrConflict runtime trace request prepared.outcome)
  | none => do
    let wire : Wire := ⟨circumstances.newId, request.title, request.contextText, request.solutionText, request.tags,
      request.agentType, request.profile⟩
    checkAdmission circumstances orgId circumstances.agentSlot wire "contribute_trace"
    let trace := contributed runtime circumstances orgId request prepared (circumstances.suspicionReason wire)
    let inserted ← statement (.insertTrace trace)
    if inserted = 0 then do
      let raced ← read fun database ↦ existing database orgId request.idempotencyKey
      match raced with
      | none => fail integrityError
      | some other => lift (replayOrConflict runtime other request prepared.outcome)
    else do
      adjustTraceCount orgId 1
      return trace.receipt

/-- `amend_trace`. An insertion that violates a constraint rolls back. -/
def amendTrace (request : AmendRequest) : Session (Option Trace) :=
  if isUuid request.traceId = false then return none
  else do
    let outcome ← lift (prepareAmendment request)
    let found ← read fun database ↦ originalOf circumstances database orgId request.traceId
    match found with
    | none => return none
    | some original => do
      lift (Py.require (circumstances.permits original.scopes)
        (.permissionError "UniMem active finite policy denies this trace amendment"))
      let first ← read fun database ↦ existing database orgId request.idempotencyKey
      match first with
      | some trace => do
        let replayed ← lift (amendReplayOrConflict runtime trace request outcome)
        return some replayed
      | none => do
        checkAdmission circumstances orgId (.ok ()) (amendedWire circumstances original request) "write"
        let trace := amended runtime circumstances original request outcome
        let matched ← statement (.supersede original.id trace.id)
        lift (Py.require (matched ≠ 0)
          (.runtimeError "UPDATE statement on table 'traces' expected to update 1 row(s); 0 were matched."))
        let inserted ← statement (.insertTrace trace)
        if inserted = 0 then fail integrityError
        else do
          adjustTraceCount orgId 1
          let _ ← statement (.insertRelations [⟨circumstances.amendsId, trace.id, original.id, "AMENDS"⟩,
            ⟨circumstances.supersededId, original.id, trace.id, "SUPERSEDED_BY"⟩])
          return some trace

/-- `delete_trace`, which counts the ids it has read, not the rows it deletes. -/
def deleteTrace (visible : Trace → Bool) (traceId : String) : Session Bool :=
  if isUuid traceId = false then return false
  else do
    let found ← read fun database ↦
      database.traces.find? fun trace ↦ trace.id = traceId && trace.orgId = orgId && visible trace
    match found with
    | none => return false
    | some _ => do
      let holds ← read fun database ↦ Retention.activeHolds database orgId
      lift (Py.require holds.isEmpty
        (.permissionError "an active legal hold blocks trace erasure; release it explicitly"))
      let chain ← read fun database ↦ amendmentChain database.traces traceId
      let ids ← read fun database ↦
        (database.traces.filter fun trace ↦ trace.id ∈ chain && trace.orgId = orgId).map Trace.id
      let _ ← statement (.deleteRelationsTo ids)
      let _ ← statement (.deleteRows .trace ids)
      adjustTraceCount orgId (-ids.length)
      return true

/-- The reads of the chains of some traces. -/
def chains : List String → Session (List String)
  | [] => return []
  | traceId :: rest => do
    let chain ← read fun database ↦ amendmentChain database.traces traceId
    let others ← chains rest
    return chain ++ others

/-- The deletions of `purge_traces_by_subject`. -/
def deleteAll (visible : Trace → Bool) : List String → Session Unit
  | [] => return ()
  | traceId :: rest => do
    let _ ← deleteTrace orgId visible traceId
    deleteAll visible rest

/-- `purge_traces_by_subject`: the ids that are gone. -/
def purgeTracesBySubject (visible : Trace → Bool) (subjectId : String) : Session (List String) :=
  let subject := Capabilities.strip subjectId
  if subject = "" then return []
  else do
    let matching ← read fun database ↦ tagged database orgId subject
    if matching = [] then return []
    else do
      let expanded ← chains matching
      let ownIds ← read fun database ↦
        (database.traces.filter fun trace ↦ trace.id ∈ expanded && trace.orgId = orgId).map Trace.id
      deleteAll orgId visible matching
      let remaining ← read fun database ↦ database.traces.map Trace.id
      return ownIds.filter fun id ↦ id ∉ remaining

/-- What `review_kb_submission` gets and finds. -/
structure Review where
  submissionId : String
  decision : String
  operatorOrgId : String
  reviewer : String
  rejectionReason : String
  now : ℤ
  newId : String
  auditId : String

/-- The trace of an approved submission. -/
def seeded (review : Review) (submission : KnowledgeBaseSubmission) : Trace where
  id := review.newId
  orgId := review.operatorOrgId
  title := submission.title
  contextText := submission.contextText
  solutionText := submission.solutionText
  tags := submission.tags
  subjectIds := []
  agentType := submission.agentType
  profile := ""
  outcome := []
  scopes := []
  validFrom := none
  validUntil := none
  supersedesTraceId := none
  supersededByTraceId := none
  createdAt := review.now
  idempotencyKey := none
  requestHash := none
  quarantined := false
  quarantineReason := ""
  commonsRetractedAt := none
  commonsSource := "seed"

/-- The audit entry of a review. -/
def reviewEntry (review : Review) (submission : KnowledgeBaseSubmission) : AuditLogEntry :=
  ⟨review.auditId, review.now, some submission.orgId, "review_kb_submission"⟩

/-- `review_kb_submission`. -/
def reviewKbSubmission (review : Review) : Session (Option KnowledgeBaseSubmission) := do
  lift (Py.require (review.decision = "approve" ∨ review.decision = "reject")
    (.valueError ("decision must be one of ('approve', 'reject'), got '" ++ review.decision ++ "'")))
  lift (rejectUnstorableText review.reviewer "reviewer")
  lift (rejectUnstorableText review.rejectionReason "rejection_reason")
  if isUuid review.submissionId = false then return none
  else do
    let pending ← statement (.lockSubmission review.submissionId)
    let found ← read fun database ↦ database.submissions.find? fun submission ↦
      submission.id = review.submissionId && submission.status = "pending"
    match found with
    | none => return none
    | some submission => do
      if pending = 0 then return none
      else if review.decision = "reject" then do
        let _ ← statement (.updateSubmission submission.id "rejected" none)
        let _ ← statement (.insertAudit (reviewEntry review submission))
        return some { submission with status := "rejected" }
      else do
        let trace := seeded review submission
        let inserted ← statement (.insertTrace trace)
        lift (Py.require (inserted ≠ 0) integrityError)
        adjustTraceCount review.operatorOrgId 1
        let _ ← statement (.updateSubmission submission.id "approved" (some trace.id))
        let _ ← statement (.insertAudit (reviewEntry review submission))
        return some { submission with status := "approved", resultingTraceId := some trace.id }

/-- The turns of `plan`, which reads the holds and the organization once. -/
def planBuckets (holds : List LegalHold) (organizations : List Organization) (moment : ℤ) :
    List RetentionPolicy → Session (List Retention.Bucket)
  | [] => return []
  | policy :: policies => do
    let bucket ← read fun database ↦
      Retention.bucketFor { database with holds := holds, organizations := organizations } orgId moment policy
    let bucket ← lift bucket
    let buckets ← planBuckets holds organizations moment policies
    return bucket :: buckets

/-- `retention.plan`. -/
def plan (moment : ℤ) : Session Retention.PurgePlan := do
  let policies ← read fun database ↦ Retention.policiesFor database orgId
  let holds ← read Database.holds
  let organizations ← read Database.organizations
  let buckets ← planBuckets orgId holds organizations moment policies
  return ⟨orgId, buckets⟩

/-- The turn of `retention.apply` for one bucket. -/
def purgeBucket (bucket : Retention.Bucket) : Session Unit :=
  if bucket.blocked ≠ "" ∨ bucket.doomed = [] then return ()
  else
    match Retention.kindOf bucket.objectType with
    | none => fail (.keyError bucket.objectType)
    | some kind =>
      if kind.model = .trace then do
        let _ ← statement (.deleteRelationsTo bucket.doomed)
        let rowcount ← statement (.deleteRows .trace bucket.doomed)
        adjustTraceCount orgId (-rowcount)
      else do
        let _ ← statement (.deleteRows kind.model bucket.doomed)
        return ()

def purgeBuckets : List Retention.Bucket → Session Unit
  | [] => return ()
  | bucket :: buckets => do
    purgeBucket orgId bucket
    purgeBuckets buckets

/-- `retention.apply`. -/
def apply (expectDigest : String) (moment : ℤ) (auditId : String) : Session Retention.PurgePlan := do
  let fresh ← plan orgId moment
  lift (Py.require (fresh.digest runtime = expectDigest) (Retention.stale expectDigest (fresh.digest runtime)))
  purgeBuckets orgId fresh.buckets
  let _ ← statement (.insertAudit ⟨auditId, moment, some orgId, "retention.purge"⟩)
  return fresh

/-! ## Calls that run alone -/

section Alone

variable {runtime : Runtime} {circumstances : Circumstances} {orgId : String} {database : Database}
  {visible : Trace → Bool} {ids : List String}

theorem alone_adjustTraceCount_bind {α : Type} {delta : ℤ} (hdelta : delta ≠ 0) {next : Unit → Session α} :
    (adjustTraceCount orgId delta >>= next).alone engine database =
      (next ()).alone engine (database.adjustTraceCount orgId delta) := by
  rw [adjustTraceCount, if_neg hdelta]
  rfl

theorem after_deleteRelationsTo :
    engine.after database (engine.writes (.deleteRelationsTo ids) database) = database.deleteRelationsTo ids := by
  change Write.apply database (.deleteRelations _) = _
  rw [Write.apply, Database.deleteRelationsTo]
  congr 1
  apply List.filter_congr
  intro relation hrelation
  simp [hrelation]

/-- The traces that a deletion finds are the stored ones. -/
theorem after_deleteTraces :
    engine.after database (engine.writes (.deleteRows .trace ids) database) =
      database.deleteTraces fun trace ↦ trace.id ∈ ids := by
  have hfound : ∀ trace ∈ database.traces, decide (trace.id ∈ database.found .trace ids) =
    decide (trace.id ∈ ids) := by
    intro trace htrace
    rw [decide_eq_decide, Database.found, Database.table, List.mem_map]
    constructor
    · rintro ⟨row, hrow, hid⟩
      exact hid ▸ of_decide_eq_true (List.mem_filter.mp hrow).2
    · intro hids
      exact ⟨.trace trace, List.mem_filter.mpr ⟨List.mem_map_of_mem htrace, decide_eq_true hids⟩, rfl⟩
  change Write.apply database (.deleteRows .trace (database.found .trace ids)) = _
  rw [Write.apply, Database.deleteRows, Database.deleteTraces, Database.deleteTraces, List.filter_congr hfound,
    List.filter_congr fun trace htrace ↦ congrArg not (hfound trace htrace)]

theorem self_mem_amendmentChain (traces : List Trace) (traceId : String) : traceId ∈ amendmentChain traces traceId :=
  List.mem_append_left _ (RecursiveQuery.subset_rounds _ _ _ (List.mem_singleton_self _))

theorem self_mem_ownChainIds {traceId : String} {found : Trace}
    (h : (database.traces.find? fun trace ↦ trace.id = traceId && trace.orgId = orgId && visible trace) =
      some found) :
    traceId ∈ ownChainIds database.traces orgId traceId := by
  have hproperties := List.find?_some h
  rw [Bool.and_eq_true, Bool.and_eq_true, decide_eq_true_eq, decide_eq_true_eq] at hproperties
  obtain ⟨⟨hid, horg⟩, -⟩ := hproperties
  refine List.mem_map.mpr ⟨found, List.mem_filter.mpr ⟨List.mem_of_find?_eq_some h, ?_⟩, hid⟩
  rw [hid, horg, Bool.and_eq_true, decide_eq_true_eq, decide_eq_true_eq]
  exact ⟨self_mem_amendmentChain _ _, rfl⟩

/-- A deletion alone is `delete_trace` in one step. -/
theorem alone_deleteTrace (traceId : String) :
    (deleteTrace orgId visible traceId).alone engine database = Hub.deleteTrace visible database orgId traceId := by
  unfold deleteTrace Hub.deleteTrace
  by_cases huuid : isUuid traceId = false
  · rw [if_pos huuid, if_pos huuid]
    rfl
  · rw [if_neg huuid, if_neg huuid, alone_read_bind]
    cases hfound : database.traces.find? fun trace ↦ trace.id = traceId && trace.orgId = orgId && visible trace with
    | none => rfl
    | some trace =>
      have hids : (-(ownChainIds database.traces orgId traceId).length : ℤ) ≠ 0 := by
        have hpos := List.length_pos_of_mem (self_mem_ownChainIds hfound)
        omega
      simp only [alone_read_bind, alone_lift_bind, alone_statement_bind, after_deleteRelationsTo, after_deleteTraces]
      congr 1
      funext _
      change (adjustTraceCount orgId (-(ownChainIds database.traces orgId traceId).length) >>= _).alone engine _ = _
      rw [alone_adjustTraceCount_bind hids]
      rfl

theorem alone_deleteAll (traceIds : List String) :
    (deleteAll orgId visible traceIds).alone engine database =
      (do let next ← Hub.deleteAll visible orgId database traceIds; return ((), next)) := by
  induction traceIds generalizing database with
  | nil => rfl
  | cons traceId traceIds ih =>
    rw [deleteAll, alone_bind, alone_deleteTrace, Hub.deleteAll, List.foldlM_cons]
    cases Hub.deleteTrace visible database orgId traceId with
    | error error => rfl
    | ok result => exact ih

theorem alone_chains_bind {α : Type} (traceIds : List String) {next : List String → Session α} :
    (chains traceIds >>= next).alone engine database =
      (next (traceIds.flatMap (amendmentChain database.traces))).alone engine database := by
  have hchains : (chains traceIds).alone engine database =
      .ok (traceIds.flatMap (amendmentChain database.traces), database) := by
    induction traceIds with
    | nil => rfl
    | cons traceId traceIds ih =>
      rw [chains, alone_read_bind, alone_bind, ih]
      rfl
  rw [alone_bind, hchains]
  rfl

theorem alone_purgeTracesBySubject (subjectId : String) :
    (purgeTracesBySubject orgId visible subjectId).alone engine database =
      Hub.purgeTracesBySubject visible database orgId subjectId := by
  unfold purgeTracesBySubject Hub.purgeTracesBySubject
  dsimp only
  by_cases hsubject : Capabilities.strip subjectId = ""
  · rw [if_pos hsubject, if_pos (Or.inl hsubject)]
    rfl
  · rw [if_neg hsubject, alone_read_bind]
    by_cases hmatched : tagged database orgId (Capabilities.strip subjectId) = []
    · rw [if_pos hmatched, if_pos (Or.inr hmatched)]
      rfl
    · rw [if_neg hmatched, if_neg (not_or_intro hsubject hmatched), alone_chains_bind, alone_read_bind, alone_bind,
        alone_deleteAll]
      cases Hub.deleteAll visible orgId database (tagged database orgId (Capabilities.strip subjectId)) with
      | error error => rfl
      | ok next => rfl

theorem alone_reserveTraceSlot :
    (reserveTraceSlot orgId).alone engine database =
      (do Hub.reserveTraceSlot database orgId; return ((), database)) := by
  unfold reserveTraceSlot Hub.reserveTraceSlot
  rw [alone_read_bind]
  dsimp only
  generalize planOf (((database.organizations.find? (·.id = orgId)).map Organization.plan).getD "") = plan
  by_cases hlimit : plan.2 = unlimited
  · rw [if_pos hlimit, hlimit]
    rfl
  · rw [if_neg hlimit, alone_statement_bind, alone_lift]
    rfl

theorem alone_checkAdmission_bind {α : Type} (agentSlot : Py Unit) (wire : Wire) (limited : String)
    {next : Unit → Session α} :
    (checkAdmission circumstances orgId agentSlot wire limited >>= next).alone engine database =
      (do Hub.checkAdmission circumstances database orgId agentSlot wire limited
          (next ()).alone engine database) := by
  unfold checkAdmission Hub.checkAdmission
  rw [alone_bind, alone_lift_bind]
  cases Py.require circumstances.allowed (.rateLimited s!"org {orgId} exceeded {limited} rate limit") with
  | error error => rfl
  | ok _ =>
    rw [Py.bind_ok, Py.bind_ok, alone_bind, alone_reserveTraceSlot]
    cases Hub.reserveTraceSlot database orgId with
    | error error => rfl
    | ok _ =>
      simp only [Py.bind_ok, Py.pure_eq_ok, alone_lift_bind, alone_lift, bind_assoc]

/-- Nothing that is stored stands in the way of a new trace. -/
theorem violates_eq_false {trace : Trace} (hnew : ∀ other ∈ database.traces, other.id ≠ trace.id)
    (horg : ∃ org ∈ database.organizations, org.id = trace.orgId)
    (hkey : existing database trace.orgId trace.idempotencyKey = none) : violates database trace = false := by
  obtain ⟨org, horg, hid⟩ := horg
  rw [violates, Bool.or_eq_false_iff, List.all_eq_false, List.any_eq_false]
  refine ⟨⟨org, horg, by simp [hid]⟩, ?_⟩
  intro other hother
  cases hkey' : trace.idempotencyKey with
  | none => simpa using hnew other hother
  | some key =>
    rw [hkey', existing, Option.bind_some, withKey, List.find?_eq_none] at hkey
    simpa [hnew other hother] using hkey other hother

theorem alone_insertTrace_bind {α : Type} {trace : Trace} (h : violates database trace = false)
    {next : ℤ → Session α} :
    (statement (.insertTrace trace) >>= next).alone engine database =
      (next 1).alone engine (Write.apply database (.insertTrace trace)) := by
  rw [alone_statement_bind]
  change (next (if violates database trace then 0 else 1)).alone engine
    (engine.after database (if violates database trace then [] else [.insertTrace trace])) = _
  rw [h]
  rfl

/-- A contribution alone, under a new id and of an organization that exists. -/
theorem alone_contributeTrace (request : ContributeRequest)
    (hnew : ∀ trace ∈ database.traces, trace.id ≠ circumstances.newId)
    (horg : ∃ org ∈ database.organizations, org.id = orgId) :
    (contributeTrace runtime circumstances orgId request).alone engine database =
      Hub.contributeTrace runtime circumstances database database orgId request := by
  unfold contributeTrace Hub.contributeTrace
  rw [alone_lift_bind]
  congr 1
  funext prepared
  rw [alone_read_bind]
  cases hexisting : existing database orgId request.idempotencyKey with
  | some trace =>
    dsimp only
    rw [alone_lift]
  | none =>
    dsimp only
    rw [alone_checkAdmission_bind]
    congr 1
    funext _
    rw [alone_insertTrace_bind (violates_eq_false hnew horg hexisting), if_neg one_ne_zero,
      alone_adjustTraceCount_bind one_ne_zero]
    rfl

/-- A changed pointer stands in the way of no trace. -/
theorem violates_supersede {original superseding : String} {trace : Trace} :
    violates (Write.apply database (.supersede original superseding)) trace = violates database trace := by
  unfold violates
  rw [Write.apply, List.any_map]
  congr 2
  funext other
  rw [Function.comp_apply]
  split_ifs <;> rfl

/-- An amendment alone, under a new id and of an organization that exists. -/
theorem alone_amendTrace (request : AmendRequest)
    (hnew : ∀ trace ∈ database.traces, trace.id ≠ circumstances.newId)
    (horg : ∃ org ∈ database.organizations, org.id = orgId) :
    (amendTrace runtime circumstances orgId request).alone engine database =
      Hub.amendTrace runtime circumstances database database orgId request := by
  unfold amendTrace Hub.amendTrace
  by_cases huuid : isUuid request.traceId = false
  · rw [if_pos huuid, if_pos huuid]
    rfl
  · rw [if_neg huuid, if_neg huuid, alone_lift_bind]
    congr 1
    funext outcome
    rw [alone_read_bind]
    cases horiginal : originalOf circumstances database orgId request.traceId with
    | none => rfl
    | some original =>
      have hstored : original ∈ database.traces := List.mem_of_find?_eq_some horiginal
      have hproperties := List.find?_some horiginal
      rw [Bool.and_eq_true, Bool.and_eq_true, decide_eq_true_eq, decide_eq_true_eq] at hproperties
      obtain ⟨⟨-, rfl⟩, -⟩ := hproperties
      dsimp only
      rw [alone_lift_bind]
      congr 1
      funext _
      rw [alone_read_bind]
      cases hexisting : existing database original.orgId request.idempotencyKey with
      | some trace =>
        dsimp only
        rw [alone_lift_bind]
        rfl
      | none =>
        have hany : (database.traces.any fun trace ↦ trace.id = original.id) = true :=
          List.any_eq_true.mpr ⟨original, hstored, decide_eq_true rfl⟩
        have hmatched : ((database.traces.filter fun trace ↦ trace.id = original.id).length : ℤ) ≠ 0 := by
          rw [ne_eq, Nat.cast_eq_zero, List.length_eq_zero_iff, List.filter_eq_nil_iff]
          exact fun hnone ↦ hnone original hstored (decide_eq_true rfl)
        dsimp only
        rw [alone_checkAdmission_bind]
        congr 1
        funext _
        rw [alone_statement_bind]
        change (lift (Py.require (((database.traces.filter fun trace ↦ trace.id = original.id).length : ℤ) ≠ 0) _) >>=
          _).alone engine (Write.apply database (.supersede original.id _)) = _
        rw [decide_eq_true hmatched, hany, alone_lift_bind, Py.require_true, Py.bind_ok, Py.bind_ok,
          alone_insertTrace_bind, if_neg one_ne_zero, alone_adjustTraceCount_bind one_ne_zero, alone_statement_bind]
        · rfl
        · rw [violates_supersede]
          exact violates_eq_false hnew horg hexisting

end Alone

end Session

end UniMem.Hub
