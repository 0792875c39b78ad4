import UniMem.Billing.Webhook
import UniMem.Capabilities.Policy
import UniMem.Hub.Retention
import UniMem.Library.RecursiveQuery

/-!
# Traces

`contributeTrace` stores a trace and `amendTrace` a new version; both replay what is stored under their key.
`deleteTrace` deletes a trace with its amendment chain.
-/

namespace UniMem.Hub

open Library

/-- The limits of `HubConfig` on a trace. -/
structure Config where
  maxTitleChars : ℕ := 500
  maxTextChars : ℕ := 20000
  maxTags : ℕ := 20
  maxTagChars : ℕ := 64
  maxTraceBytes : ℕ := 65536

/-- The dictionary that is checked before a trace is stored. -/
structure Wire where
  id : String
  title : String
  contextText : String
  solutionText : String
  tags : List String
  agentType : String
  profile : String

def Wire.json (wire : Wire) : Json :=
  .obj [("id", .str wire.id), ("title", .str wire.title), ("context_text", .str wire.contextText),
    ("solution_text", .str wire.solutionText), ("tags", .arr (wire.tags.map .str)),
    ("agent_type", .str wire.agentType), ("profile", .str wire.profile)]

/-- `reject_unstorable_text`. -/
def rejectUnstorableText (value field : String) : Py Unit :=
  Py.require ('\x00' ∉ value.toList)
    (.valueError (field ++ " contains an embedded NUL byte, which Postgres cannot store"))

/-- `len(value)`. -/
def size (value : String) : ℕ := value.toList.length

/-- `validate_trace`: the texts that the schema wants not to be empty. -/
def validateTrace (wire : Wire) : Py Unit :=
  let empty := [("context_text", wire.contextText), ("id", wire.id), ("solution_text", wire.solutionText),
    ("title", wire.title)].filter fun entry ↦ entry.2 = ""
  Py.require empty.isEmpty
    (.valueError ("trace.schema.json: " ++
      "; ".intercalate (empty.map fun entry ↦ entry.1 ++ ": '' should be non-empty")))

/-- A limit of `validate_size`. -/
def atMost (length limit : ℕ) (message : String) : Py Unit :=
  Py.require (length ≤ limit) (.traceRejected message)

/-- `validate_size`. -/
def validateSize (wire : Wire) (config : Config) : Py Unit := do
  [(wire.title, "title"), (wire.contextText, "context_text"), (wire.solutionText, "solution_text"),
    (wire.agentType, "agent_type"), (wire.profile, "profile")].forM fun entry ↦ rejectUnstorableText entry.1 entry.2
  wire.tags.forM fun tag ↦ rejectUnstorableText tag "tag"
  atMost (size wire.title) config.maxTitleChars
    s!"title exceeds {config.maxTitleChars} chars ({size wire.title})"
  atMost (size wire.contextText) config.maxTextChars
    s!"context_text exceeds {config.maxTextChars} chars ({size wire.contextText})"
  atMost (size wire.solutionText) config.maxTextChars
    s!"solution_text exceeds {config.maxTextChars} chars ({size wire.solutionText})"
  atMost wire.tags.length config.maxTags s!"more than {config.maxTags} tags ({wire.tags.length})"
  wire.tags.forM fun tag ↦ atMost (size tag) config.maxTagChars s!"tag '{tag}' exceeds {config.maxTagChars} chars"
  atMost (size wire.profile) 128 s!"profile exceeds 128 chars ({size wire.profile})"
  let serializedSize := (dumps wire.json).length
  atMost serializedSize config.maxTraceBytes
    s!"trace exceeds {config.maxTraceBytes} bytes serialized ({serializedSize})"

/-- The check of an idempotency key. -/
def checkKey : Option String → Py Unit
  | none => .ok ()
  | some key => do
    rejectUnstorableText key "idempotency_key"
    atMost (size key) 128 s!"idempotency_key exceeds 128 chars ({size key})"

/-- The fields of `PROPORTION_METRICS`. -/
def proportionFields : List String := ["resolved", "repeated_error", "escalated", "frustration_signal"]

/-- The fields of `MEAN_METRICS`. -/
def meanFields : List String := ["tokens_used", "llm_calls"]

/-- `KNOWN_OUTCOME_FIELDS`. -/
def knownOutcomeFields : List String := proportionFields ++ meanFields ++ ["baseline"]

/-- `repr(value)`. -/
def OutcomeValue.repr : OutcomeValue → String
  | null => "None"
  | bool true => "True"
  | bool false => "False"
  | int value => toString value

/-- `repr(names)`. -/
def reprTexts (names : List String) : String :=
  "[" ++ ", ".intercalate (names.map fun name ↦ "'" ++ name ++ "'") ++ "]"

/-- The check of one field of an outcome. -/
def checkOutcomeField (outcome : Outcome) (field : String) : Py Unit :=
  match outcome.lookup field with
  | none => .ok ()
  | some value =>
    if field ∈ proportionFields ∨ field = "baseline" then
      match value with
      | .bool _ => .ok ()
      | .null => Py.require (field ≠ "baseline") (.valueError s!"outcome.{field} must be a boolean, got None")
      | .int value => .error (.valueError s!"outcome.{field} must be a boolean, got {value}")
    else
      match value with
      | .null => .ok ()
      | .bool value =>
        .error (.valueError s!"outcome.{field} must be an integer, got {(OutcomeValue.bool value).repr}")
      | .int value => Py.require (0 ≤ value) (.valueError s!"outcome.{field} must not be negative, got {value}")

/-- `validate_outcome`. -/
def validateOutcome : Option Outcome → Py Outcome
  | none => .ok []
  | some outcome => do
    let unknown := (outcome.map Prod.fst).filter fun field ↦ field ∉ knownOutcomeFields
    Py.require unknown.isEmpty
      (.valueError ("outcome has unknown field(s) " ++ reprTexts (sortBy id unknown) ++ "; expected any of " ++
        reprTexts (sortBy id knownOutcomeFields)))
    (proportionFields ++ ["baseline"] ++ meanFields).forM (checkOutcomeField outcome)
    return outcome

/-- `MAX_SCOPES`. -/
def maxScopes : ℕ := 20

/-- `MAX_SCOPE_CHARS`. -/
def maxScopeChars : ℕ := 64

/-- A `ValueError` as a `TraceRejected`. -/
def rejecting {α : Type} (action : Py α) : Py α :=
  match action with
  | .error (.valueError message) => .error (.traceRejected message)
  | result => result

/-- `_clean_scope`. -/
def cleanScope (scope : String) : Py String := do
  rejectUnstorableText scope "scope"
  let value := Capabilities.strip scope
  Py.require (size value ≤ maxScopeChars) (.valueError s!"scope exceeds {maxScopeChars} chars ({size value})")
  return value

/-- `_clean_scopes`. -/
def cleanScopes (scopes : List String) : Py (List String) := do
  let values ← Py.collect (Py.always cleanScope) scopes
  let cleaned := (values.filter (· ≠ "")).eraseDups
  Py.require (cleaned.length ≤ maxScopes)
    (.valueError s!"at most {maxScopes} scopes are allowed, got {cleaned.length}")
  return cleaned

/-- `UNLIMITED`. -/
def unlimited : ℤ := -1

/-- The plans of `PLANS` with their limits on traces. -/
def plans : List (String × ℤ) := [("free", 1000), ("team", 50000), ("scale", unlimited), ("operator", unlimited)]

/-- `plans.get`: a plan in lower case and its limit. -/
def planOf (name : String) : String × ℤ :=
  let key := (Capabilities.strip name).toLower
  match plans.lookup key with
  | some limit => (key, limit)
  | none => ("free", 1000)

/-- `within`. -/
def within (limit used : ℤ) : Bool := limit = unlimited || used < limit

/-- `_reserve_trace_slot`. -/
def reserveTraceSlot (database : Database) (orgId : String) : Py Unit :=
  let org := database.organizations.find? (·.id = orgId)
  let (name, limit) := planOf ((org.map Organization.plan).getD "")
  let stored := (org.map Organization.traceCount).getD 0
  Py.require (within limit stored)
    (.entitlementExceeded (s!"traces limit reached for plan '{name}': {stored}/{limit}. " ++
      "Purge traces you no longer need, or move to a plan with more storage."))

/-- The arguments of `contribute_trace`, with the key of `delegation.idempotency`. -/
structure ContributeRequest where
  title : String
  contextText : String
  solutionText : String
  tags : List String
  agentType : String
  profile : String
  outcome : Option Outcome
  scopes : List String
  validFrom : Option String
  validUntil : Option String
  idempotencyKey : Option String
  deriving DecidableEq

/-- The arguments of `amend_trace`. -/
structure AmendRequest where
  traceId : String
  title : Option String
  contextText : Option String
  solutionText : Option String
  tags : Option (List String)
  outcome : Option Outcome
  idempotencyKey : Option String
  deriving DecidableEq

/-- What a call finds. -/
structure Circumstances where
  config : Config
  now : ℤ
  /-- `uuid.uuid4()` for the trace and for its two relations. -/
  newId : String
  amendsId : String
  supersededId : String
  /-- `policies.permits` for a write with some scopes. -/
  permits : List String → Bool
  /-- `delegation.trace_predicate` for the operation. -/
  visible : Trace → Bool
  /-- `rate_limiter.check`. -/
  allowed : Bool
  /-- `_reserve_agent_slot`. -/
  agentSlot : Py Unit
  /-- `suspicion_reason`. -/
  suspicionReason : Wire → Option String
  /-- `_parse_moment` of a text that is not empty, in microseconds. -/
  parseMoment : String → Option ℤ

def OutcomeValue.json : OutcomeValue → Json
  | null => .null
  | bool value => .bool value
  | int value => .int value

def outcomeJson (outcome : Outcome) : Json := .obj (outcome.map fun entry ↦ (entry.1, entry.2.json))

/-- `json.dumps(value, sort_keys=True, ensure_ascii=False)` in UTF-8. -/
def sortedDumps (value : Json) : Bytes := dumps value.sortKeys

/-- The parts that `contribute_request_hash` joins. -/
def contributeParts (request : ContributeRequest) (outcome : Outcome) : List Bytes :=
  [Json.utf8 request.title, Json.utf8 request.contextText, Json.utf8 request.solutionText,
    Json.utf8 request.agentType, [0x1f].intercalate ((sortBy id request.tags).map Json.utf8)] ++
  (if outcome = [] then [] else [sortedDumps (outcomeJson outcome)]) ++
  (if request.profile = "" then [] else [Json.utf8 request.profile])

/-- What `contribute_request_hash` hashes. -/
def contributeText (request : ContributeRequest) (outcome : Outcome) : Bytes :=
  [0x1e].intercalate (contributeParts request outcome)

/-- `contribute_request_hash`. -/
def contributeRequestHash (runtime : Runtime) (request : ContributeRequest) (outcome : Outcome) : String :=
  runtime.sha256 (contributeText request outcome)

def optionalText : Option String → Json
  | some text => .str text
  | none => .null

/-- The list that `amend_request_hash` dumps. -/
def amendPayload (request : AmendRequest) (outcome : Outcome) : Json :=
  .arr [.str request.traceId, optionalText request.title, optionalText request.contextText,
    optionalText request.solutionText,
    match request.tags with
    | some tags => .arr ((sortBy id tags).map .str)
    | none => .null,
    outcomeJson outcome]

/-- `amend_request_hash`. -/
def amendRequestHash (runtime : Runtime) (request : AmendRequest) (outcome : Outcome) : String :=
  runtime.sha256 (sortedDumps (amendPayload request outcome))

/-- What `contribute_trace` returns. -/
structure Receipt where
  id : String
  quarantined : Bool
  quarantineReason : String
  deriving DecidableEq

def Trace.receipt (trace : Trace) : Receipt := ⟨trace.id, trace.quarantined, trace.quarantineReason⟩

/-- The trace of an organization under an idempotency key. -/
def withKey (database : Database) (orgId key : String) : Option Trace :=
  database.traces.find? fun trace ↦ trace.orgId = orgId && trace.idempotencyKey = some key

/-- The trace under the key of a request. -/
def existing (database : Database) (orgId : String) (key : Option String) : Option Trace :=
  key.bind (withKey database orgId)

/-- `IdempotencyKeyConflict` for one of the two calls. -/
def conflict (key : Option String) (what : String) : PyError :=
  .idempotencyKeyConflict ("idempotency_key '" ++ key.getD "" ++
    s!"' was already used for a different {what}; reuse a key only to retry the exact same request")

/-- `_idempotent_replay_or_conflict`. -/
def replayOrConflict (runtime : Runtime) (trace : Trace) (request : ContributeRequest) (outcome : Outcome) :
    Py Receipt := do
  Py.require (trace.requestHash = some (contributeRequestHash runtime request outcome))
    (conflict request.idempotencyKey "contribute_trace payload")
  return trace.receipt

/-- `_amend_idempotent_replay_or_conflict`. -/
def amendReplayOrConflict (runtime : Runtime) (trace : Trace) (request : AmendRequest) (outcome : Outcome) :
    Py Trace := do
  Py.require (trace.requestHash = some (amendRequestHash runtime request outcome))
    (conflict request.idempotencyKey "amend_trace call")
  return trace

/-- `_parse_moment`. -/
def parseMoment (parse : String → Option ℤ) (field : String) : Option String → Py (Option ℤ)
  | none => .ok none
  | some text =>
    if text = "" then .ok none
    else
      match parse text with
      | some moment => .ok (some moment)
      | none => .error (.valueError s!"{field} must be an ISO 8601 date or date-time, got '{text}'")

/-- What `contribute_trace` reads from its arguments. -/
structure Prepared where
  scopes : List String
  validFrom : Option ℤ
  validUntil : Option ℤ
  outcome : Outcome
  deriving DecidableEq

/-- `contribute_trace` up to its first read of the key. -/
def prepareContribution (circumstances : Circumstances) (request : ContributeRequest) : Py Prepared := do
  let scopes ← rejecting (cleanScopes request.scopes)
  let validFrom ← rejecting (parseMoment circumstances.parseMoment "valid_from" request.validFrom)
  let validUntil ← rejecting (parseMoment circumstances.parseMoment "valid_until" request.validUntil)
  Py.require (validFrom.all fun first ↦ validUntil.all fun last ↦ first < last)
    (.traceRejected "valid_until must be after valid_from")
  Py.require (circumstances.permits scopes)
    (.permissionError "UniMem active finite policy denies this trace write")
  checkKey request.idempotencyKey
  let outcome ← validateOutcome request.outcome
  return ⟨scopes, validFrom, validUntil, outcome⟩

/-- The trace that a contribution stores. -/
def contributed (runtime : Runtime) (circumstances : Circumstances) (orgId : String) (request : ContributeRequest)
    (prepared : Prepared) (reason : Option String) : Trace where
  id := circumstances.newId
  orgId := orgId
  title := request.title
  contextText := request.contextText
  solutionText := request.solutionText
  tags := request.tags
  subjectIds := []
  agentType := request.agentType
  profile := request.profile
  outcome := prepared.outcome
  scopes := prepared.scopes
  validFrom := prepared.validFrom
  validUntil := prepared.validUntil
  supersedesTraceId := none
  supersededByTraceId := none
  createdAt := circumstances.now
  idempotencyKey := request.idempotencyKey
  requestHash := request.idempotencyKey.map fun _ ↦ contributeRequestHash runtime request prepared.outcome
  quarantined := reason.isSome
  quarantineReason := reason.getD ""
  commonsRetractedAt := none
  commonsSource := "org"

/-- The checks of both calls between the read of the key and the insertion. -/
def checkAdmission (circumstances : Circumstances) (database : Database) (orgId : String) (agentSlot : Py Unit)
    (wire : Wire)
    (limited : String) : Py Unit := do
  Py.require circumstances.allowed (.rateLimited s!"org {orgId} exceeded {limited} rate limit")
  reserveTraceSlot database orgId
  agentSlot
  validateTrace wire
  validateSize wire circumstances.config

/-- `contribute_trace`, which reads its key in `seen` and writes to `database`. -/
def contributeTrace (runtime : Runtime) (circumstances : Circumstances) (seen database : Database) (orgId : String)
    (request : ContributeRequest) : Py (Receipt × Database) := do
  let prepared ← prepareContribution circumstances request
  match existing seen orgId request.idempotencyKey with
  | some trace => do
    let receipt ← replayOrConflict runtime trace request prepared.outcome
    return (receipt, database)
  | none => do
    let wire : Wire := ⟨circumstances.newId, request.title, request.contextText, request.solutionText, request.tags,
      request.agentType, request.profile⟩
    checkAdmission circumstances database orgId circumstances.agentSlot wire "contribute_trace"
    match existing database orgId request.idempotencyKey with
    | some trace => do
      let receipt ← replayOrConflict runtime trace request prepared.outcome
      return (receipt, database)
    | none =>
      let trace := contributed runtime circumstances orgId request prepared (circumstances.suspicionReason wire)
      return (trace.receipt,
        Database.adjustTraceCount { database with traces := database.traces ++ [trace] } orgId 1)

/-- `_is_uuid`. -/
def isUuid (value : String) : Bool := Billing.looksLikeOrgId value

/-- `dict.update`. -/
def updateOutcome (outcome given : Outcome) : Outcome :=
  given.foldl (fun outcome entry ↦ assign entry.1 entry.2 outcome) outcome

def amendedWire (circumstances : Circumstances) (original : Trace) (request : AmendRequest) : Wire where
  id := circumstances.newId
  title := request.title.getD original.title
  contextText := request.contextText.getD original.contextText
  solutionText := request.solutionText.getD original.solutionText
  tags := request.tags.getD original.tags
  agentType := original.agentType
  profile := original.profile

/-- The trace that an amendment stores. -/
def amended (runtime : Runtime) (circumstances : Circumstances) (original : Trace) (request : AmendRequest)
    (outcome : Outcome) : Trace :=
  let wire := amendedWire circumstances original request
  let reason := circumstances.suspicionReason wire
  { id := circumstances.newId
    orgId := original.orgId
    title := wire.title
    contextText := wire.contextText
    solutionText := wire.solutionText
    tags := wire.tags
    subjectIds := []
    agentType := original.agentType
    profile := original.profile
    outcome := updateOutcome original.outcome outcome
    scopes := original.scopes
    validFrom := original.validFrom
    validUntil := original.validUntil
    supersedesTraceId := some original.id
    supersededByTraceId := none
    createdAt := circumstances.now
    idempotencyKey := request.idempotencyKey
    requestHash := request.idempotencyKey.map fun _ ↦ amendRequestHash runtime request outcome
    quarantined := original.quarantined || reason.isSome
    quarantineReason :=
      if original.quarantined && original.quarantineReason ≠ "" then original.quarantineReason else reason.getD ""
    commonsRetractedAt := if original.commonsSource = "seed" then original.commonsRetractedAt else none
    commonsSource := if original.commonsSource = "seed" then "seed" else "org" }

/-- The insertion of an amendment, its mark on the original and their relations. -/
def storeAmendment (circumstances : Circumstances) (database : Database) (original trace : Trace) : Database :=
  Database.adjustTraceCount
    { database with
      traces := (database.traces.map fun other ↦
        if other.id = original.id then { other with supersededByTraceId := some trace.id } else other) ++ [trace]
      relations := database.relations ++
        [⟨circumstances.amendsId, trace.id, original.id, "AMENDS"⟩,
          ⟨circumstances.supersededId, original.id, trace.id, "SUPERSEDED_BY"⟩] }
    trace.orgId 1

/-- `amend_trace` up to its read of the trace. -/
def prepareAmendment (request : AmendRequest) : Py Outcome := do
  checkKey request.idempotencyKey
  validateOutcome request.outcome

/-- The trace that an amendment changes. -/
def originalOf (circumstances : Circumstances) (database : Database) (orgId traceId : String) : Option Trace :=
  database.traces.find? fun trace ↦ trace.id = traceId && trace.orgId = orgId && circumstances.visible trace

/-- `amend_trace`, which reads the trace and its key in `seen` and writes to `database`. -/
def amendTrace (runtime : Runtime) (circumstances : Circumstances) (seen database : Database) (orgId : String)
    (request : AmendRequest) : Py (Option Trace × Database) :=
  if isUuid request.traceId = false then .ok (none, database)
  else do
    let outcome ← prepareAmendment request
    match originalOf circumstances seen orgId request.traceId with
    | none => return (none, database)
    | some original => do
      Py.require (circumstances.permits original.scopes)
        (.permissionError "UniMem active finite policy denies this trace amendment")
      match existing seen orgId request.idempotencyKey with
      | some trace => do
        let replayed ← amendReplayOrConflict runtime trace request outcome
        return (some replayed, database)
      | none => do
        checkAdmission circumstances database orgId (.ok ()) (amendedWire circumstances original request) "write"
        Py.require (database.traces.any fun trace ↦ trace.id = original.id)
          (.runtimeError "UPDATE statement on table 'traces' expected to update 1 row(s); 0 were matched.")
        match existing database orgId request.idempotencyKey with
        | some trace => do
          let replayed ← amendReplayOrConflict runtime trace request outcome
          return (some replayed, database)
        | none =>
          let trace := amended runtime circumstances original request outcome
          return (some trace, storeAmendment circumstances database original trace)

/-- The traces that a trace supersedes. -/
def superseded (traces : List Trace) (id : String) : List String :=
  (traces.filter fun trace ↦ trace.id = id).filterMap Trace.supersedesTraceId

/-- The traces that supersede a trace. -/
def superseding (traces : List Trace) (id : String) : List String :=
  (traces.filter fun trace ↦ trace.supersedesTraceId = some id).map Trace.id

/-- `amendment_chain`: what a trace supersedes, and what supersedes any of these. -/
def amendmentChain (traces : List Trace) (traceId : String) : List String :=
  let ancestors := RecursiveQuery.query (superseded traces) (traces.filterMap Trace.supersedesTraceId) [traceId]
  let descendants := RecursiveQuery.query (superseding traces) (traces.map Trace.id) ancestors
  ancestors ++ descendants

/-- The ids of a chain that are traces of an organization. -/
def ownChainIds (traces : List Trace) (orgId traceId : String) : List String :=
  (traces.filter fun trace ↦ trace.id ∈ amendmentChain traces traceId && trace.orgId = orgId).map Trace.id

/-- `delete_trace`, for a caller that may forget the traces of `visible`. -/
def deleteTrace (visible : Trace → Bool) (database : Database) (orgId traceId : String) : Py (Bool × Database) :=
  if isUuid traceId = false then .ok (false, database)
  else
    match database.traces.find? fun trace ↦ trace.id = traceId && trace.orgId = orgId && visible trace with
    | none => .ok (false, database)
    | some _ => do
      Py.require (Retention.activeHolds database orgId).isEmpty
        (.permissionError "an active legal hold blocks trace erasure; release it explicitly")
      let ids := ownChainIds database.traces orgId traceId
      return (true, ((database.deleteRelationsTo ids).deleteTraces fun trace ↦ trace.id ∈ ids).adjustTraceCount orgId
        (-ids.length))

/-- The traces of an organization that are tagged with a subject. -/
def tagged (database : Database) (orgId subjectId : String) : List String :=
  (database.traces.filter fun trace ↦ trace.orgId = orgId && subjectId ∈ trace.subjectIds).map Trace.id

/-- The deletions of `purge_traces_by_subject`. -/
def deleteAll (visible : Trace → Bool) (orgId : String) (database : Database) (ids : List String) : Py Database :=
  ids.foldlM (fun database traceId ↦ do
    let (_, next) ← deleteTrace visible database orgId traceId
    return next) database

/-- `purge_traces_by_subject`: the ids that are gone. -/
def purgeTracesBySubject (visible : Trace → Bool) (database : Database) (orgId subjectId : String) :
    Py (List String × Database) := do
  let subject := Capabilities.strip subjectId
  let matched := tagged database orgId subject
  if subject = "" ∨ matched = [] then return ([], database)
  else do
    let expanded := matched.flatMap (amendmentChain database.traces)
    let ownIds := (database.traces.filter fun trace ↦ trace.id ∈ expanded && trace.orgId = orgId).map Trace.id
    let next ← deleteAll visible orgId database matched
    return (ownIds.filter fun id ↦ id ∉ next.traces.map Trace.id, next)

end UniMem.Hub
