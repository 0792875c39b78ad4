import UniMem.Hub.Histories
import UniMem.Library.JsonText
import UniMem.Library.Separated

/-!
# Idempotency keys

One trace is stored for each key, and a later call under the key compares the hash of its request with the stored
one. The hash leaves out scopes and validity.
-/

namespace UniMem.Hub

open Library

/-! ## Calls -/

/-- A call that carries a key. -/
inductive Call where
  | contribute (request : ContributeRequest)
  | amend (request : AmendRequest)
  deriving DecidableEq

/-- What a call returns. -/
inductive Answer where
  | contributed (receipt : Receipt)
  | amended (trace : Option Trace)
  deriving DecidableEq

namespace Call

def key : Call → Option String
  | contribute request => request.idempotencyKey
  | amend request => request.idempotencyKey

/-- The hash that a call stores and compares. -/
def requestHash (runtime : Runtime) : Call → String
  | contribute request => contributeRequestHash runtime request (request.outcome.getD [])
  | amend request => amendRequestHash runtime request (request.outcome.getD [])

/-- The error of a call whose key stands for another request. -/
def conflict : Call → PyError
  | contribute request => Hub.conflict request.idempotencyKey "contribute_trace payload"
  | amend request => Hub.conflict request.idempotencyKey "amend_trace call"

/-- What a call returns when it replays a trace. -/
def replay (trace : Trace) : Call → Answer
  | contribute _ => .contributed trace.receipt
  | amend _ => .amended (some trace)

/-- A call that reads its key in `seen`. -/
def perform (runtime : Runtime) (circumstances : Circumstances) (seen database : Database) (orgId : String) :
    Call → Py (Answer × Database)
  | contribute request => do
    let (receipt, next) ← contributeTrace runtime circumstances seen database orgId request
    return (.contributed receipt, next)
  | amend request => do
    let (trace, next) ← amendTrace runtime circumstances seen database orgId request
    return (.amended trace, next)

end Call

/-! ## The same request -/

/-- The tags of an amendment, in any order. -/
def SameTags : Option (List String) → Option (List String) → Prop
  | none, none => True
  | some tags, some others => tags.Perm others
  | _, _ => False

structure ContributeRequest.Same (first second : ContributeRequest) : Prop where
  title : first.title = second.title
  contextText : first.contextText = second.contextText
  solutionText : first.solutionText = second.solutionText
  tags : first.tags.Perm second.tags
  agentType : first.agentType = second.agentType
  outcome : (outcomeJson (first.outcome.getD [])).Same (outcomeJson (second.outcome.getD []))
  profile : first.profile = second.profile
  scopes : first.scopes = second.scopes
  validFrom : first.validFrom = second.validFrom
  validUntil : first.validUntil = second.validUntil

structure AmendRequest.Same (first second : AmendRequest) : Prop where
  traceId : first.traceId = second.traceId
  title : first.title = second.title
  contextText : first.contextText = second.contextText
  solutionText : first.solutionText = second.solutionText
  tags : SameTags first.tags second.tags
  outcome : (outcomeJson (first.outcome.getD [])).Same (outcomeJson (second.outcome.getD []))

/-- Two calls make the same request. -/
def Call.Same : Call → Call → Prop
  | .contribute first, .contribute second => first.Same second
  | .amend first, .amend second => first.Same second
  | _, _ => False

/-- Two contributions whose parts join to one text are the same request. -/
def Told : Call → Call → Prop
  | .contribute first, .contribute second =>
    contributeText first (first.outcome.getD []) = contributeText second (second.outcome.getD []) →
      first.Same second
  | _, _ => True

/-! ## What the hashes tell apart -/

variable {runtime : Runtime} {circumstances : Circumstances} {seen database next : Database} {orgId key : String}
  {call other : Call} {trace : Trace}

variable {tags others : List String} {outcome : Outcome} {request : ContributeRequest} {prepared : Prepared}

theorem sortBy_id_eq_of_perm (h : tags.Perm others) : sortBy id tags = sortBy id others :=
  sortBy_eq_of_perm h fun _ _ _ _ heq ↦ heq

theorem perm_of_sortBy_id_eq (h : sortBy id tags = sortBy id others) : tags.Perm others :=
  (sortBy_perm id tags).symm.trans (h ▸ sortBy_perm id others)

theorem outcome_eq_nil_iff : outcome = [] ↔ (outcomeJson outcome).sortKeys.children = [] := by
  have hperm := Json.perm_children_sortKeys (outcomeJson outcome)
  rw [← List.length_eq_zero_iff (l := Json.children _), hperm.length_eq, List.length_map, outcomeJson, Json.children,
    List.length_map, List.length_map, List.length_eq_zero_iff]

theorem plain_outcomeJson (outcome : Outcome) : Json.Plain (outcomeJson outcome) := by
  rw [Json.plain_iff]
  refine ⟨rfl, ?_⟩
  intro child hchild
  simp only [outcomeJson, Json.children, List.map_map, List.mem_map, Function.comp_apply] at hchild
  obtain ⟨entry, -, rfl⟩ := hchild
  cases entry.2 <;> rfl

theorem sortedDumps_injective {first second : Json} (hfirst : Json.Plain first) (hsecond : Json.Plain second) :
    sortedDumps first = sortedDumps second ↔ first.Same second := by
  constructor
  · exact Json.encode_injective Json.Style.separated_spaced (Json.plain_sortKeys _ hfirst)
      (Json.plain_sortKeys _ hsecond)
  · exact congrArg dumps

theorem contributeText_eq_of_same {first second : ContributeRequest} (h : first.Same second) :
    contributeText first (first.outcome.getD []) = contributeText second (second.outcome.getD []) := by
  have houtcome : sortedDumps (outcomeJson (first.outcome.getD [])) =
      sortedDumps (outcomeJson (second.outcome.getD [])) := congrArg dumps h.outcome
  have hempty : first.outcome.getD [] = [] ↔ second.outcome.getD [] = [] := by
    rw [outcome_eq_nil_iff, outcome_eq_nil_iff, h.outcome]
  simp only [contributeText, contributeParts, h.title, h.contextText, h.solutionText, h.agentType, h.profile,
    sortBy_id_eq_of_perm h.tags, houtcome, hempty]

theorem plain_amendPayload (request : AmendRequest) (outcome : Outcome) :
    Json.Plain (amendPayload request outcome) := by
  rw [Json.plain_iff]
  refine ⟨rfl, ?_⟩
  intro child hchild
  have htext : ∀ text, Json.Plain (optionalText text) := by
    intro text
    cases text <;> rfl
  simp only [amendPayload, Json.children, List.mem_cons, List.not_mem_nil, or_false] at hchild
  obtain rfl | rfl | rfl | rfl | rfl | rfl := hchild
  · rfl
  · exact htext _
  · exact htext _
  · exact htext _
  · cases request.tags with
    | none => rfl
    | some tags =>
      rw [Json.plain_iff]
      refine ⟨rfl, ?_⟩
      intro tag htag
      obtain ⟨_, -, rfl⟩ := List.mem_map.mp htag
      rfl
  · exact plain_outcomeJson outcome

theorem sortKeys_optionalText (text : Option String) : (optionalText text).sortKeys = optionalText text := by
  cases text <;> rfl

theorem optionalText_injective {first second : Option String} (h : optionalText first = optionalText second) :
    first = second := by
  cases first <;> cases second <;> simp_all [optionalText]

/-- The tags of an amendment as its payload holds them. -/
def tagsJson : Option (List String) → Json
  | some tags => .arr ((sortBy id tags).map .str)
  | none => .null

theorem sortKeys_tagsJson (tags : Option (List String)) : (tagsJson tags).sortKeys = tagsJson tags := by
  cases tags with
  | none => rfl
  | some tags =>
    rw [tagsJson, Json.sortKeys, Json.sortKeysItems_eq, List.map_map]
    rfl

theorem tagsJson_eq_iff {first second : Option (List String)} :
    tagsJson first = tagsJson second ↔ SameTags first second := by
  cases first with
  | none => cases second <;> simp [tagsJson, SameTags]
  | some tags =>
    cases second with
    | none => simp [tagsJson, SameTags]
    | some others =>
      rw [tagsJson, tagsJson, Json.arr.injEq, SameTags,
        (List.map_injective_iff.mpr fun _ _ h ↦ Json.str.inj h).eq_iff]
      exact ⟨perm_of_sortBy_id_eq, sortBy_id_eq_of_perm⟩

theorem same_amendPayload_iff {first second : AmendRequest} :
    (amendPayload first (first.outcome.getD [])).Same (amendPayload second (second.outcome.getD [])) ↔
      first.Same second := by
  have hpayload : ∀ request : AmendRequest, (amendPayload request (request.outcome.getD [])).sortKeys =
      .arr [.str request.traceId, optionalText request.title, optionalText request.contextText,
        optionalText request.solutionText, tagsJson request.tags,
        (outcomeJson (request.outcome.getD [])).sortKeys] := by
    intro request
    have htags := sortKeys_tagsJson request.tags
    cases hrequest : request.tags <;> simp_all [amendPayload, Json.sortKeys, Json.sortKeysItems_eq,
      sortKeys_optionalText, tagsJson]
  rw [Json.Same, hpayload, hpayload]
  simp only [Json.arr.injEq, List.cons.injEq, Json.str.injEq, and_true, tagsJson_eq_iff]
  constructor
  · rintro ⟨hid, htitle, hcontext, hsolution, htags, houtcome⟩
    exact ⟨hid, optionalText_injective htitle, optionalText_injective hcontext, optionalText_injective hsolution,
      htags, houtcome⟩
  · rintro ⟨hid, htitle, hcontext, hsolution, htags, houtcome⟩
    rw [htitle, hcontext, hsolution]
    exact ⟨hid, rfl, rfl, rfl, htags, houtcome⟩

theorem contributeText_ne (payload : Json) :
    contributeText request outcome ≠ sortedDumps payload := by
  intro h
  have hmem : (0x1e : UInt8) ∈ contributeText request outcome := by
    simp [contributeText, contributeParts, List.intercalate_cons_cons]
  rw [h] at hmem
  exact absurd (Json.le_of_mem_encode Json.Style.printable_spaced hmem) (by decide)

theorem requestHash_eq_of_same (h : call.Same other) : call.requestHash runtime = other.requestHash runtime := by
  cases call with
  | contribute first =>
    cases other with
    | contribute second => exact congrArg runtime.sha256 (contributeText_eq_of_same h)
    | amend second => exact h.elim
  | amend first =>
    cases other with
    | contribute second => exact h.elim
    | amend second => exact congrArg (fun payload ↦ runtime.sha256 (dumps payload)) (same_amendPayload_iff.mpr h)

theorem same_of_requestHash_eq (hhash : runtime.CollisionFree) (htold : Told call other)
    (h : call.requestHash runtime = other.requestHash runtime) : call.Same other := by
  cases call with
  | contribute first =>
    cases other with
    | contribute second => exact htold (hhash _ _ h)
    | amend second => exact absurd (hhash _ _ h) (contributeText_ne _)
  | amend first =>
    cases other with
    | contribute second => exact absurd (hhash _ _ h).symm (contributeText_ne _)
    | amend second =>
      exact same_amendPayload_iff.mp ((sortedDumps_injective (plain_amendPayload _ _) (plain_amendPayload _ _)).mp
        (hhash _ _ h))

theorem requestHash_eq_of_not_told (htold : ¬Told call other) :
    call.requestHash runtime = other.requestHash runtime ∧ ¬call.Same other := by
  cases call with
  | contribute first =>
    cases other with
    | contribute second =>
      obtain ⟨htext, hsame⟩ := Classical.not_imp.mp htold
      exact ⟨congrArg runtime.sha256 htext, hsame⟩
    | amend second => exact absurd trivial htold
  | amend first => cases other <;> exact absurd trivial htold

/-! ## Requests without separators -/

/-! ## Histories -/

/-- A trace as it was stored. -/
def Trace.asStored (trace : Trace) : Trace := { trace with supersededByTraceId := none }

/-- The traces of a database as they were stored. -/
def Database.stored (database : Database) : List Trace := database.traces.map Trace.asStored

/-- A call that stored a trace. -/
structure Creation where
  call : Call
  trace : Trace
  deriving DecidableEq

/-- A database, the states that it had before, newest first, and what the calls stored. -/
structure Calls where
  database : Database
  earlier : List Database
  created : List Creation

/-- A call that reads its key `age` states ago. -/
structure KeyedAction where
  circumstances : Circumstances
  orgId : String
  age : ℕ
  call : Call

/-- The state that the first read of a call sees. -/
def Calls.past (calls : Calls) (age : ℕ) : Database := (calls.database :: calls.earlier).getD age calls.database

/-- The answer of a call and the state after it. -/
def KeyedAction.perform (runtime : Runtime) (calls : Calls) (action : KeyedAction) : Py (Answer × Database) :=
  action.call.perform runtime action.circumstances (calls.past action.age) calls.database action.orgId

/-- One call, which keeps what it stores. -/
def callStep (runtime : Runtime) (calls : Calls) (action : KeyedAction) : Py Calls := do
  let (_, next) ← action.perform runtime calls
  return {
    database := next
    earlier := calls.database :: calls.earlier
    created := calls.created ++ (next.stored.drop calls.database.stored.length).map fun trace ↦ ⟨action.call, trace⟩ }

/-! ## What one call stores -/

@[simp]
theorem asStored_idempotencyKey : trace.asStored.idempotencyKey = trace.idempotencyKey := rfl

@[simp]
theorem asStored_orgId : trace.asStored.orgId = trace.orgId := rfl

@[simp]
theorem asStored_requestHash : trace.asStored.requestHash = trace.requestHash := rfl

@[simp]
theorem stored_adjustTraceCount {delta : ℤ} : (database.adjustTraceCount orgId delta).stored = database.stored := rfl

theorem outcome_eq_of_validateOutcome {given : Option Outcome} (h : validateOutcome given = .ok outcome) :
    outcome = given.getD [] := by
  cases given with
  | none => exact (Except.ok.inj h).symm
  | some given =>
    obtain ⟨_, h⟩ := Py.of_rest h
    obtain ⟨_, h⟩ := Py.of_rest h
    exact (Except.ok.inj h).symm

theorem outcome_of_prepareContribution (h : prepareContribution circumstances request = .ok prepared) :
    prepared.outcome = request.outcome.getD [] := by
  obtain ⟨_, h⟩ := Py.of_rest h
  obtain ⟨_, h⟩ := Py.of_rest h
  obtain ⟨_, h⟩ := Py.of_rest h
  obtain ⟨_, h⟩ := Py.of_rest h
  obtain ⟨_, h⟩ := Py.of_rest h
  obtain ⟨_, h⟩ := Py.of_rest h
  obtain ⟨outcome, houtcome, h⟩ := Py.of_bind h
  obtain rfl := Except.ok.inj h
  exact outcome_eq_of_validateOutcome houtcome

theorem outcome_of_prepareAmendment {request : AmendRequest} (h : prepareAmendment request = .ok outcome) :
    outcome = request.outcome.getD [] := by
  obtain ⟨_, h⟩ := Py.of_rest h
  exact outcome_eq_of_validateOutcome h

/-- The trace that a call adds under its key. -/
structure Adds (runtime : Runtime) (database : Database) (orgId : String) (call : Call) (trace : Trace) : Prop where
  unused : existing database orgId call.key = none
  owner : trace.orgId = orgId
  key : trace.idempotencyKey = call.key
  hash : trace.requestHash = call.key.map fun _ ↦ call.requestHash runtime

theorem adds_contributed (hunused : existing database orgId request.idempotencyKey = none)
    (houtcome : prepared.outcome = request.outcome.getD []) (reason : Option String) :
    Adds runtime database orgId (.contribute request)
      (contributed runtime circumstances orgId request prepared reason) where
  unused := hunused
  owner := rfl
  key := rfl
  hash := by rw [contributed, houtcome]; rfl

theorem adds_amended {original : Trace} {request : AmendRequest}
    (hunused : existing database orgId request.idempotencyKey = none) (howner : original.orgId = orgId)
    (houtcome : outcome = request.outcome.getD []) :
    Adds runtime database orgId (.amend request) (amended runtime circumstances original request outcome) where
  unused := hunused
  owner := howner
  key := rfl
  hash := by rw [amended, houtcome]; rfl

theorem stored_append : Database.stored { database with traces := database.traces ++ [trace] } =
    database.stored ++ [trace.asStored] := by
  rw [Database.stored, List.map_append, List.map_singleton]
  rfl

theorem stored_contributeTrace {receipt : Receipt}
    (h : contributeTrace runtime circumstances seen database orgId request = .ok (receipt, next)) :
    next.stored = database.stored ∨ ∃ trace, Adds runtime database orgId (.contribute request) trace ∧
        next.stored = database.stored ++ [trace.asStored] := by
  obtain ⟨prepared, hprepared, h⟩ := Py.of_bind h
  have houtcome := outcome_of_prepareContribution hprepared
  split at h
  · obtain ⟨_, h⟩ := Py.of_rest h
    obtain ⟨-, rfl⟩ := Prod.mk.inj (Except.ok.inj h)
    exact Or.inl rfl
  · obtain ⟨_, h⟩ := Py.of_rest h
    split at h
    · obtain ⟨_, h⟩ := Py.of_rest h
      obtain ⟨-, rfl⟩ := Prod.mk.inj (Except.ok.inj h)
      exact Or.inl rfl
    · next hunused =>
      obtain ⟨-, rfl⟩ := Prod.mk.inj (Except.ok.inj h)
      exact Or.inr ⟨_, adds_contributed hunused houtcome _, stored_append⟩

theorem stored_storeAmendment (original : Trace) :
    (storeAmendment circumstances database original trace).stored = database.stored ++ [trace.asStored] := by
  rw [storeAmendment, stored_adjustTraceCount, Database.stored, List.map_append, List.map_map]
  congr 1
  apply List.map_congr_left
  intro other _
  simp only [Function.comp_apply]
  split_ifs <;> rfl

theorem stored_amendTrace {request : AmendRequest} {result : Option Trace}
    (h : amendTrace runtime circumstances seen database orgId request = .ok (result, next)) :
    next.stored = database.stored ∨ ∃ trace, Adds runtime database orgId (.amend request) trace ∧
        next.stored = database.stored ++ [trace.asStored] := by
  unfold amendTrace at h
  split_ifs at h with huuid
  · obtain ⟨-, rfl⟩ := Prod.mk.inj (Except.ok.inj h)
    exact Or.inl rfl
  · obtain ⟨outcome, houtcome, h⟩ := Py.of_bind h
    have houtcome := outcome_of_prepareAmendment houtcome
    split at h
    · obtain ⟨-, rfl⟩ := Prod.mk.inj (Except.ok.inj h)
      exact Or.inl rfl
    · next original hfound =>
      have horiginal := List.find?_some hfound
      simp only [Bool.and_eq_true, decide_eq_true_eq] at horiginal
      obtain ⟨_, h⟩ := Py.of_rest h
      split at h
      · obtain ⟨_, h⟩ := Py.of_rest h
        obtain ⟨-, rfl⟩ := Prod.mk.inj (Except.ok.inj h)
        exact Or.inl rfl
      · obtain ⟨_, h⟩ := Py.of_rest h
        obtain ⟨_, h⟩ := Py.of_rest h
        split at h
        · obtain ⟨_, h⟩ := Py.of_rest h
          obtain ⟨-, rfl⟩ := Prod.mk.inj (Except.ok.inj h)
          exact Or.inl rfl
        · next hunused =>
          obtain ⟨-, rfl⟩ := Prod.mk.inj (Except.ok.inj h)
          exact Or.inr ⟨_, adds_amended hunused horiginal.1.2 houtcome, stored_storeAmendment original⟩

theorem stored_perform {answer : Answer} (h : call.perform runtime circumstances seen database orgId =
    .ok (answer, next)) :
    next.stored = database.stored ∨
      ∃ trace, Adds runtime database orgId call trace ∧ next.stored = database.stored ++ [trace.asStored] := by
  cases call with
  | contribute request =>
    obtain ⟨⟨receipt, after⟩, hcall, h⟩ := Py.of_bind h
    obtain ⟨-, rfl⟩ := Prod.mk.inj (Except.ok.inj h)
    exact stored_contributeTrace hcall
  | amend request =>
    obtain ⟨⟨result, after⟩, hcall, h⟩ := Py.of_bind h
    obtain ⟨-, rfl⟩ := Prod.mk.inj (Except.ok.inj h)
    exact stored_amendTrace hcall

/-! ## What a history keeps -/

/-- Whether a trace is stored under a key of an organization. -/
def Trace.under (orgId key : String) (trace : Trace) : Bool := trace.orgId = orgId && trace.idempotencyKey = some key

/-- At most one trace is stored for each key. -/
def OncePerKey (database : Database) : Prop :=
  ∀ orgId key, (database.traces.filter (Trace.under orgId key)).length ≤ 1

theorem filter_stored : database.stored.filter (Trace.under orgId key) =
    (database.traces.filter (Trace.under orgId key)).map Trace.asStored := by
  rw [Database.stored, List.filter_map]
  rfl

theorem oncePerKey_iff : OncePerKey database ↔
    ∀ orgId key, (database.stored.filter (Trace.under orgId key)).length ≤ 1 := by
  simp only [OncePerKey, filter_stored, List.length_map]

theorem OncePerKey.eq (honce : OncePerKey database) {first second : Trace} (hfirst : first ∈ database.stored)
    (hsecond : second ∈ database.stored) (hunder : first.under orgId key = true)
      (hunder' : second.under orgId key = true) :
    first = second := by
  have hlength := oncePerKey_iff.mp honce orgId key
  have hmem := List.mem_filter.mpr ⟨hfirst, hunder⟩
  have hmem' := List.mem_filter.mpr ⟨hsecond, hunder'⟩
  obtain ⟨only, honly⟩ | hnil := Nat.le_one_iff_eq_zero_or_eq_one.mp hlength |>.symm.imp_left
    List.length_eq_one_iff.mp
  · rw [honly, List.mem_singleton] at hmem hmem'
    rw [hmem, hmem']
  · rw [List.length_eq_zero_iff.mp hnil] at hmem
    cases hmem

theorem mem_of_existing (h : existing database orgId (some key) = some trace) :
    trace ∈ database.traces ∧ trace.under orgId key = true :=
  ⟨List.mem_of_find?_eq_some h, by simpa [Trace.under] using List.find?_some h⟩

theorem mem_stored (h : trace ∈ database.traces) : trace.asStored ∈ database.stored :=
    List.mem_map.mpr ⟨trace, h, rfl⟩

theorem filter_eq_nil_of_unused (h : existing database orgId (some key) = none) :
    database.stored.filter (Trace.under orgId key) = [] := by
  rw [filter_stored, List.map_eq_nil_iff, List.filter_eq_nil_iff]
  intro trace hmem
  simpa [Trace.under] using List.find?_eq_none.mp h trace hmem

theorem OncePerKey.append (honce : OncePerKey database) (hadds : Adds runtime database orgId call trace)
    (hnext : next.stored = database.stored ++ [trace.asStored]) : OncePerKey next := by
  rw [oncePerKey_iff] at honce ⊢
  intro org key
  rw [hnext, List.filter_append]
  by_cases hunder : trace.asStored.under org key = true
  · have hkeys := hunder
    rw [Trace.under, Bool.and_eq_true, decide_eq_true_eq, decide_eq_true_eq, asStored_orgId,
      asStored_idempotencyKey] at hkeys
    obtain ⟨rfl, hkey⟩ := hkeys
    have hunused := hadds.unused
    rw [← hadds.key, ← hadds.owner, hkey] at hunused
    rw [filter_eq_nil_of_unused hunused, List.nil_append]
    exact List.length_filter_le _ _
  · rw [List.filter_cons_of_neg hunder, List.filter_nil, List.append_nil]
    exact honce org key

/-- What the calls of a history keep. -/
structure Calls.Kept (runtime : Runtime) (start : Database) (calls : Calls) : Prop where
  stored : calls.database.stored = start.stored ++ calls.created.map Creation.trace
  earlier : ∀ database ∈ calls.earlier, database.stored ⊆ calls.database.stored
  created : ∀ creation ∈ calls.created, creation.trace.idempotencyKey = creation.call.key ∧
    creation.trace.requestHash = creation.call.key.map fun _ ↦ creation.call.requestHash runtime
  once : OncePerKey calls.database

variable {start : Database} {calls after : Calls} {action : KeyedAction}

theorem kept_start (hstart : ∀ trace ∈ start.traces, trace.idempotencyKey = none) :
    Calls.Kept runtime start ⟨start, [], []⟩ where
  stored := (List.append_nil _).symm
  earlier := fun _ h ↦ absurd h List.not_mem_nil
  created := fun _ h ↦ absurd h List.not_mem_nil
  once := by
    intro orgId key
    rw [List.filter_eq_nil_iff.mpr]
    · exact Nat.zero_le 1
    · intro trace hmem
      simp [Trace.under, hstart trace hmem]

theorem kept_callStep (hkept : calls.Kept runtime start) (h : callStep runtime calls action = .ok after) :
    after.Kept runtime start := by
  obtain ⟨⟨answer, next⟩, hperform, h⟩ := Py.of_bind h
  obtain rfl := Except.ok.inj h
  obtain hsame | ⟨trace, hadds, hnext⟩ := stored_perform hperform
  · refine ⟨?_, ?_, ?_, ?_⟩
    · simpa [hsame] using hkept.stored
    · rintro database (_ | ⟨_, hmem⟩)
      · exact hsame ▸ List.Subset.refl _
      · exact hsame ▸ hkept.earlier database hmem
    · simpa [hsame] using hkept.created
    · have honce := oncePerKey_iff.mp hkept.once
      rw [← hsame] at honce
      exact oncePerKey_iff.mpr honce
  · refine ⟨?_, ?_, ?_, ?_⟩
    · simp [hnext, hkept.stored]
    · rintro database (_ | ⟨_, hmem⟩)
      · exact hnext ▸ List.subset_append_left _ _
      · exact hnext ▸ List.Subset.trans (hkept.earlier database hmem) (List.subset_append_left _ _)
    · intro creation hcreation
      simp only [hnext, List.drop_left, List.map_cons, List.map_nil, List.mem_append, List.mem_singleton] at hcreation
      obtain hold | rfl := hcreation
      · exact hkept.created creation hold
      · exact ⟨hadds.key, hadds.hash⟩
    · exact hkept.once.append hadds hnext

theorem kept_run (hstart : ∀ trace ∈ start.traces, trace.idempotencyKey = none) (actions : List KeyedAction) :
    (run (callStep runtime) ⟨start, [], []⟩ actions).Kept runtime start :=
  run_invariant (fun _ _ _ hkept hstep ↦ kept_callStep hkept hstep) (kept_start hstart) actions

theorem Calls.Kept.past (hkept : calls.Kept runtime start) (age : ℕ) :
    (calls.past age).stored ⊆ calls.database.stored := by
  rw [Calls.past]
  cases age with
  | zero => exact List.Subset.refl _
  | succ age =>
    rw [List.getD_cons_succ, List.getD_eq_getElem?_getD]
    cases hearlier : calls.earlier[age]? with
    | none => exact List.Subset.refl _
    | some database => exact hkept.earlier database (List.mem_of_getElem? hearlier)

/-! ## Calls under a key that was used -/

/-- The checks that a call passes before it reads its key or stores a trace. -/
def Call.Accepted (circumstances : Circumstances) (seen database : Database) (orgId : String) : Call → Prop
  | contribute request =>
    (∃ prepared, prepareContribution circumstances request = .ok prepared) ∧
      (existing seen orgId request.idempotencyKey = none →
        checkAdmission circumstances database orgId circumstances.agentSlot
          ⟨circumstances.newId, request.title, request.contextText, request.solutionText, request.tags,
            request.agentType, request.profile⟩ "contribute_trace" = .ok ())
  | amend request =>
    (∃ outcome, prepareAmendment request = .ok outcome) ∧
      ∀ original, originalOf circumstances seen orgId request.traceId = some original →
        circumstances.permits original.scopes = true ∧
          (existing seen orgId request.idempotencyKey = none →
            checkAdmission circumstances database orgId (.ok ()) (amendedWire circumstances original request)
              "write" = .ok ())

/-- An amendment finds its trace. -/
def Call.Finds (circumstances : Circumstances) (seen : Database) (orgId : String) : Call → Prop
  | contribute _ => True
  | amend request =>
    isUuid request.traceId = true ∧ (originalOf circumstances seen orgId request.traceId).isSome = true

theorem require_bind {α : Type} {condition : Prop} [Decidable condition] {error : PyError} {value : α} :
    (do Py.require condition error; return value : Py α) = if condition then .ok value else .error error := by
  split_ifs with h <;> simp [h]

theorem perform_of_not_finds (haccepted : call.Accepted circumstances seen database orgId)
    (hfinds : ¬call.Finds circumstances seen orgId) :
    call.perform runtime circumstances seen database orgId = .ok (.amended none, database) := by
  cases call with
  | contribute request => exact absurd trivial hfinds
  | amend request =>
    obtain ⟨⟨outcome, houtcome⟩, -⟩ := haccepted
    rw [Call.perform, amendTrace]
    by_cases huuid : isUuid request.traceId = true
    · have hnone : originalOf circumstances seen orgId request.traceId = none := by
        rw [← Option.not_isSome_iff_eq_none]
        exact fun hsome ↦ hfinds ⟨huuid, hsome⟩
      rw [if_neg (by simp [huuid]), houtcome, Py.bind_ok, hnone]
      rfl
    · rw [if_pos (by simpa using huuid)]
      rfl

theorem perform_of_used (haccepted : call.Accepted circumstances seen database orgId)
    (hfinds : call.Finds circumstances seen orgId) (hseen : seen.stored ⊆ database.stored)
    (hused : (existing seen orgId call.key).or (existing database orgId call.key) = some trace) :
    call.perform runtime circumstances seen database orgId =
      if trace.requestHash = some (call.requestHash runtime) then .ok (call.replay trace, database)
      else .error call.conflict := by
  cases call with
  | contribute request =>
    obtain ⟨⟨prepared, hprepared⟩, hadmitted⟩ := haccepted
    have houtcome := outcome_of_prepareContribution hprepared
    have hreplay : ∀ found, replayOrConflict runtime found request prepared.outcome =
        if found.requestHash = some (Call.requestHash runtime (.contribute request)) then .ok found.receipt
        else .error (Call.conflict (.contribute request)) := by
      intro found
      rw [houtcome]
      exact require_bind
    rw [Call.perform, contributeTrace, hprepared, Py.bind_ok]
    change (existing seen orgId request.idempotencyKey).or (existing database orgId request.idempotencyKey) =
      some trace at hused
    cases hfirst : existing seen orgId request.idempotencyKey with
    | some found =>
      rw [hfirst, Option.some_or] at hused
      obtain rfl := Option.some.inj hused
      dsimp only
      rw [hreplay]
      split_ifs <;> rfl
    | none =>
      rw [hfirst, Option.none_or] at hused
      dsimp only
      rw [hadmitted hfirst, Py.bind_ok, hused]
      dsimp only
      rw [hreplay]
      split_ifs <;> rfl
  | amend request =>
    obtain ⟨⟨outcome, hprepared⟩, hpermitted⟩ := haccepted
    obtain ⟨huuid, hsome⟩ := hfinds
    obtain ⟨original, horiginal⟩ := Option.isSome_iff_exists.mp hsome
    obtain ⟨hpermits, hadmitted⟩ := hpermitted original horiginal
    have hreplay : ∀ found, amendReplayOrConflict runtime found request outcome =
        if found.requestHash = some (Call.requestHash runtime (.amend request)) then .ok found
        else .error (Call.conflict (.amend request)) := by
      intro found
      rw [outcome_of_prepareAmendment hprepared]
      exact require_bind
    have hkept : (database.traces.any fun found ↦ found.id = original.id) = true := by
      have hmem := hseen (mem_stored (List.mem_of_find?_eq_some horiginal))
      obtain ⟨found, hfound, heq⟩ := List.mem_map.mp hmem
      have hid : found.asStored.id = original.asStored.id := congrArg Trace.id heq
      exact List.any_eq_true.mpr ⟨found, hfound, decide_eq_true hid⟩
    rw [Call.perform, amendTrace, if_neg (by simp [huuid]), hprepared, Py.bind_ok, horiginal]
    dsimp only
    rw [hpermits, Py.require_true, Py.bind_ok]
    change (existing seen orgId request.idempotencyKey).or (existing database orgId request.idempotencyKey) =
      some trace at hused
    cases hfirst : existing seen orgId request.idempotencyKey with
    | some found =>
      rw [hfirst, Option.some_or] at hused
      obtain rfl := Option.some.inj hused
      dsimp only
      rw [hreplay]
      split_ifs <;> rfl
    | none =>
      rw [hfirst, Option.none_or] at hused
      dsimp only
      rw [hadmitted hfirst, Py.bind_ok, hkept, Py.require_true, Py.bind_ok, hused]
      dsimp only
      rw [hreplay]
      split_ifs <;> rfl

/-- A call replays the trace of the same request, and refuses every other request. -/
structure Replays (runtime : Runtime) (calls : Calls) (action : KeyedAction) (creation : Creation) : Prop where
  same : action.call.Same creation.call → ∃ trace, trace.asStored = creation.trace ∧
    action.perform runtime calls = .ok (action.call.replay trace, calls.database)
  other : ¬action.call.Same creation.call → action.perform runtime calls = .error action.call.conflict

theorem replay_ne : call.replay trace ≠ .amended none := by
  cases call <;> simp [Call.replay]

theorem used_of_created (hkept : calls.Kept runtime start) {creation : Creation}
    (hcreation : creation ∈ calls.created) (hkey : creation.trace.idempotencyKey = some key) (age : ℕ) :
    ∃ trace, (existing (calls.past age) creation.trace.orgId (some key)).or
      (existing calls.database creation.trace.orgId (some key)) = some trace ∧ trace.asStored = creation.trace := by
  have hmem : creation.trace ∈ calls.database.stored := by
    rw [hkept.stored]
    exact List.mem_append_right _ (List.mem_map.mpr ⟨creation, hcreation, rfl⟩)
  have hunder : creation.trace.under creation.trace.orgId key = true := by simp [Trace.under, hkey]
  have hfound : ∀ {database : Database}, database.stored ⊆ calls.database.stored → ∀ {trace},
      existing database creation.trace.orgId (some key) = some trace → trace.asStored = creation.trace := by
    intro database hsubset trace h
    obtain ⟨htrace, hunder'⟩ := mem_of_existing h
    exact hkept.once.eq (hsubset (mem_stored htrace)) hmem hunder' hunder
  cases hfirst : existing (calls.past age) creation.trace.orgId (some key) with
  | some trace => exact ⟨trace, rfl, hfound (hkept.past age) hfirst⟩
  | none =>
    cases hsecond : existing calls.database creation.trace.orgId (some key) with
    | some trace => exact ⟨trace, rfl, hfound (List.Subset.refl _) hsecond⟩
    | none =>
      have hnil := filter_eq_nil_of_unused hsecond
      rw [List.filter_eq_nil_iff] at hnil
      exact absurd hunder (hnil _ hmem)

namespace Retries

/-- A contribution under a key. -/
def contribution (scopes : List String) : KeyedAction :=
  ⟨Sample.calm 0 (Sample.identity 'a'), "o", 0,
    .contribute { Sample.contribution with scopes := scopes, idempotencyKey := some "key" }⟩

/-- The history of one contribution without scopes. -/
def history : Calls := run (callStep Sample.interpreter) ⟨Sample.start, [], []⟩ [contribution []]

/-- What it stores. -/
def creation : Creation :=
  ⟨(contribution []).call, { Sample.version (Sample.identity 'a') 0 none none with
      idempotencyKey := some "key"
      requestHash := some ((contribution []).call.requestHash Sample.interpreter) }⟩

theorem creation_mem : creation ∈ history.created := by decide +kernel

end Retries

end UniMem.Hub
