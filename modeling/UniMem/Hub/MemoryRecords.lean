import UniMem.Library.JsonText
import UniMem.MemoryJournal.Grounding

/-!
# Hosted records

The hosted journal keeps every revision of a record and a projection of the latest one. An erasure deletes
what was derived from a record, whatever revision says so, and the episodes that the deleted records cite in
their own scope.
-/

namespace UniMem.Hub.MemoryRecords

open Library MemoryJournal

/-- `_ATOMIC_FACT_FORMAT`. -/
def atomicFactFormat : String := "unimem.atomic-fact.v1"

/-- Whether the provenance of a record names the format of atomic facts. -/
def isAtomicFact (record : Record) : Bool :=
  match record.provenance "atomic_fact_format" with
  | some (.str format) => format = atomicFactFormat
  | _ => false

/-- `receipt.get("source_id")` as a key: a name, or one that names no record. -/
def receiptSource : Json → Py (Option String)
  | .obj fields =>
    match fields.lookup "source_id" with
    | some (.str source) => .ok (some source)
    | some (.arr _) => .error (.typeError "unhashable type: 'list'")
    | some (.obj _) => .error (.typeError "unhashable type: 'dict'")
    | _ => .ok none
  | _ => .ok none

/-- The sources that the evidence receipts of an atomic fact name. -/
def receiptSources (record : Record) : Py (List String) :=
  if isAtomicFact record then
    match record.payload.content.get? "evidence" with
    | none | some (.obj _) | some (.str _) => .ok []
    | some (.arr receipts) => Py.collect receiptSource receipts
    | some _ => .error (.typeError "object is not iterable")
  else .ok []

def ScopeValue.json : ScopeValue → Json
  | .text value => .str value
  | .labels values => .arr (values.map .str)

/-- `json.dumps(scope, sort_keys=True)`; the keys of a scope are in order. -/
def scopeKey (scope : Scope) : Bytes :=
  (Json.obj (scope.map fun entry ↦ (entry.1, ScopeValue.json entry.2))).encode .spaced

/-- The tables of `_erasure_closure`: derivations, citations with scopes, and episodes. -/
structure Index where
  dependents : List (String × String)
  upstream : List (String × String × Bytes)
  episodes : List (String × Bytes)

def Index.empty : Index := ⟨[], [], []⟩

def indexRow (index : Index) (row : Record) : Py Index := do
  let receipts ← receiptSources row
  return {
    dependents := index.dependents ++ (row.sources ++ receipts).map fun source ↦ (source, row.id)
    upstream := index.upstream ++
      row.payload.sourceMessageIds.map fun source ↦ (row.id, source, scopeKey row.scope)
    episodes := index.episodes ++ if row.kind = .episode then [(row.id, scopeKey row.scope)] else [] }

/-- `dependents.get(current, set())`. -/
def Index.derived (index : Index) (current : String) : List String :=
  (index.dependents.filter (·.1 = current)).map Prod.snd

/-- The episodes that a record cites in the scope of the citing revision. -/
def Index.cited (index : Index) (current : String) : List String :=
  (index.upstream.filter fun entry ↦ entry.1 = current && entry.2 ∈ index.episodes).map (·.2.1)

/-- What the loop may push for a record. -/
def Index.next (index : Index) (current : String) : List String := index.derived current ++ index.cited current

/-- The records for which the loop pushes something. -/
def Index.table (index : Index) : List (String × List String) :=
  (index.dependents.map Prod.fst ++ index.upstream.map Prod.fst).map fun name ↦ (name, index.next name)

theorem successors_table (index : Index) (node : String) :
    Worklist.successors index.table node = index.next node := by
  refine Worklist.successors_map (fun name hname ↦ ?_) node
  rw [List.mem_append, not_or] at hname
  have hderived : index.derived name = [] := by
    rw [Index.derived, List.map_eq_nil_iff, List.filter_eq_nil_iff]
    intro entry hentry hsame
    exact hname.1 (List.mem_map.mpr ⟨entry, hentry, of_decide_eq_true hsame⟩)
  have hcited : index.cited name = [] := by
    rw [Index.cited, List.map_eq_nil_iff, List.filter_eq_nil_iff]
    intro entry hentry hsame
    exact hname.2 (List.mem_map.mpr ⟨entry, hentry, of_decide_eq_true (Bool.and_eq_true_iff.mp hsame).1⟩)
  rw [Index.next, hderived, hcited, List.append_nil]

/-- The loop of `_erasure_closure`: ids to visit, deleted ids and their episodes. -/
def closureLoop (index : Index) : List String → List String → List String → List String × List String
  | [], deleted, sourceEpisodes => (deleted, sourceEpisodes)
  | current :: pending, deleted, sourceEpisodes =>
    if current ∈ deleted then closureLoop index pending deleted sourceEpisodes
    else closureLoop index (((index.next current).filter (· ∉ current :: deleted)).reverse ++ pending)
      (current :: deleted) (index.cited current ++ sourceEpisodes)
termination_by pending deleted => (Worklist.unseen index.table deleted, pending.length)
decreasing_by
  · exact Prod.Lex.right _ (Nat.lt_succ_self _)
  · rename_i hdeleted
    by_cases hcurrent : current ∈ index.table.map Prod.fst
    · exact Prod.Lex.left _ _ (Worklist.unseen_cons_lt hcurrent hdeleted)
    · rw [← successors_table, Worklist.successors_eq_nil hcurrent, List.filter_nil, List.reverse_nil, List.nil_append]
      obtain hlt | heq := (Worklist.unseen_cons_le index.table deleted current).lt_or_eq
      · exact Prod.Lex.left _ _ hlt
      · rw [heq]
        exact Prod.Lex.right _ (Nat.lt_succ_self _)

/-- `_erasure_closure`: the ids to delete, and the episodes that they cite. -/
def erasureClosure (rows : List Record) (identity : String) : Py (List String × List String) := do
  let index ← rows.foldlM indexRow Index.empty
  return closureLoop index [identity] [] []

/-- The rows of one tenant. -/
structure Journal where
  /-- `MemoryRecordEvent`. -/
  events : List Record
  /-- `MemoryRecordProjection`. -/
  records : List Record
  /-- `MemoryVectorErasure`. -/
  erasures : List String

def Journal.empty : Journal := ⟨[], [], []⟩

/-- What the journal takes from the rest of the Hub. -/
structure Context where
  runtime : Runtime
  orgId : String
  vectorIndex : Bool
  /-- `memory_guard.sanitize_metadata` on a record. -/
  sanitize : Record → Record
  /-- `capability_io.runtime_prepare`, when a capability is set. -/
  prepare : Option (Record → Py (Scope × Status × Json))
  /-- `atomic_fact_from_record`. -/
  atomicFact : Record → Py Unit
  /-- `policies.permits` of the active policy. -/
  permits : Record → Bool
  /-- `delegation.stamp_record`. -/
  stamp : Record → Py Unit
  /-- `capability_io.permits` on a facet of a record. -/
  mayRefresh : Record → Bool
  /-- `visible(record, record.scope)`. -/
  visible : Record → Bool
  /-- `capability_io.assert_forget`, when a capability is set. -/
  assertForget : Option (Record → Py Unit)
  /-- `retention.active_holds`. -/
  held : Bool

/-- `{**scope, "tenant": org_id}`, with the keys in order. -/
def withTenant (orgId : String) (scope : Scope) : Scope :=
  (scope.filter (·.1 ≠ "tenant")).orderedInsert (fun first second ↦ first.1 ≤ second.1) ("tenant", .text orgId)

/-- `sanitize_record_content`: the sources of a record are not redacted. -/
def sanitizeRecord (context : Context) (record : Record) : Record :=
  { context.sanitize record with
    id := record.id
    scope := record.scope
    relations := record.relations
    payload := { (context.sanitize record).payload with sourceMessageIds := record.payload.sourceMessageIds } }

def runtimePrepare (context : Context) (record : Record) : Py Record :=
  match context.prepare with
  | none => .ok record
  | some prepare => do
    let (scope, status, envelope) ← prepare record
    return { record with scope, status, envelope }

/-- `session.get(MemoryRecordProjection, (org_id, identity))`. -/
def Journal.record (journal : Journal) (identity : String) : Option Record :=
  journal.records.find? (·.id = identity)

/-- `_put`. -/
def putRow (context : Context) (journal : Journal) (given : Record) : Py Journal := do
  let record ← runtimePrepare context given
  Py.require (context.permits record)
    (.permissionError "UniMem active finite policy denies this hosted memory write")
  Py.require (record.id ∉ journal.erasures) (.valueError "record identity has pending vector erasure")
  let old := journal.record record.id
  Py.require (record.version = nextVersion old) (.valueError "record version conflict")
  Py.require (old.all fun old ↦ old.kind = record.kind && old.scope = record.scope)
    (.valueError "record identity cannot change kind or scope")
  Py.require ((journal.records.filter (record.id ∈ ·.sources)).all (·.scope = record.scope))
    (.valueError "forward record relationships cannot cross scopes")
  Py.require (record.sources.all fun source ↦ (journal.record source).all (·.scope = record.scope))
    (.valueError "record relationships cannot cross scopes")
  context.stamp record
  Py.require (journal.events.all fun event ↦ ¬(event.id = record.id ∧ event.version = record.version))
    (.valueError "concurrent record version conflict")
  return { journal with
    events := journal.events ++ [record]
    records := MemoryJournal.putRow journal.records record }

/-- The facts of a facet in the order of their ids, and the record itself. -/
def facetSources (context : Context) (journal : Journal) (record : Record) (entity facet : String) : List Record :=
  ((sortBy Record.id (journal.records.filter fun row ↦ row.scope = record.scope && row.kind = .fact &&
      row.payload.entity = some entity && row.payload.facet = some facet)).filter fun row ↦
        row.id ≠ record.id && context.visible row).take 8 ++
    if context.visible record then [record] else []

/-- What `facet_observation` takes from a context. -/
def Context.local (context : Context) : MemoryJournal.Context :=
  ⟨context.runtime, context.prepare.isSome, false, context.permits, context.visible⟩

/-- `_refresh_facet`. -/
def refreshFacet (context : Context) (journal : Journal) (record : Record) : Py Journal :=
  if context.prepare.isSome && !context.mayRefresh record then .ok journal
  else
    match record.payload.entity, record.payload.facet with
    | some entity, some facet =>
      if blank (some entity) ∨ blank (some facet) then .ok journal
      else
        let sources := facetSources context journal record entity facet
        if sources.isEmpty then .ok journal
        else do
          let observation ← facetObservation context.local entity facet sources none
          if !context.permits observation then return journal
          else
            let observation ← facetObservation context.local entity facet sources (journal.record observation.id)
            putRow context journal observation
    | _, _ => .ok journal

/-- The check of `put` on the envelope of an atomic fact. -/
def checkAtomicFact (context : Context) (record : Record) : Py Unit :=
  if (record.provenance "atomic_fact_format").isSome then context.atomicFact record else .ok ()

/-- `put`. -/
def put (context : Context) (journal : Journal) (given : Record) : Py Journal := do
  Py.require ((given.scope.lookup "tenant").all (· = .text context.orgId))
    (.valueError "record tenant cannot override authenticated organization")
  let record ← bindCaptureSources
    { sanitizeRecord context given with scope := withTenant context.orgId given.scope }
  let record ← runtimePrepare context record
  checkAtomicFact context record
  let journal ← putRow context journal record
  if record.kind = .fact then refreshFacet context journal record else return journal

/-- A stated preference: the id of its profile and its payload. -/
structure Preference where
  identity : String
  content : Json

/-- The profile that a preference of an episode updates. -/
def profileOf (journal : Journal) (context : Scope) (envelope : Json) (episode : String) (preference : Preference) :
    Record where
  id := preference.identity
  kind := .profile
  version := nextVersion (journal.record preference.identity)
  payload := ⟨[episode], none, none, preference.content⟩
  status := .active
  relations := [(.derives, [episode])]
  scope := context
  envelope := envelope

/-- A turn: its episode, the preferences that it states and their envelope. -/
structure Turn where
  episode : String
  content : Json
  envelope : Json
  scope : Scope
  preferences : List Preference
  profile : Json

/-- `capture_turn`. -/
def captureTurn (context : Context) (journal : Journal) (turn : Turn) : Py Journal := do
  let scope := withTenant context.orgId turn.scope
  let episode := sanitizeRecord context
    ⟨turn.episode, .episode, 1, ⟨[], none, none, turn.content⟩, .active, [], scope, turn.envelope⟩
  let journal ← putRow context journal episode
  turn.preferences.foldlM (fun journal preference ↦
    putRow context journal (profileOf journal scope turn.profile episode.id preference)) journal

/-- What `forget` is given. -/
structure Request where
  identity : String
  reason : String
  expectedVersion : Option ℤ
  scope : Option Scope
  expectedDigest : Option String
  /-- `digest(current.record)`. -/
  digest : Record → String

/-- A check on the projection of the record that is erased. -/
def checkCurrent (journal : Journal) (identity : String) (check : Record → Py Unit) : Py Unit :=
  match journal.record identity with
  | none => .error (.valueError "record not found")
  | some current => check current

/-- The checks of `forget`. -/
def checkForget (context : Context) (journal : Journal) (request : Request) : Py Unit := do
  Py.require (!blank (some request.reason)) (.valueError "erasure requires a reason")
  Py.require (request.expectedVersion.all (1 ≤ ·)) (.valueError "expected version must be a positive integer")
  request.scope.elim (.ok ()) fun scope ↦ checkCurrent journal request.identity fun current ↦
    Py.require (current.scope = withTenant context.orgId scope)
      (.permissionError "only the owning scoped principal can erase this record")
  context.assertForget.elim (.ok ()) (checkCurrent journal request.identity)
  Py.require (!context.held)
    (.permissionError "an active legal hold blocks record erasure; release it explicitly")
  Py.require ((request.expectedVersion.isNone && request.expectedDigest.isNone) ||
      (journal.record request.identity).any fun current ↦
        request.expectedVersion.all (· = current.version) && request.expectedDigest.all (· = request.digest current))
    (.valueError "expiration record version changed")

/-- The rows without some records. -/
def Journal.erase (journal : Journal) (vectorIndex : Bool) (deleted : List String) : Journal where
  events := journal.events.filter (·.id ∉ deleted)
  records := journal.records.filter (·.id ∉ deleted)
  erasures := if vectorIndex then journal.erasures ∪ deleted else journal.erasures

/-- `forget`, with the ids that it deletes. -/
def forget (context : Context) (journal : Journal) (request : Request) : Py (Journal × List String) := do
  checkForget context journal request
  let (deleted, sourceEpisodes) ← erasureClosure journal.events request.identity
  context.assertForget.elim (.ok ()) (journal.events.filter (·.id ∈ sourceEpisodes)).forM
  return (journal.erase context.vectorIndex deleted, deleted)

/-- The transactions on a journal. -/
inductive Action where
  | put (context : Context) (record : Record)
  | captureTurn (context : Context) (turn : Turn)
  | forget (context : Context) (request : Request)
  /-- `retry_vector_erasures`: some erasures are completed. -/
  | completeErasures (identities : List String)

/-- One transaction. -/
def step (journal : Journal) : Action → Py Journal
  | .put context record => put context journal record
  | .captureTurn context turn => captureTurn context journal turn
  | .forget context request => Prod.fst <$> forget context journal request
  | .completeErasures identities => .ok { journal with erasures := journal.erasures.filter (· ∉ identities) }

end UniMem.Hub.MemoryRecords
