import UniMem.Library.Json
import UniMem.Library.Transitions
import UniMem.Library.Worklist
import UniMem.Runtime
import UniMem.Python.Collections

/-!
# The runtime journal

Versions of records, links and captures stand in tables. `put` checks a record against the scopes of its sources,
`capture` stores an event, and `forget` erases what was derived.
-/

namespace UniMem.MemoryJournal

open Library

/-- A value of a scope: a dimension or the labels. -/
inductive ScopeValue where
  | text (value : String)
  | labels (values : List String)
  deriving DecidableEq

/-- A scope: the items of the dictionary in the order of their keys. -/
abbrev Scope := List (String × ScopeValue)

inductive Kind where
  | episode
  | fact
  | entity
  | observation
  | profile
  | lesson
  | directive
  deriving DecidableEq

inductive Status where
  | proposed
  | quarantined
  | shadow
  | active
  | deprecated
  | retired
  deriving DecidableEq

/-- The keys of `relations`. -/
inductive Relation where
  | updates
  | extends
  | derives
  | supersedes
  | causedBy
  deriving DecidableEq

/-- The payload of a record: what the journal reads of it, and the rest. -/
structure Payload where
  sourceMessageIds : List String
  entity : Option String
  facet : Option String
  content : Json

/-- `MemoryRecord`. -/
structure Record where
  id : String
  kind : Kind
  version : ℕ
  payload : Payload
  status : Status
  relations : List (Relation × List String)
  scope : Scope
  /-- The fields that the journal stores and does not read. -/
  envelope : Json

/-- `record.relations.get(name, [])`. -/
def Record.related (record : Record) (name : Relation) : List String :=
  (record.relations.lookup name).getD []

/-- The ids of all relations. -/
def Record.sources (record : Record) : List String := record.relations.flatMap Prod.snd

/-- A dictionary with a key set. -/
def setRelation (relations : List (Relation × List String)) (name : Relation) (ids : List String) :
    List (Relation × List String) :=
  if (relations.lookup name).isSome then
    relations.map fun entry ↦ if entry.1 = name then (name, ids) else entry
  else relations ++ [(name, ids)]

/-- `list(dict.fromkeys(values))`. -/
def distinct (values : List String) : List String :=
  values.foldl (fun kept value ↦ if value ∈ kept then kept else kept ++ [value]) []

/-- `bind_capture_sources`. -/
def bindCaptureSources (record : Record) : Py Record := do
  Py.require (record.payload.sourceMessageIds.all (!·.isEmpty))
    (.valueError "source_message_ids must be a list of capture ids")
  return if record.payload.sourceMessageIds.isEmpty then record
    else { record with
      relations := setRelation record.relations .causedBy
        (distinct (record.related .causedBy ++ record.payload.sourceMessageIds)) }

/-- One digit of `\uXXXX`. -/
def hexDigit (value : ℕ) : Char := Nat.digitChar value

/-- `\uXXXX`. -/
def unicodeEscape (code : ℕ) : List Char :=
  ['\\', 'u', hexDigit (code / 4096 % 16), hexDigit (code / 256 % 16), hexDigit (code / 16 % 16),
    hexDigit (code % 16)]

/-- A character between quotes when `ensure_ascii` is off. -/
def escapeChar (char : Char) : List Char :=
  if char = '"' then ['\\', '"']
  else if char = '\\' then ['\\', '\\']
  else if char = '\n' then ['\\', 'n']
  else if char = '\r' then ['\\', 'r']
  else if char = '\t' then ['\\', 't']
  else if char.toNat = 8 then ['\\', 'b']
  else if char.toNat = 12 then ['\\', 'f']
  else if char.toNat < 32 then unicodeEscape char.toNat
  else [char]

def quoteText (text : String) : List Char := '"' :: (text.toList.flatMap escapeChar ++ ['"'])

/-- The text of a value, with a separator between items. -/
def ScopeValue.encode (comma : List Char) : ScopeValue → List Char
  | text value => quoteText value
  | labels values => '[' :: (comma.intercalate (values.map quoteText) ++ [']'])

/-- The text of a scope with sorted keys and `ensure_ascii` off. -/
def encodeScope (comma colon : List Char) (scope : Scope) : List Char :=
  '\x7b' :: (comma.intercalate (scope.map fun entry ↦ quoteText entry.1 ++ colon ++ entry.2.encode comma) ++ ['\x7d'])

/-- What `json_extract(body, '$.scope')` returns. -/
def scopeText (scope : Scope) : List Char := encodeScope [','] [':'] scope

/-- A character of a text with `ensure_ascii` on. -/
def asciiChar (char : Char) : List Char :=
  if char.toNat < 127 then [char]
  else if char.toNat < 65536 then unicodeEscape char.toNat
  else unicodeEscape (55296 + (char.toNat - 65536) / 1024) ++
    unicodeEscape (56320 + (char.toNat - 65536) % 1024)

/-- The same text with `ensure_ascii` on, as `json(json.dumps(scope, sort_keys=True))` has it. -/
def asciiText (scope : Scope) : List Char := (scopeText scope).flatMap asciiChar

/-- A row of `captures`. -/
structure Capture where
  id : String
  session : String
  event : String
  payload : Json
  scope : Scope

/-- The other tables with a column `id`. -/
inductive Side where
  | recordFts
  | vectors
  | injected
  | decisions
  | studies
  deriving DecidableEq

/-- The kinds of `resource_refs`. -/
inductive Resource where
  | record
  | capture
  deriving DecidableEq

/-- A row of `deliveries`: the ids and the lessons of its receipt. -/
structure Delivery where
  token : String
  ids : List String
  lessons : List String

/-- The tables of the journal. -/
structure Tables where
  /-- `record_events`. -/
  events : List Record
  /-- `records`, in the order of their row ids. -/
  records : List Record
  links : List (String × String)
  captures : List Capture
  refs : List (String × Resource)
  side : List (Side × String)
  deliveries : List Delivery

def Tables.empty : Tables := ⟨[], [], [], [], [], [], []⟩

/-- `SELECT body FROM records WHERE id=?`. -/
def Tables.record (tables : Tables) (identity : String) : Option Record :=
  tables.records.find? (·.id = identity)

/-- `SELECT … FROM captures WHERE id=?`. -/
def Tables.capture (tables : Tables) (identity : String) : Option Capture :=
  tables.captures.find? (·.id = identity)

/-- `SELECT r.body FROM links l JOIN records r ON r.id=l.derived WHERE l.source=?`. -/
def Tables.derived (tables : Tables) (source : String) : List Record :=
  (tables.links.filter (·.1 = source)).filterMap fun link ↦ tables.record link.2

/-- `INSERT OR IGNORE INTO links`. -/
def insertLink (links : List (String × String)) (link : String × String) : List (String × String) :=
  if link ∈ links then links else links ++ [link]

/-- `INSERT INTO records … ON CONFLICT(id) DO UPDATE`. -/
def putRow (records : List Record) (record : Record) : List Record :=
  if records.any (·.id = record.id) then records.map fun row ↦ if row.id = record.id then record else row
  else records ++ [record]

/-- What a write takes from the rest of the store. -/
structure Context where
  runtime : Runtime
  /-- `capabilities.CURRENT.get() is not None`. -/
  delegated : Bool
  /-- Whether `_stage_change` keeps references. -/
  streaming : Bool
  /-- `policy_io.assert_write` and the capability's checks on a written record. -/
  writable : Record → Bool
  /-- `visible(record, record.scope)` and `_runtime_readable`. -/
  readable : Record → Bool

/-- `_stage_change` on `resource_refs`. -/
def stageRef (context : Context) (refs : List (String × Resource)) (entry : String × Resource) :
    List (String × Resource) :=
  if context.streaming then refs.filter (· ≠ entry) ++ [entry] else refs

/-- The checks of `_put` on the sources of a record. -/
def checkSource (tables : Tables) (record : Record) (source : String) : Py Unit := do
  Py.require ((tables.record source).all (·.scope = record.scope))
    (.valueError "relationships cannot cross scopes")
  Py.require ((tables.capture source).all (·.scope = record.scope))
    (.valueError "capture evidence cannot cross scopes")

/-- The tables after the checks of `_put` have passed. -/
def Tables.insert (tables : Tables) (context : Context) (record : Record) : Tables :=
  { tables with
    events := tables.events ++ [record]
    records := putRow tables.records record
    refs := stageRef context tables.refs (record.id, .record)
    side := tables.side.filter (· ≠ (.recordFts, record.id)) ++ [(.recordFts, record.id)] }

/-- The version that a record must have. -/
def nextVersion (old : Option Record) : ℕ := old.elim 1 (·.version + 1)

/-- `_put` without `_refresh_facet`. -/
def putRecord (context : Context) (tables : Tables) (given : Record) (expectedVersion : Option ℕ) :
    Py (Tables × Record) := do
  let record ← bindCaptureSources given
  Py.require (context.writable record) (.permissionError "UniMem write is not permitted")
  Py.require ((tables.capture record.id).all fun shadow ↦ !context.delegated && shadow.scope = record.scope)
    (.permissionError "UniMem record identity cannot shadow a capture in another scope or delegation")
  let old := tables.record record.id
  Py.require (expectedVersion.all (· = old.elim 0 (·.version)) && record.version = nextVersion old)
    (.valueError "record version conflict")
  Py.require (old.all fun old ↦ old.kind = record.kind && old.scope = record.scope)
    (.valueError "record identity cannot change kind or scope")
  record.sources.forM (checkSource tables record)
  let linked := { tables with
    links := record.sources.foldl (fun links source ↦ insertLink links (source, record.id)) tables.links }
  Py.require ((linked.derived record.id).all (·.scope = record.scope))
    (.valueError "incoming relationships cannot cross scopes")
  Py.require (tables.events.all fun event ↦ ¬(event.id = record.id ∧ event.version = record.version))
    (.integrityError "UNIQUE constraint failed: record_events.id, record_events.version")
  return (linked.insert context record, record)

/-- A nonempty text of the payload. -/
def blank (value : Option String) : Bool :=
  value.all fun text ↦ text.toList.all fun char ↦ char.isWhitespace

/-- `json.dumps([entity, facet, scope], sort_keys=True)`. -/
def facetText (entity facet : String) (scope : Scope) : List Char :=
  ('[' :: ([',', ' '].intercalate
    [quoteText entity, quoteText facet, encodeScope [',', ' '] [':', ' '] scope] ++ [']'])).flatMap asciiChar

/-- `facet_observation`. -/
def facetObservation (context : Context) (entity facet : String) (sources : List Record)
    (previous : Option Record) : Py Record := do
  match sources.head? with
  | none => throw (.valueError "observation requires a facet and at most nine grounding facts")
  | some first =>
    Py.require (sources.length ≤ 9)
      (.valueError "observation requires a facet and at most nine grounding facts")
    Py.require (sources.all fun source ↦
        source.kind = .fact && source.status = .active && source.scope = first.scope)
      (.valueError "observation requires active facts from one scope")
    let identity := "observation-" ++ context.runtime.sha256
      (Json.utf8 (String.ofList (facetText entity facet first.scope)))
    Py.require (previous.all (·.id = identity)) (.valueError "observation identity cannot change")
    return {
      id := identity
      kind := .observation
      version := nextVersion previous
      payload := ⟨[], some entity, some facet, (sources.getLast?.map (·.payload.content)).getD .null⟩
      status := .active
      relations := [(.derives, sources.map Record.id)]
      scope := first.scope
      envelope := .null }

/-- The facts of a facet, the latest first. -/
def facetSources (context : Context) (tables : Tables) (record : Record) (entity facet : String) :
    List Record :=
  ((tables.records.reverse.filter fun row ↦ row.kind = .fact && row.payload.entity = some entity &&
      row.payload.facet = some facet && scopeText row.scope = asciiText record.scope &&
      row.id ≠ record.id && context.readable row).take 8) ++
    if context.readable record then [record] else []

/-- `_refresh_facet`. -/
def refreshFacet (context : Context) (tables : Tables) (record : Record) : Py Tables :=
  match record.payload.entity, record.payload.facet with
  | some entity, some facet =>
    if blank (some entity) ∨ blank (some facet) then .ok tables
    else
      let sources := facetSources context tables record entity facet
      if sources.isEmpty then .ok tables
      else do
        let observation ← facetObservation context entity facet sources none
        if !context.writable observation then return tables
        else
          let observation ← facetObservation context entity facet sources (tables.record observation.id)
          let (tables, _) ← putRecord context tables observation none
          return tables
  | _, _ => .ok tables

/-- `_put`. -/
def put (context : Context) (tables : Tables) (given : Record) (expectedVersion : Option ℕ) : Py Tables := do
  let (tables, record) ← putRecord context tables given expectedVersion
  if record.kind = .fact then refreshFacet context tables record else return tables

/-- `put_many`. -/
def putMany (context : Context) (tables : Tables) (records : List Record) : Py Tables := do
  Py.require (records.length ≤ 32) (.valueError "record transaction exceeds 32 versions")
  records.foldlM (fun tables record ↦ put context tables record none) tables

/-- Whether a stored capture is the one that is given. -/
def Capture.same (row given : Capture) : Bool :=
  row.session = given.session && row.scope = given.scope && row.event = given.event &&
    canonicalBytes row.payload = canonicalBytes given.payload

/-- `capture`. -/
def capture (context : Context) (tables : Tables) (given : Capture) : Py Tables := do
  Py.require (!given.session.isEmpty && given.session.length ≤ 256)
    (.valueError "capture exceeds bounded session or payload")
  Py.require (!given.id.isEmpty && given.id.length ≤ 256)
    (.valueError "capture id must be a bounded nonempty string")
  Py.require ((tables.record given.id).all fun shadow ↦ !context.delegated && shadow.scope = given.scope)
    (.permissionError "UniMem capture identity cannot shadow a record in another scope or delegation")
  Py.require ((tables.derived given.id).all (·.scope = given.scope))
    (.valueError "forward capture evidence cannot cross scopes")
  match tables.capture given.id with
  | some row =>
    Py.require (row.same given) (.valueError "capture identity belongs to another session")
    return tables
  | none =>
    return { tables with
      captures := tables.captures ++ [given]
      refs := stageRef context tables.refs (given.id, .capture) }

/-- The ids that a version names as its captures. -/
def Record.captureIds (record : Record) : List String :=
  record.payload.sourceMessageIds ++ record.related .causedBy

/-- The captures of a version: those of its scope. -/
def Tables.capturesOf (tables : Tables) (record : Record) : List Capture :=
  record.captureIds.filterMap fun source ↦ (tables.capture source).filter (·.scope = record.scope)

/-- The records that lose their source with a capture; scopes are compared as texts. -/
def Tables.sharing (tables : Tables) (record : Record) (source : String) : List String :=
  ((tables.derived source).filter fun row ↦ scopeText row.scope = asciiText record.scope).map Record.id

/-- What the loop of `_forget` pushes for a record. -/
def Tables.pushed (tables : Tables) (current : String) : List String :=
  (tables.links.filter (·.1 = current)).map Prod.snd ++
    (tables.events.filter (·.id = current)).flatMap fun event ↦
      (tables.capturesOf event).flatMap fun row ↦ tables.sharing event row.id

/-- The records for which the loop pushes something. -/
def Tables.dependents (tables : Tables) : List (String × List String) :=
  (tables.links.map Prod.fst ++ tables.events.map Record.id).dedup.map fun identity ↦
    (identity, tables.pushed identity)

/-- The ids that `_forget` deletes. -/
def Tables.deleted (tables : Tables) (identity : String) : List String :=
  Worklist.reach tables.dependents [identity] []

/-- The captures that `_forget` erases, with their scopes. -/
def Tables.captureIds (tables : Tables) (identity : String) : List (String × Scope) :=
  ((tables.capture identity).map fun row ↦ (identity, row.scope)).toList ++
    (tables.deleted identity).flatMap fun current ↦
      (tables.events.filter (·.id = current)).flatMap fun event ↦
        (current, event.scope) :: (tables.capturesOf event).map fun row ↦ (row.id, row.scope)

/-- What `_forget` is given; its checks are a flag. -/
structure Forget where
  identity : String
  reason : String
  expectedVersion : Option ℕ
  scope : Option Scope
  exactScope : Bool
  permitted : Bool

/-- Whether a scope lies within the scope of the caller. -/
def within (actual scope : Scope) : Bool :=
  actual.all fun entry ↦
    match entry.2 with
    | .text _ => scope.lookup entry.1 = some entry.2
    | .labels values => values.all fun label ↦
      match scope.lookup entry.1 with
      | some (.labels others) => label ∈ others
      | _ => false

/-- The tables without some records and captures. -/
def Tables.erase (tables : Tables) (deleted : List String) (captures : List (String × Scope)) : Tables where
  events := tables.events.filter (·.id ∉ deleted)
  records := tables.records.filter (·.id ∉ deleted)
  links := tables.links.filter fun link ↦ link.1 ∉ deleted ∧ link.2 ∉ deleted
  captures := tables.captures.filter fun row ↦ (row.id, row.scope) ∉ captures
  refs := tables.refs.filter fun entry ↦
    match entry.2 with
    | .record => entry.1 ∉ deleted
    | .capture => entry.1 ∉ captures.map Prod.fst
  side := tables.side.filter (·.2 ∉ deleted)
  deliveries := tables.deliveries.filter fun row ↦ (row.ids ++ row.lessons).all (· ∉ deleted)

/-- The owner of an identity is within the scope of the caller. -/
def authorizeForget (tables : Tables) (given : Forget) (scope : Scope) : Py Unit :=
  match tables.record given.identity, tables.capture given.identity with
  | some record, _ => check record.scope
  | none, some row => check row.scope
  | none, none => .error (.valueError "record not found")
where
  check (actual : Scope) : Py Unit :=
    Py.require (within actual scope && (!given.exactScope || actual = scope))
      (.permissionError "UniMem delegated erasure is outside authenticated ownership scope")

/-- `_forget`, with the ids that it deletes. -/
def forget (tables : Tables) (given : Forget) : Py (Tables × List String) := do
  Py.require (!blank (some given.reason)) (.valueError "erasure requires a reason")
  given.scope.elim (.ok ()) (authorizeForget tables given)
  Py.require (given.expectedVersion.all fun version ↦
      (tables.record given.identity).any (·.version = version))
    (.valueError "expiration record version changed")
  let deleted := tables.deleted given.identity
  let captures := tables.captureIds given.identity
  Py.require (given.scope.all fun scope ↦ captures.all fun entry ↦
      within entry.2 scope && (!given.exactScope || entry.2 = scope))
    (.permissionError "UniMem capture erasure would cross the authenticated ownership scope")
  Py.require given.permitted (.permissionError "UniMem erasure is not permitted")
  return (tables.erase deleted captures, deleted)

/-- The transactions on a journal. -/
inductive Action where
  | put (context : Context) (record : Record) (expectedVersion : Option ℕ)
  | putMany (context : Context) (records : List Record)
  | capture (context : Context) (given : Capture)
  | forget (given : Forget)
  /-- A row of another table for an id. -/
  | note (table : Side) (identity : String)
  | deliver (row : Delivery)

/-- One transaction. -/
def step (tables : Tables) : Action → Py Tables
  | .put context record expectedVersion => put context tables record expectedVersion
  | .putMany context records => putMany context tables records
  | .capture context given => capture context tables given
  | .forget given => do return (← forget tables given).1
  | .note table identity => .ok { tables with side := tables.side ++ [(table, identity)] }
  | .deliver row => .ok { tables with deliveries := tables.deliveries ++ [row] }

end UniMem.MemoryJournal
