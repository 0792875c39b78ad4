import UniMem.Library.Interruption
import UniMem.Library.Redelivery
import UniMem.FrontierProtocol.Arguments
import UniMem.MemoryAuthority

/-!
# The outbox of canonical changes

A streamed write stages a signed intent, commits, publishes an event for each identity that changed and removes the
intent. An intent that a crash has left is completed or dropped by the next write.
-/

namespace UniMem.ChangeStream

open Library FrontierProtocol MemoryAuthority

/-- The canonical namespaces of `intent_path`. -/
inductive Namespace where
  | facts
  | lessons
  deriving DecidableEq, Repr

def Namespace.name : Namespace → String
  | facts => "facts"
  | lessons => "lessons"

/-- `KINDS`. -/
inductive Kind where
  | assert
  | retract
  | contradict
  | supersede
  | erase
  | quarantine
  deriving DecidableEq, Repr

def Kind.name : Kind → String
  | assert => "assert"
  | retract => "retract"
  | contradict => "contradict"
  | supersede => "supersede"
  | erase => "erase"
  | quarantine => "quarantine"

/-- What `snapshot` keeps of a canonical body. -/
structure Entry where
  scopes : List String
  revision : String
  status : String
  forgotten : Bool
  contentHash : String
  predicate : String
  deriving DecidableEq

def Entry.toJson (entry : Entry) : Json :=
  .obj [("scopes", .arr (entry.scopes.map .str)), ("revision", .str entry.revision),
    ("status", .str entry.status), ("forgotten", .bool entry.forgotten),
    ("content_hash", .str entry.contentHash), ("predicate", .str entry.predicate)]

/-- A dictionary of entries, in the order of the identities. -/
structure Snapshot where
  entries : List (String × Entry)
  sorted : (entries.map Prod.fst).Pairwise (· < ·)
  deriving DecidableEq

def Snapshot.identities (state : Snapshot) : List String := state.entries.map Prod.fst

def Snapshot.get (state : Snapshot) (identity : String) : Option Entry :=
  state.entries.lookup identity

/-- The bound of `snapshot` on a namespace. -/
def checkSize (state : Snapshot) : Py ℤ :=
  count state.entries.length 0 10000 "UniMem streamed canonical namespace size"

/-- `state_hash`. -/
def stateHash (runtime : Runtime) (state : Snapshot) : Py String := do
  let lines ← Py.collect (Py.always fun item : String × Entry ↦
    wire (.arr [.str item.1, item.2.toJson])) state.entries
  return runtime.sha256 (lines.flatMap fun line ↦ line ++ [0x0a])

/-- One change of an intent. -/
structure Change where
  kind : Kind
  identity : String
  scopes : List String
  nameSpace : Namespace
  revision : String
  predicate : String
  deriving DecidableEq

def Change.toJson (change : Change) : Json :=
  .obj [("kind", .str change.kind.name), ("identity", .str change.identity),
    ("scopes", .arr (change.scopes.map .str)), ("namespace", .str change.nameSpace.name),
    ("revision", .str change.revision), ("predicate", .str change.predicate)]

/-- The kind of a change that leaves an entry. -/
def kindOf (old : Option Entry) (new : Entry) : Kind :=
  if old = none then .assert
  else if new.status = "superseded" then .supersede
  else if new.forgotten ∨ new.status ∈ ["retracted", "retired"] then .retract
  else if new.status ∈ ["quarantined", "review"] then .quarantine
  else .assert

/-- The change of an identity, with the scopes and the revision of the newest entry. -/
def changeOf (nameSpace : Namespace) (identity : String) : Option Entry → Option Entry → Option Change
  | none, none => none
  | some old, none => some ⟨.erase, identity, old.scopes, nameSpace, old.revision, old.predicate⟩
  | old, some new =>
    if old = some new then none
    else some ⟨kindOf old new, identity, new.scopes, nameSpace, new.revision, new.predicate⟩

/-- The changes that `stage` lists. -/
def changesOf (nameSpace : Namespace) (before after : Snapshot) : List Change :=
  (sortBy id (before.identities ++ after.identities).dedup).filterMap fun identity ↦
    changeOf nameSpace identity (before.get identity) (after.get identity)

/-- A `unimem.canonical-change-intent`. -/
structure Intent where
  nameSpace : Namespace
  before : String
  after : String
  changes : List Change
  transaction : String

/-- The fields that the transaction commits to. -/
def Intent.body (intent : Intent) : List (String × Json) :=
  [("type", .str "unimem.canonical-change-intent"), ("namespace", .str intent.nameSpace.name),
    ("before", .str intent.before), ("after", .str intent.after),
    ("changes", .arr (intent.changes.map Change.toJson))]

def Intent.row (intent : Intent) : List (String × Json) :=
  intent.body ++ [("transaction", .str intent.transaction)]

/-- The intent of a write. -/
def intentOf (runtime : Runtime) (nameSpace : Namespace) (before after : Snapshot) : Py Intent := do
  let beforeHash ← stateHash runtime before
  let afterHash ← stateHash runtime after
  let intent : Intent := ⟨nameSpace, beforeHash, afterHash, changesOf nameSpace before after, ""⟩
  let transaction ← digest runtime (.obj intent.body)
  return { intent with transaction }

/-- The event that `publish` records. -/
structure Event where
  kind : Kind
  target : String
  scopes : List String
  nameSpace : String
  entity : String
  predicate : String
  revision : String
  eventId : String
  deriving DecidableEq

/-- What a process runs with: its library, the keys, who writes, and the limit on signed rows. -/
structure Environment where
  runtime : Runtime
  signing : Signing
  writer : Writer
  fits : List Event → Event → Bool

/-- The contents of an intent file, whose record is the row of an intent. -/
structure File where
  intent : Intent
  signed : List (String × Json)
  record : signed.lookup "record" = some (.obj intent.row)

theorem lookup_record_of_bindWith {runtime : Runtime} {signing : Signing} {writer : Writer}
    {record signed : List (String × Json)} (h : bindWith runtime signing writer record = .ok signed) :
    signed.lookup "record" = some (.obj record) := by
  obtain ⟨found, -, hbind⟩ := Py.of_bind h
  cases found with
  | none => cases hbind
  | some bytes =>
    obtain ⟨-, rfl⟩ := Origin.bind_eq_ok_iff.mp hbind
    simp [Origin.body]

/-- `fp.sign` of an intent. -/
def sign (env : Environment) (intent : Intent) : Py File := do
  let _ ← wire (.obj intent.row)
  match h : bindWith env.runtime env.signing env.writer intent.row with
  | .error error => .error error
  | .ok signed => .ok ⟨intent, signed, lookup_record_of_bindWith h⟩

/-- `stage`: the file that it writes, unless nothing has changed. -/
def stage (env : Environment) (nameSpace : Namespace) (pending : Option File)
    (before after : Snapshot) : Py (Option File) :=
  if changesOf nameSpace before after = [] then .ok none
  else do
    Py.require pending.isNone
      (.valueError "UniMem pending canonical change outbox must recover before another write")
    let intent ← intentOf env.runtime nameSpace before after
    let file ← sign env intent
    let _ ← wire (.obj file.signed)
    return some file

/-! `_jsonl.write_json` indents what it writes. -/

/-- A line break before a line at some level. -/
def lineBreak (level : ℕ) : Bytes := 0x0a :: List.replicate (2 * level) 0x20

mutual

/-- `json.dump(value, indent=2)` of a sorted tree. -/
def indented (level : ℕ) : Json → Bytes
  | .arr [] => [0x5b, 0x5d]
  | .arr (item :: items) =>
    0x5b :: (lineBreak (level + 1) ++ indented (level + 1) item ++ indentedItems (level + 1) items ++
      lineBreak level ++ [0x5d])
  | .obj [] => [0x7b, 0x7d]
  | .obj ((key, value) :: fields) =>
    0x7b :: (lineBreak (level + 1) ++ Json.quote key ++ [0x3a, 0x20] ++ indented (level + 1) value ++
      indentedFields (level + 1) fields ++ lineBreak level ++ [0x7d])
  | value => value.encode .compact

def indentedItems (level : ℕ) : List Json → Bytes
  | [] => []
  | item :: items => 0x2c :: (lineBreak level ++ indented level item ++ indentedItems level items)

def indentedFields (level : ℕ) : List (String × Json) → Bytes
  | [] => []
  | (key, value) :: fields =>
    0x2c :: (lineBreak level ++ Json.quote key ++ [0x3a, 0x20] ++ indented level value ++ indentedFields level fields)

end

/-- `_jsonl.write_json`. -/
def writeJson (value : Json) : Bytes := indented 0 value.sortKeys ++ [0x0a]

/-- `_intent`. -/
def readIntent (env : Environment) (nameSpace : Namespace) : Option File → Py (Option Intent)
  | none => .ok none
  | some file => do
    Py.require ((writeJson (.obj file.signed)).length ≤ maxBytes)
      (.valueError "UniMem canonical change outbox exceeds its bound")
    let verified ← verify env.runtime env.signing file.signed
    Py.require (verified && file.intent.nameSpace = nameSpace)
      (.permissionError "UniMem canonical change outbox signature is invalid")
    let transaction ← digest env.runtime (.obj file.intent.body)
    Py.require (file.intent.transaction = transaction)
      (.valueError "UniMem canonical change outbox domain or commitment is invalid")
    let _ ← count file.intent.changes.length 1 2048 "UniMem canonical outbox changes"
    return some file.intent

/-- The event of a change, with the set of its scopes. -/
def eventOf (change : Change) (eventId : String) : Event where
  kind := change.kind
  target := change.identity
  scopes := sortBy id change.scopes.dedup
  nameSpace := change.nameSpace.name
  entity := ""
  predicate := change.predicate
  revision := change.revision
  eventId := eventId

/-- A text of the metadata of an event, which may be empty. -/
def metadata (value : String) : Py Unit :=
  if value = "" then .ok () else (fun _ ↦ ()) <$> text value "change metadata" 256

/-- The checks of `publish` on its arguments. -/
def checkChange (change : Change) : Py Unit := do
  let _ ← text change.identity "identifier" 512
  let _ ← count change.scopes.length 0 128 "count"
  let _ ← Py.collect (Py.always fun scope ↦ text scope "scope" 256) change.scopes
  [change.nameSpace.name, "", change.predicate, change.revision].forM metadata

/-- `fp.append` to the journal of changes. -/
def append (env : Environment) (journal : List Event) (event : Event) : Py (List Event) := do
  let _ ← count journal.length 0 (maxRows - 1) "count"
  Py.require (env.fits journal event) (.valueError "journal exceeds 64 MiB; rotate it")
  return journal ++ [event]

/-- `publish`: the journal after it. A known event identity is bound to its event. -/
def publish (env : Environment) (journal : List Event) (change : Change) (eventId : String) :
    Py (List Event) := do
  checkChange change
  (if eventId = "" then .ok () else (fun _ ↦ ()) <$> text eventId "identifier" 512)
  match (if eventId = "" then none else journal.find? fun event ↦ event.eventId = eventId) with
  | some prior =>
    if prior = eventOf change eventId then .ok journal
    else .error (.valueError "UniMem change event identity is already bound")
  | none => append env journal (eventOf change eventId)

/-- The value whose digest identifies an event of a transaction. -/
def eventName (transaction : String) (index : ℕ) : Json := .arr [.str transaction, .int index]

/-- A namespace with its outbox, and the transitions that it has committed. -/
structure State where
  canonical : Snapshot
  file : Option File
  journal : List Event
  history : List (Snapshot × Snapshot)

/-- What a process does to the store between two points at which it may stop. -/
inductive Effect where
  | stage (file : File)
  | commit (after : Snapshot)
  | publish (transaction : String) (index : ℕ) (change : Change)
  | unlink

def apply (env : Environment) (state : State) : Effect → Py State
  | .stage file => .ok { state with file := some file }
  | .commit after =>
    .ok { state with
      canonical := after
      history := state.history ++ [(state.canonical, after)] }
  | .publish transaction index change => do
    let eventId ← digest env.runtime (eventName transaction index)
    let journal ← ChangeStream.publish env state.journal change eventId
    return { state with journal }
  | .unlink => .ok { state with file := none }

/-- The loop of `complete`. -/
def publishEffects (intent : Intent) : List Effect :=
  intent.changes.zipIdx.map fun item ↦ .publish intent.transaction item.2 item.1

/-- The exceptions that `complete` counts as a pending publication. -/
def caught : PyError → Bool
  | .valueError _ => true
  | .permissionError _ => true
  | .typeError _ => true
  | _ => false

def publicationPending : PyError :=
  .runtimeError "UniMem canonical change publication is pending; repair the stream before another write"

def sourceDiffers : PyError :=
  .runtimeError
    "UniMem canonical source differs from both outbox states; operator reconciliation required"

/-- `complete`: whether the outbox is empty after it. -/
def complete (env : Environment) (nameSpace : Namespace) (state : State) : Py Bool × State :=
  match readIntent env nameSpace state.file with
  | .error error => (if caught error then .ok false else .error error, state)
  | .ok none => (.ok true, state)
  | .ok (some intent) =>
    match attempt (apply env) state (publishEffects intent ++ [.unlink]) with
    | (final, none) => (.ok true, final)
    | (final, some error) => (if caught error then .ok false else .error error, final)

/-- `recover` with the current state of the namespace. -/
def recover (env : Environment) (nameSpace : Namespace) (current : Snapshot) (state : State) :
    Py Unit × State :=
  match readIntent env nameSpace state.file with
  | .error error => (.error error, state)
  | .ok none => (.ok (), state)
  | .ok (some intent) =>
    match stateHash env.runtime current with
    | .error error => (.error error, state)
    | .ok hash =>
      if hash = intent.after then
        match complete env nameSpace state with
        | (.error error, final) => (.error error, final)
        | (.ok false, final) => (.error publicationPending, final)
        | (.ok true, final) => (.ok (), final)
      else if hash = intent.before then (.ok (), { state with file := none })
      else (.error sourceDiffers, state)

end UniMem.ChangeStream
