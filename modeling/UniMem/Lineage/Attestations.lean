import UniMem.FrontierProtocol.Arguments
import UniMem.FrontierProtocol.Journal
import UniMem.Library.Digraph
import UniMem.Library.Transitions

/-!
# Derivation attestations

`_snapshot` folds the attestations of a journal into objects and derivation edges, and goes on from what its process
has folded. `attest` publishes a statement; `prepare` signs one for later.
-/

namespace UniMem.Lineage

open Library FrontierProtocol

/-- The keys of `LEVELS`. -/
inductive Integrity where
  | unknown
  | external
  | tool
  | agent
  | user
  | operator
  | reviewed
  deriving DecidableEq

/-- `LEVELS`. -/
def Integrity.rank : Integrity → ℤ
  | unknown => -1
  | external => 0
  | tool => 1
  | agent => 1
  | user => 2
  | operator => 3
  | reviewed => 4

def Integrity.name : Integrity → String
  | unknown => "unknown"
  | external => "external"
  | tool => "tool"
  | agent => "agent"
  | user => "user"
  | operator => "operator"
  | reviewed => "reviewed"

/-- `LEVELS.get(authority, -1)`. -/
def rankOf (authority : Json) : ℤ :=
  match authority with
  | .str name =>
    (([.unknown, .external, .tool, .agent, .user, .operator, .reviewed] : List Integrity).find?
      fun level ↦ level.name = name).elim (-1) Integrity.rank
  | _ => -1

/-- The level of a rank. -/
def levelOf (rank : ℤ) : Py Integrity :=
  (([.unknown, .external, .agent, .user, .operator] : List Integrity).find?
    fun level ↦ level.rank = rank).elim (.error .stopIteration) .ok

/-- An attestation. Its inputs have the hashes of their contents, and no labels mean `public`. -/
structure Statement where
  id : String
  inputs : List (String × String)
  operation : String
  modelId : String
  promptHash : String
  createdAt : String
  actor : Json
  contentHash : String
  integrity : Integrity
  rootOrigins : List String
  confidentiality : List String
  /-- What `capability_io.delegation` adds. -/
  delegation : Option Json
  /-- The experiment and the arm of the reader. -/
  experiment : Option (String × String)
  lineageDigest : String

/-- The fields that the digest of a statement covers. -/
def Statement.body (statement : Statement) : Row :=
  [("kind", .str "attestation"), ("id", .str statement.id),
    ("inputs", .arr (statement.inputs.map fun parent ↦
      .obj [("id", .str parent.1), ("content_hash", .str parent.2)])),
    ("operation", .str statement.operation), ("model_id", .str statement.modelId),
    ("prompt_hash", .str statement.promptHash), ("created_at", .str statement.createdAt),
    ("actor", statement.actor), ("content_hash", .str statement.contentHash),
    ("integrity", .str statement.integrity.name), ("root_origins", .arr (statement.rootOrigins.map .str)),
    ("confidentiality",
      if statement.confidentiality.isEmpty then .str "public"
      else .arr (statement.confidentiality.map .str))] ++
  statement.delegation.elim [] (fun value ↦ [("delegation", value)]) ++
  statement.experiment.elim [] (fun context ↦ [("experiment", .str context.1), ("arm", .str context.2)])

/-- The rows of the journal. -/
inductive Event where
  | attestation (statement : Statement)
  | review (id : String) (receipt : Row) (contentHash : String)
  | corroboration (id : String) (supporters rootOrigins : List String) (contentHash : String)
  | taint (id reason : String)

def Event.row : Event → Row
  | attestation statement => statement.body ++ [("lineage_digest", .str statement.lineageDigest)]
  | review id receipt contentHash =>
    [("kind", .str "review"), ("id", .str id), ("receipt", .obj receipt), ("content_hash", .str contentHash)]
  | corroboration id supporters rootOrigins contentHash =>
    [("kind", .str "corroboration"), ("id", .str id), ("supporters", .arr (supporters.map .str)),
      ("root_origins", .arr (rootOrigins.map .str)), ("integrity", .str "reviewed"),
      ("content_hash", .str contentHash)]
  | taint id reason => [("kind", .str "taint"), ("id", .str id), ("reason", .str reason)]

/-- `_Lineage`. A set is a list, and its duplicates do not matter. -/
structure Snapshot where
  count : ℕ
  tip : String
  objects : List (String × Statement)
  up : List (String × List String)
  down : List (String × List String)
  taints : List (String × String)
  tainted : List (String × List String)

def Snapshot.empty : Snapshot := ⟨0, "", [], [], [], [], []⟩

/-- `objects[identity] = row`. -/
def putObject (objects : List (String × Statement)) (statement : Statement) : List (String × Statement) :=
  if (objects.lookup statement.id).isSome then
    objects.map fun entry ↦ if entry.1 = statement.id then (entry.1, statement) else entry
  else objects ++ [(statement.id, statement)]

/-- The edges of a statement. -/
def Snapshot.derive (snapshot : Snapshot) (identity parent : String) : Snapshot :=
  { snapshot with
    up := insertGroup identity parent snapshot.up
    down := insertGroup parent identity snapshot.down }

/-- A review or a corroboration of the current content of an object. -/
def Snapshot.raise (snapshot : Snapshot) (identity contentHash : String) : Snapshot :=
  { snapshot with
    objects := snapshot.objects.map fun entry ↦
      if entry.1 = identity ∧ entry.2.contentHash = contentHash then
        (entry.1, { entry.2 with integrity := .reviewed })
      else entry }

/-- The body of the loop of `_snapshot_locked`. -/
def Snapshot.add (snapshot : Snapshot) : Event → Snapshot
  | .attestation statement => statement.inputs.foldl (fun next parent ↦ next.derive statement.id parent.1)
      { snapshot with objects := putObject snapshot.objects statement }
  | .review identity _ contentHash => snapshot.raise identity contentHash
  | .corroboration identity _ _ contentHash => snapshot.raise identity contentHash
  | .taint identity reason =>
    { snapshot with
      taints := snapshot.taints ++ [(identity, reason)]
      tainted := insertGroup identity reason snapshot.tainted }

/-- What the functions take from the rest of the store. -/
structure Authority where
  runtime : Runtime
  /-- `memory_authority.verify(root, receipt, record)`. -/
  authentic : Row → Row → Bool
  /-- The signature that `fp.sign` adds to a statement. -/
  sign : Statement → String
  /-- `fp.verify` of a statement with a signature. -/
  verify : Statement → String → Bool
  /-- The digest of the last signed row of a journal, empty when there is none. -/
  tip : List Event → String
  /-- The time at which a row is recorded, by the number of the row. -/
  recordedAt : ℕ → String

/-- The rows that a process folds, after those that it has folded before. -/
def Snapshot.follow (authority : Authority) (snapshot : Snapshot) (journal : List Event) : Snapshot :=
  { (journal.drop snapshot.count).foldl Snapshot.add snapshot with
    count := journal.length
    tip := authority.tip journal }

/-- Whether the rows of a cached snapshot are no longer those of the journal. -/
def Snapshot.outdated (authority : Authority) (snapshot : Snapshot) (journal : List Event) : Bool :=
  journal.length < snapshot.count ||
    (snapshot.count ≠ 0 && authority.tip (journal.take snapshot.count) ≠ snapshot.tip)

/-- `_snapshot_locked`. -/
def refresh (authority : Authority) (cached : Option Snapshot) (journal : List Event) : Snapshot :=
  match cached with
  | none => Snapshot.empty.follow authority journal
  | some snapshot =>
    if snapshot.count = journal.length ∧ snapshot.tip = authority.tip journal then snapshot
    else if snapshot.outdated authority journal then Snapshot.empty.follow authority journal
    else snapshot.follow authority journal

/-- `edges.get(item, set())`. -/
def neighbors (edges : List (String × List String)) (item : String) : List String :=
  (edges.lookup item).getD []

/-- `walk`. -/
def walk (edges : List (String × List String)) (identity : String) : Py (List String) := do
  let _ ← text identity "identifier" 512
  (search (neighbors edges) 2000 [identity] [identity]).elim
    (.error (.valueError "lineage exceeds 2000 nodes; use a scoped store"))
    fun seen ↦ .ok (sortBy id (seen.filter (· ≠ identity)))

/-- `ancestors`. -/
def Snapshot.ancestors (snapshot : Snapshot) (identity : String) : Py (List String) :=
  walk snapshot.up identity

/-- `descendants`. -/
def Snapshot.descendants (snapshot : Snapshot) (identity : String) : Py (List String) :=
  walk snapshot.down identity

/-- The owners of labels by dimension, in `_check_source_scopes`. -/
def owners (labels : List String) : Py (List (String × List String)) := do
  Py.require (labels.length ≤ 128) (.valueError "scope labels must be a bounded list")
  Py.require (labels.all fun label ↦ 1 ≤ label.length && label.length ≤ 256)
    (.valueError "invalid scope label")
  return (group Prod.fst (labels.map fun label ↦
    (String.ofList (label.toList.takeWhile (· ≠ ':')),
      String.ofList ((label.toList.dropWhile (· ≠ ':')).drop 1)))).map
    fun entry ↦ (entry.1, entry.2.map Prod.snd)

/-- `_check_source_scopes`. -/
def checkSourceScopes (derived : List String) (sources : List (List String)) : Py Unit := do
  let wanted ← owners derived
  sources.forM fun source ↦ do
    let dimensions ← owners source
    Py.require (dimensions.all fun entry ↦ (wanted.lookup entry.1).any fun values ↦
        values.all (· ∈ entry.2) && entry.2.all (· ∈ values))
      (.permissionError "derived memory must preserve every authenticated source owner scope")

/-- What `attest` and `prepare` are given. -/
structure Request where
  record : Row
  receipt : Row
  inputs : List String
  operation : String
  modelId : String
  promptHash : String

/-- The clock, the delegation in force and the arm of the reader. -/
structure Context where
  now : String
  delegation : Option Json
  experiment : Option (String × String)

/-- The labels of a record. -/
def scopesOf (record : Row) : Py (List String) :=
  match (record.lookup "scopes").getD (.arr []) with
  | .arr labels => do
    Py.require (labels.length ≤ 128) (.valueError "derivation scopes must be a bounded list")
    Py.collect (Py.always fun label ↦ textArgument label "scope" 256) labels
  | _ => .error (.valueError "derivation scopes must be a bounded list")

/-- `{k: v for k, v in record.items() if k != "id"}`. -/
def content (record : Row) : Json := .obj (record.filter fun entry ↦ entry.1 ≠ "id")

/-- A derivation, when it closes no cycle of the snapshot. -/
def checkInputs (snapshot : Snapshot) (request : Request) : Py (String × List String) := do
  let identity ← textArgument ((request.record.lookup "id").getD (.str "")) "identifier" 512
  let _ ← count request.inputs.length 0 256 "input count"
  let items ← Py.collect (Py.always fun item ↦ text item "identifier" 512) request.inputs
  let inputs := sortBy id items.dedup
  Py.require (identity ∉ inputs) (.valueError "self derivation is forbidden")
  let cyclic ← Py.any (fun parent ↦ do return identity ∈ (← snapshot.ancestors parent)) inputs
  Py.require (!cyclic) (.valueError "derivation cycle")
  return (identity, inputs)

/-- The rank of a derivation: the least of its sources. -/
def rank (snapshot : Snapshot) (receipt : Row) (identity : String) (inputs : List String) : ℤ :=
  let own := rankOf ((receipt.lookup "authority").getD (.str "unknown"))
  let sources := inputs.map fun item ↦ ((snapshot.objects.lookup item).elim .unknown Statement.integrity).rank
  let before := (snapshot.objects.lookup identity).elim [] fun old ↦ [old.integrity.rank]
  (sources ++ before).foldl min own

/-- The origins of a derivation. -/
def origins (snapshot : Snapshot) (receipt : Row) (inputs : List String) : Py (List String) :=
  if inputs.isEmpty then do
    return [← textArgument (← field receipt "principal") "identifier" 512]
  else
    .ok (sortBy id (inputs.flatMap fun item ↦
      (snapshot.objects.lookup item).elim [] Statement.rootOrigins).dedup)

/-- The labels of the sources that are not public. -/
def inheritedScopes (snapshot : Snapshot) (inputs : List String) : List (List String) :=
  inputs.filterMap fun item ↦ (snapshot.objects.lookup item).bind fun source ↦
    if source.confidentiality.isEmpty then none else some source.confidentiality

/-- A lesson keeps the owners of its sources. -/
def checkLesson (operation : String) (scopes : List String) (inherited : List (List String)) : Py Unit :=
  if operation = "lesson" then checkSourceScopes scopes inherited else .ok ()

/-- A statement with its digest. -/
def Statement.seal (runtime : Runtime) (statement : Statement) : Py Statement := do
  return { statement with lineageDigest := ← digest runtime (.obj statement.body) }

/-- `_attest` without its last step. -/
def attestation (authority : Authority) (snapshot : Snapshot) (request : Request) (context : Context) :
    Py Statement := do
  Py.require (authority.authentic request.receipt request.record)
    (.permissionError "derivation requires an authenticated content receipt")
  let (identity, inputs) ← checkInputs snapshot request
  let parents := inputs.map fun item ↦
    (item, (snapshot.objects.lookup item).elim "unknown" Statement.contentHash)
  let level ← levelOf (rank snapshot request.receipt identity inputs)
  let roots ← origins snapshot request.receipt inputs
  let operation ← text request.operation "identifier" 512
  let modelId ← text request.modelId "identifier" 512
  let actor ← field request.receipt "principal"
  let contentHash ← digest authority.runtime (content request.record)
  let scopes ← scopesOf request.record
  let inherited := inheritedScopes snapshot inputs
  checkLesson operation scopes inherited
  Statement.seal authority.runtime
    { id := identity, inputs := parents, operation := operation, modelId := modelId,
      promptHash := request.promptHash, createdAt := context.now, actor := actor,
      contentHash := contentHash, integrity := level, rootOrigins := roots,
      confidentiality := sortBy id (scopes ++ inherited.flatten).dedup,
      delegation := context.delegation, experiment := context.experiment, lineageDigest := "" }

/-- `fp.append(root, JOURNAL, record)`. -/
def append (authority : Authority) (journal : List Event) (event : Event) : Py (List Event) := do
  let _ ← count journal.length 0 (maxRows - 1) "count"
  let _ ← wire (.obj (sequenced event.row journal.length (authority.tip journal)
    (authority.recordedAt journal.length)))
  return journal ++ [event]

/-- A statement with its signature. -/
structure Signed where
  statement : Statement
  signature : String

/-- `prepare`. -/
def prepare (authority : Authority) (snapshot : Snapshot) (request : Request) (context : Context) :
    Py Signed := do
  let statement ← attestation authority snapshot
    { request with modelId := "unspecified", promptHash := "" } context
  let _ ← wire (.obj (Event.attestation statement).row)
  return ⟨statement, authority.sign statement⟩

/-- Whether a row publishes a statement with a digest. -/
def Event.publishes (digest : String) : Event → Bool
  | attestation statement => statement.lineageDigest = digest
  | _ => false

/-- `commit_prepared`. -/
def commitPrepared (authority : Authority) (journal : List Event) (signed : Signed) :
    Py (List Event) := do
  Py.require (authority.verify signed.statement signed.signature)
    (.permissionError "UniMem lineage outbox signature rejected")
  let expected ← digest authority.runtime (.obj signed.statement.body)
  Py.require (signed.statement.lineageDigest = expected)
    (.valueError "UniMem lineage outbox commitment rejected")
  if journal.any (Event.publishes signed.statement.lineageDigest) then return journal
  else append authority journal (.attestation signed.statement)

/-- `taint`, on a snapshot that may be older than the journal. -/
def taint (authority : Authority) (snapshot : Snapshot) (journal : List Event) (identity reason : String) :
    Py (List Event) := do
  let _ ← text identity "identifier" 512
  if reason ∈ (snapshot.tainted.lookup identity).getD [] then return journal
  else
    let _ ← text reason "identifier" 2048
    append authority journal (.taint identity reason)

/-- What `corroborate` is given, with the weights of the origins in the causal gate. -/
structure Quorum where
  identity : String
  supporters : List String
  k : ℤ
  minimumWeight : ℚ
  weights : String → Option ℚ

/-- Whether a supporter counts, after the origins of other supporters. -/
def supports (quorum : Quorum) (target row : Statement) (seen : List String) : Bool :=
  row.contentHash = target.contentHash && !row.rootOrigins.isEmpty &&
    row.rootOrigins.all (· ∉ seen) &&
    row.rootOrigins.all fun source ↦ (quorum.weights source).any (quorum.minimumWeight ≤ ·)

/-- The supporters that count, and their origins. -/
def quorumOf (quorum : Quorum) (snapshot : Snapshot) (target : Statement) : List String × List String :=
  (sortBy id quorum.supporters.dedup).foldl (fun (accepted, seen) supporter ↦
    match snapshot.objects.lookup supporter with
    | none => (accepted, seen)
    | some row =>
      if supports quorum target row seen then (accepted ++ [supporter], seen ++ row.rootOrigins)
      else (accepted, seen)) ([], [])

/-- `corroborate`, on a snapshot that may be older than the journal. -/
def corroborate (authority : Authority) (snapshot : Snapshot) (journal : List Event) (quorum : Quorum) :
    Py (List Event) := do
  let _ ← count quorum.k 2 32 "quorum"
  Py.require (0 ≤ quorum.minimumWeight ∧ quorum.minimumWeight ≤ 1) (.valueError "invalid number")
  let _ ← count quorum.supporters.length 0 256 "count"
  match snapshot.objects.lookup quorum.identity with
  | none => throw (.valueError "unknown attested object")
  | some target =>
    let (accepted, seen) := quorumOf quorum snapshot target
    Py.require (¬(accepted.length < quorum.k))
      (.valueError "independent-origin reputation quorum not met")
    append authority journal
      (.corroboration quorum.identity accepted (sortBy id seen.dedup) target.contentHash)

/-- What `review` is given: a lesson, and whether the receipt admits it. -/
structure Review where
  identity : String
  receipt : Row
  hasLesson : Bool
  eligible : Bool

/-- `review`, on a snapshot that may be older than the journal. -/
def review (authority : Authority) (snapshot : Snapshot) (journal : List Event) (given : Review) :
    Py (List Event) := do
  Py.require given.hasLesson (.valueError "review requires an authoritative lesson")
  Py.require given.eligible
    (.permissionError "a current content-bound lesson-admission receipt is required")
  match snapshot.objects.lookup given.identity with
  | none => return journal
  | some row => append authority journal (.review given.identity given.receipt row.contentHash)

/-- The journal, the kept snapshots, and the prepared statements. -/
structure World where
  journal : List Event
  caches : ℕ → Option Snapshot
  prepared : List Signed

/-- The calls of the processes. Those without the lock say how many rows they read. -/
inductive Action where
  | attest (process : ℕ) (request : Request) (context : Context)
  | prepare (process : ℕ) (request : Request) (context : Context)
  | commitPrepared (signed : Signed)
  | taint (seen : ℕ) (identity reason : String)
  | corroborate (seen : ℕ) (quorum : Quorum)
  | review (seen : ℕ) (given : Review)
  /-- A snapshot for a reader. -/
  | read (process : ℕ)

/-- The snapshot of a process. -/
def World.snapshot (authority : Authority) (world : World) (process : ℕ) : Snapshot :=
  refresh authority (world.caches process) world.journal

/-- The snapshot of an earlier journal. -/
def World.seen (authority : Authority) (world : World) (rows : ℕ) : Snapshot :=
  Snapshot.empty.follow authority (world.journal.take rows)

/-- The world after a process has kept its snapshot. -/
def World.keep (authority : Authority) (world : World) (process : ℕ) : World :=
  { world with caches := Function.update world.caches process (some (world.snapshot authority process)) }

/-- One call. -/
def step (authority : Authority) (world : World) : Action → Py World
  | .attest process request context => do
    let statement ← attestation authority (world.snapshot authority process) request context
    let journal ← append authority world.journal (.attestation statement)
    return { world.keep authority process with journal := journal }
  | .prepare process request context => do
    let signed ← prepare authority (world.snapshot authority process) request context
    return { world.keep authority process with prepared := world.prepared ++ [signed] }
  | .commitPrepared signed => do
    return { world with journal := ← commitPrepared authority world.journal signed }
  | .taint seen identity reason => do
    return { world with
      journal := ← taint authority (world.seen authority seen) world.journal identity reason }
  | .corroborate seen quorum => do
    return { world with journal := ← corroborate authority (world.seen authority seen) world.journal quorum }
  | .review seen given => do
    return { world with journal := ← review authority (world.seen authority seen) world.journal given }
  | .read process => .ok (world.keep authority process)

/-- The empty journal. -/
def World.initial : World := ⟨[], fun _ ↦ none, []⟩

end UniMem.Lineage
