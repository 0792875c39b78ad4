import UniMem.FrontierProtocol.Values
import UniMem.Library.Grouping
import UniMem.Library.Json
import UniMem.Python.Collections

/-!
# Artifacts and their erasure

Each kind of artifact has a journal of signed events and a directory of blobs. An erasure removes the blobs of each
kind that no other live artifact of the kind shares.
-/

namespace UniMem.NextwaveStore

open Library FrontierProtocol

inductive Status where
  | active
  | erased
  deriving DecidableEq

/-- An event of a journal. Journals that hold no artifacts have events without a status. -/
structure Event where
  id : String
  digest : Option String
  status : Option Status
  scopes : List String
  sources : List String
  /-- The other fields. -/
  fields : Json

/-- The journal of a kind with its blobs, and those in the cold tier. -/
structure Kind where
  name : String
  events : List Event
  blobs : List String
  cold : List String

/-- The kinds in the order of their file names. -/
structure Store where
  kinds : List Kind
  distinct : (kinds.map Kind.name).Nodup

/-- The last event of each id. -/
def Kind.objects (kind : Kind) : List Event := (index Event.id kind.events).map Prod.snd

/-- `MAX_OBJECTS`. -/
def maxObjects : ℕ := 4096

/-- `latest`. -/
def latest (kind : Kind) : Py (List Event) := do
  let _ ← count kind.objects.length 0 maxObjects "UniMem artifact count"
  return kind.objects

/-- `[a-z][a-z0-9-]{0,63}`. -/
def isKindName (name : String) : Bool :=
  match name.toList with
  | [] => false
  | first :: rest => ('a' ≤ first && first ≤ 'z') && rest.length ≤ 63 &&
    rest.all fun char ↦ ('a' ≤ char && char ≤ 'z') || ('0' ≤ char && char ≤ '9') || char = '-'

/-- `kind_name`. -/
def kindName (name : String) : Py String := do
  Py.require (isKindName name) (.valueError "invalid UniMem artifact kind")
  return name

/-- The text of a qualified reference. -/
def referenceText (kind identity : String) : String := "artifact:" ++ kind ++ ":" ++ identity

/-- `reference`. -/
def reference (kind identity : String) : Py String := do
  let kind ← kindName kind
  let identity ← text identity "identifier" 512
  text (referenceText kind identity) "UniMem source reference" 256

def isHex (char : Char) : Bool := ('0' ≤ char && char ≤ '9') || ('a' ≤ char && char ≤ 'f')

/-- `_blob`: the digest names a file. -/
def blob (digest : String) : Py Unit :=
  Py.require (digest.toList.length = 64 && digest.toList.all isHex) (.valueError "invalid UniMem content digest")

/-- `tier-[a-f0-9]{32}`. -/
def isTier (name : String) : Bool :=
  name.toList.take 5 = "tier-".toList && (name.toList.drop 5).length = 32 && (name.toList.drop 5).all isHex

/-- An artifact of a snapshot. -/
structure Artifact where
  kind : String
  row : Event
  reference : String

/-- The artifacts of a kind, with their references. -/
def artifactsOf (kind : Kind) : Py (List Artifact) := do
  let objects ← latest kind
  Py.collect (Py.always fun row ↦ do return ⟨kind.name, row, ← reference kind.name row.id⟩) objects

/-- The artifacts of all kinds. -/
def artifacts (store : Store) : Py (List Artifact) := do
  return (← Py.collect (Py.always artifactsOf) store.kinds).flatten

/-- The names by which an erasure finds an artifact. -/
def Artifact.names (artifact : Artifact) : List String :=
  artifact.row.id :: artifact.reference :: artifact.row.sources

/-- Whether an artifact is erased with some names. -/
def Artifact.touched (artifact : Artifact) (deleted : List String) : Bool :=
  artifact.names.any (· ∈ deleted)

/-- The names of the artifacts that are erased with some names. -/
def affectedNames (artifacts : List Artifact) (deleted : List String) : List String :=
  (artifacts.filter (·.touched deleted)).flatMap fun artifact ↦ [artifact.row.id, artifact.reference]

/-- The loop of `_erase_sources` over derivation levels. -/
def descend (artifacts : List Artifact) : ℕ → List String → Py (List String)
  | 0, _ => .error (.valueError "UniMem erasure exceeds sixteen derivation levels")
  | levels + 1, deleted =>
    if ∀ name ∈ affectedNames artifacts deleted, name ∈ deleted then .ok deleted
    else do
      let deleted := affectedNames artifacts deleted ∪ deleted
      let _ ← count deleted.length 1 2048 "UniMem erasure descendants"
      descend artifacts levels deleted

/-- What an erasure takes from the rest of the store. -/
structure Environment where
  /-- `incident.assert_unpinned` and `safety.assert_mutable`. -/
  permitted : List String → Bool
  /-- The checks of skill folders and captures, whose other files are removed too. -/
  removable : String → Event → Bool
  /-- Whether `fp.append` accepts an event. -/
  fits : Kind → Event → Bool

/-- The digests of all versions of an artifact. -/
def Kind.versions (kind : Kind) (identity : String) : List String :=
  ((kind.events.filter (·.id = identity)).filterMap Event.digest).filter (!·.isEmpty)

/-- The tombstone of an artifact. -/
def Event.tombstone (row : Event) : Event :=
  { row with status := some .erased, fields := .null }

/-- The removal of one artifact: its blobs that are not live go, and a tombstone is written. -/
def removeArtifact (environment : Environment) (live : List String) (kind : Kind) (row : Event) :
    Py Kind := do
  if row.status = some .erased then return kind
  else
    let gone := (kind.versions row.id).filter (· ∉ live)
    gone.forM blob
    Py.require (environment.removable kind.name row) (.valueError "invalid managed UniMem skill folder")
    Py.require (environment.fits kind row.tombstone) (.valueError "journal exceeds 64 MiB; rotate it")
    return { kind with
      events := kind.events ++ [row.tombstone]
      blobs := kind.blobs.filter (· ∉ gone)
      cold := if isTier kind.name then kind.cold.filter (· ∉ gone) else kind.cold }

/-- Whether a row of a kind is erased with some names. -/
def Kind.touches (kind : Kind) (deleted : List String) (row : Event) : Bool :=
  Artifact.touched ⟨kind.name, row, referenceText kind.name row.id⟩ deleted

/-- The digests of the live artifacts that remain. -/
def Kind.live (kind : Kind) (deleted : List String) : List String :=
  (kind.objects.filter fun row ↦ !kind.touches deleted row && row.status = some .active).filterMap Event.digest

/-- The rows of a kind that an erasure visits. -/
def Kind.affected (kind : Kind) (deleted : List String) : List Event :=
  sortBy Event.id (kind.objects.filter (kind.touches deleted))

/-- The second pass of `_erase_sources` over one kind. -/
def removeKind (environment : Environment) (deleted : List String) (kind : Kind) : Py Kind :=
  (kind.affected deleted).foldlM (removeArtifact environment (kind.live deleted)) kind

/-- The kinds after an erasure of requested names. -/
def eraseSources (environment : Environment) (store : Store) (identities : List String) :
    Py (List Kind) := do
  let _ ← count identities.length 1 2048 "count"
  identities.forM fun identity ↦ do let _ ← text identity "identifier" 512
  let _ ← count store.kinds.length 0 128 "count"
  let found ← artifacts store
  let deleted ← descend found 16 identities.dedup
  Py.require (environment.permitted deleted) (.permissionError "UniMem erasure is not permitted")
  Py.collect (Py.always (removeKind environment deleted)) store.kinds

end UniMem.NextwaveStore
