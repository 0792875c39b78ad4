import UniMem.FrontierProtocol.Journal
import UniMem.FrontierProtocol.Numbers
import UniMem.FrontierProtocol.SignedRows
import UniMem.Python.Collections
import UniMem.Python.Equality
import UniMem.TransparencyLog.Tree

/-!
# Memory passports

`entry` addresses the content of one source, `build` orders the entries of a manifest and commits to them with a
Merkle root, and `verify` builds a received manifest again.
-/

namespace UniMem.Passport

open Library FrontierProtocol TransparencyLog

/-- What passports are built and verified with. -/
structure Setting where
  runtime : Runtime
  /-- `json.loads`. -/
  loads : Bytes → Option Json
  calendar : Calendar
  suite : HashSuite String

/-- `COMPONENTS`. -/
def kinds : List String := ["episodic", "semantic", "procedural", "working", "identity"]

/-- `ENTRY_FIELDS`. -/
def entryFields : List String :=
  ["parent_ids", "created_at", "version", "content", "provenance", "confidence", "timestamps", "consent_scope",
    "labels", "capability_tokens"]

/-- `MAX_ENTRIES`. -/
def maxEntries : ℕ := 64

/-- `MAX_BYTES`. -/
def maxPassportBytes : ℕ := 256 * 1024

/-- `model_digest`. -/
def modelDigest : Json → Py String
  | .str text =>
    let digits := text.toList.drop 7
    if text.toList.take 7 = "sha256:".toList ∧ digits.length = 64 ∧
        ∀ char ∈ digits, ('a' ≤ char ∧ char ≤ 'f') ∨ ('0' ≤ char ∧ char ≤ '9') then .ok text
    else .error (.valueError "UniMem producing model needs an explicit SHA-256 digest")
  | _ => .error (.valueError "UniMem producing model needs an explicit SHA-256 digest")

/-- `_hash`. -/
def hash (setting : Setting) (value : Json) : Py String := ("sha256:" ++ ·) <$> digest setting.runtime value

/-- `dict(json.loads(fp.wire(value)))`. -/
def snapshot (setting : Setting) (value : Row) : Py Row := do
  match setting.loads (← wire (.obj value)) with
  | some (.obj clean) => return clean
  | some _ => throw (.typeError "cannot convert dictionary update sequence")
  | none => throw (.valueError "Expecting value")

def mustBeObjects : PyError := .valueError "UniMem passport content and provenance must be objects"

/-- The checks of `entry` on the provenance. -/
def checkProvenance (source : Row) : Py Unit := do
  match source.lookup "source_id", source.lookup "namespace" with
  | some identity, some kind =>
    let _ ← textArgument identity "passport source id" 256
    let key ← hashKey kind
    Py.require (key ∈ [Key.text "facts", .text "lessons", .text "traces", .text "records"])
      (.valueError "UniMem unsupported canonical passport namespace")
  | _, _ => throw (.valueError "UniMem passport entry requires its canonical source namespace and id")

/-- The checks of `entry` on a list of different texts. -/
def checkNames (value : Json) (limit : ℕ) (noun : String) : Py Unit := do
  match value with
  | .arr items =>
    Py.require (items.length ≤ limit) (.valueError s!"UniMem passport {noun}s must be a bounded unique list")
    let keys ← Py.collect (Py.always hashKey) items
    Py.require keys.Nodup (.valueError s!"UniMem passport {noun}s must be a bounded unique list")
    items.forM fun item ↦ Functor.discard (textArgument item s!"passport {noun}" 256)
  | _ => throw (.valueError s!"UniMem passport {noun}s must be a bounded unique list")

/-- The checks of `entry` on the timestamps. -/
def checkTimestamps (calendar : Calendar) : Json → Py Unit
  | .obj fields => do
    Py.require (fields.length ≤ 8) (.valueError "UniMem passport timestamps must be a bounded object")
    fields.forM fun timestamp ↦ do
      let _ ← text timestamp.1 "passport timestamp field" 64
      match timestamp.2 with
      | .null => return ()
      | value => Functor.discard (moment calendar value)
  | _ => throw (.valueError "UniMem passport timestamps must be a bounded object")

/-- The checks of `entry` on the consent scope. -/
def checkConsent : Json → Py Unit
  | .obj fields => do
    let encoded ← wire (.obj fields)
    Py.require (encoded.length ≤ 8192)
      (.valueError "UniMem passport consent scope must be a bounded explicit object")
  | _ => throw (.valueError "UniMem passport consent scope must be a bounded explicit object")

def isObject : Json → Bool
  | .obj _ => true
  | _ => false

/-- The checks of `entry` on the grants. -/
def checkGrants : Json → Py Unit
  | .arr grants =>
    Py.require (grants.length ≤ 8 ∧ grants.all isObject)
      (.valueError "UniMem passport capability grants must be explicit bounded envelopes")
  | _ => throw (.valueError "UniMem passport capability grants must be explicit bounded envelopes")

/-- The checks of `entry` on the confidence. -/
def checkConfidence : Json → Py Unit
  | .null => return ()
  | value => Functor.discard (numberArgument value shareLimits "number")

/-- The checks of `entry` on what it has read back. -/
def checkEntry (setting : Setting) (clean : Row) : Py Unit := do
  let content ← field clean "content"
  let _ ← count (← wire content).length 1 32768 "passport source bytes"
  match content, ← field clean "provenance" with
  | .obj _, .obj source => checkProvenance source
  | _, _ => throw mustBeObjects
  let _ ← moment setting.calendar (← field clean "created_at")
  let _ ← textArgument (← field clean "version") "passport entry version" 128
  checkNames (← field clean "parent_ids") 64 "parent"
  checkNames (← field clean "labels") 128 "label"
  checkConfidence (← field clean "confidence")
  checkTimestamps setting.calendar (← field clean "timestamps")
  checkConsent (← field clean "consent_scope")
  checkGrants (← field clean "capability_tokens")

/-- What `entry` returns: the address of the content before its fields. -/
structure Entry where
  id : String
  clean : Row

def Entry.fields (entry : Entry) : Row := ("id", .str entry.id) :: entry.clean

/-- `entry`. -/
def entry (setting : Setting) (value : Row) : Py Entry := do
  Py.require (keysAre value entryFields)
    (.valueError "UniMem passport entry must include content and all provenance/consent fields")
  let clean ← snapshot setting value
  checkEntry setting clean
  return ⟨← hash setting (.obj clean), clean⟩

/-- The text under a name of the provenance, which `entry` has checked to be one. -/
def Entry.source (entry : Entry) (name : String) : Option String :=
  match (entry.clean.lookup "provenance").bind (Json.get? name) with
  | some (.str content) => some content
  | _ => none

/-- The namespace and the identity of the source. -/
def Entry.identity (entry : Entry) : Option String × Option String :=
    (entry.source "namespace", entry.source "source_id")

/-- Entries to be passed by component. A dictionary holds a component once. -/
structure Components where
  groups : List (String × List Row)
  nodup : (groups.map Prod.fst).Nodup

/-- `components.get(kind, [])`. -/
def Components.get (components : Components) (kind : String) : List Row := (components.groups.lookup kind).getD []

/-- `sum(len(values) for values in components.values())`. -/
def Components.count (components : Components) : ℕ := (components.groups.map fun group ↦ group.2.length).sum

/-- The checks of `build` on the components and on the source agent. -/
def checkSource (components : Components) (sourceAgent : Json) : Py Row := do
  match sourceAgent with
  | .obj agent =>
    Py.require (components.groups.all fun group ↦ group.1 ∈ kinds)
      (.valueError "UniMem passport requires known memory components and source-agent metadata")
    Py.require (keysAre agent ["name", "model_digest", "model_identity", "runtime"])
      (.valueError "UniMem passport needs explicit source-agent and model identity metadata")
    let _ ← textArgument (← field agent "name") "source agent" 128
    let _ ← modelDigest (← field agent "model_digest")
    Py.require (equal (.str "operator-declared digest; execution not attested") (← field agent "model_identity"))
      (.valueError "UniMem passport cannot claim unverified model execution")
    Py.require (equal (.str "unimem") (← field agent "runtime"))
      (.valueError "UniMem unknown passport runtime")
    return agent
  | _ => throw (.valueError "UniMem passport requires known memory components and source-agent metadata")

/-- `sorted(entries, key=lambda value: value["id"])`. -/
def sortEntries (entries : List Entry) : List Entry := entries.insertionSort fun first second ↦ first.id ≤ second.id

/-- The entries of one component in order. -/
def group (setting : Setting) (components : Components) (kind : String) : Py (List Entry) :=
  sortEntries <$> Py.collect (Py.always (entry setting)) (components.get kind)

/-- `merkle.leaf_hash`. -/
def leafHash (setting : Setting) (value : Json) : Py String :=
  (fun encoded ↦ setting.runtime.sha256 (0 :: encoded)) <$> wire value

/-- The list of a component in a manifest. -/
def listed (entries : List Entry) : Json := .arr (entries.map fun entry ↦ .obj entry.fields)

/-- The manifest before it is read back. -/
def manifestOf (createdAt : Json) (agent : Row) (groups : List (List Entry)) (count : ℕ) (root : String) : Row :=
  [("format", .str "unimem-passport"), ("schema_version", .str "1.0"), ("created_at", createdAt),
    ("source_agent", .obj agent), ("components", .obj (kinds.zip (groups.map listed))), ("entry_count", .int count),
    ("hash_algorithm", .str "sha256"), ("root_hash", .str ("sha256:" ++ root)),
    ("mapping", .str "PAM 1.0 field alignment; UniMem SHA-256 format, not PAM wire compatibility")]

/-- `build`. -/
def build (setting : Setting) (components : Components) (createdAt sourceAgent : Json) : Py Row := do
  let _ ← moment setting.calendar createdAt
  let agent ← checkSource components sourceAgent
  let _ ← count components.count 1 maxEntries "count"
  let groups ← Py.collect (Py.always (group setting components)) kinds
  Py.require (groups.flatten.map Entry.identity).Nodup
    (.valueError "UniMem a passport cannot contain repeated canonical source identities")
  let leaves ← Py.collect (Py.always fun entry ↦ leafHash setting (.obj (Entry.fields entry))) groups.flatten
  let root ← treeHash setting.suite leaves
  let value := manifestOf createdAt agent groups components.count root
  let encoded ← wire (.obj value)
  Py.require (encoded.length ≤ maxPassportBytes)
    (.valueError "UniMem passport exceeds 256 KiB; export smaller scoped segments")
  snapshot setting value

/-- The fields of an entry besides its address. -/
def contentOf (value : Row) : Row := value.filter fun field ↦ field.1 ≠ "id"

/-- The checks of `verify` on one listed entry. -/
def verifyEntry (setting : Setting) : Json → Py Row
  | .obj value => do
    Py.require (keysAre value ("id" :: entryFields))
      (.valueError "UniMem malformed content-addressed passport entry")
    let found ← entry setting (contentOf value)
    Py.require (equal (.obj found.fields) (.obj value))
      (.permissionError "UniMem passport entry content differs from its address")
    return contentOf value
  | _ => throw (.valueError "UniMem malformed content-addressed passport entry")

/-- The contents of one component of a manifest. -/
def verifyComponent (setting : Setting) (listing : Row) (kind : String) : Py (List Row) := do
  match ← field listing kind with
  | .arr values =>
    Py.require (values.length ≤ maxEntries) (.valueError "UniMem passport component exceeds its bound")
    Py.collect (Py.always (verifyEntry setting)) values
  | _ => throw (.valueError "UniMem passport component exceeds its bound")

theorem map_fst_zip_sublist {α β : Type} (first : List α) (second : List β) :
    ((first.zip second).map Prod.fst).Sublist first := by
  induction first generalizing second with
  | nil => exact List.Sublist.refl _
  | cons value first ih =>
    cases second with
    | nil => exact List.nil_sublist _
    | cons other second => exact (ih second).cons_cons value

/-- Lists for the five components. -/
def components (contents : List (List Row)) : Components where
  groups := kinds.zip contents
  nodup := (map_fst_zip_sublist kinds contents).nodup (by decide)

/-- `verify`. -/
def verify (setting : Setting) (manifest : Row) : Py Row := do
  let encoded ← wire (.obj manifest)
  Py.require (encoded.length ≤ maxPassportBytes) (.valueError "UniMem passport exceeds 256 KiB")
  match manifest.lookup "components" with
  | some (.obj listing) =>
    Py.require (keysAre listing kinds) (.valueError "UniMem passport must declare the five memory components")
    let contents ← Py.collect (Py.always (verifyComponent setting listing)) kinds
    let createdAt ← field manifest "created_at"
    let sourceAgent ← field manifest "source_agent"
    let expected ← build setting (components contents) createdAt sourceAgent
    Py.require (equal (.obj expected) (.obj manifest))
      (.permissionError "UniMem passport Merkle root, schema or manifest commitment does not match")
    return expected
  | _ => throw (.valueError "UniMem passport must declare the five memory components")

end UniMem.Passport
