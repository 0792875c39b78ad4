import UniMem.Library.Grouping
import UniMem.Library.Json
import UniMem.Library.Transitions
import UniMem.Python.Collections
import UniMem.TransparencyLog.ConsistencyWalk

/-!
# The edge cache

An edge device keeps the signed bundles it accepts in a journal. After 32 bundles the journal is replaced
by the latest one with the hazards of all. `recall` reads the latest bundle and every hazard.
-/

namespace UniMem.Robotics

open Library FrontierProtocol TransparencyLog

variable {Hash : Type}

/-- An item of a manifest. -/
structure Item where
  id : String
  text : String
  hazard : Bool
  /-- The other fields in canonical form. -/
  fields : Json

/-- A signed manifest. -/
structure Manifest where
  type : String
  items : List Item
  /-- The other fields and the signature in canonical form. -/
  envelope : Json

/-- The record of a signed tree head. -/
structure Head (Hash : Type) where
  treeSize : ℕ
  rootHash : Hash

/-- The receipt of a log entry: the leaf, the digest and the head. -/
structure Anchor (Hash : Type) where
  leaf : ℕ
  manifestDigest : String
  head : Head Hash
  /-- The inclusion proof and the signatures. -/
  envelope : Json

/-- What `publish_update` returns. -/
structure Bundle (Hash : Type) where
  manifest : Manifest
  anchor : Anchor Hash
  /-- `consistency["proof"]`. -/
  proof : Option (List Hash)

/-- A row of the journal. -/
inductive Row (Hash : Type) where
  /-- The link that `rotate` writes. -/
  | rotation
  | entry (bundle : Bundle Hash) (retainedHazards : List Item)

/-- What the cache takes from the keys and the journal. -/
structure Environment (Hash : Type) where
  suite : HashSuite Hash
  /-- `fp.verify(verify_root, manifest)`. -/
  verify : Manifest → Bool
  /-- `log.verify(verify_root, anchor)`. -/
  verifyAnchor : Anchor Hash → Bool
  /-- `fp.digest(manifest)`. -/
  digest : Manifest → String
  /-- Whether `fp.append` and `fp.rotate` write these rows. -/
  fits : List (Row Hash) → Bool

/-- A row with a bundle. -/
structure Entry (Hash : Type) where
  bundle : Bundle Hash
  retainedHazards : List Item

def Row.entry? : Row Hash → Option (Entry Hash)
  | rotation => none
  | entry bundle retainedHazards => some ⟨bundle, retainedHazards⟩

/-- `[row for row in fp.journal(root, "edge-cache.jsonl") if "bundle" in row]`. -/
def history (rows : List (Row Hash)) : List (Entry Hash) := rows.filterMap Row.entry?

/-- The hazards that a row carries, in the order of the assignments. -/
def Entry.delivered (entry : Entry Hash) : List Item :=
  entry.retainedHazards ++ entry.bundle.manifest.items.filter Item.hazard

/-- `_hazards`. -/
def hazards (entries : List (Entry Hash)) : List Item :=
  sortBy Item.id ((index Item.id (entries.flatMap Entry.delivered)).map Prod.snd)

/-- The key of the last sort of `recall`. -/
def Item.order (item : Item) : Bool ×ₗ String := toLex (!item.hazard, item.id)

/-- `EdgeCache.recall`. -/
def recallItems (rows : List (Row Hash)) : List Item :=
  match (history rows).getLast? with
  | none => []
  | some last =>
    sortBy Item.order
      ((index Item.id (last.bundle.manifest.items ++ hazards (history rows))).map Prod.snd)

/-- `COMPACT_AFTER`. -/
def compactAfter : ℕ := 32

/-- The checks on one item. -/
def checkItem (item : Item) : Py Unit := do
  let _ ← text item.id "identifier" 512
  let _ ← text item.text "edge memory" 64_000

/-- The checks on a bundle alone. -/
def checkBundle (environment : Environment Hash) (bundle : Bundle Hash) : Py Unit := do
  Py.require (environment.verify bundle.manifest && environment.verifyAnchor bundle.anchor &&
      bundle.anchor.manifestDigest = environment.digest bundle.manifest && bundle.manifest.type = "edge-context-v1")
    (.permissionError "unsigned or invalid edge update")
  let _ ← count bundle.manifest.items.length 0 256 "count"
  bundle.manifest.items.forM checkItem

/-- The checks on a bundle against the last one. -/
def checkContinuity [DecidableEq Hash] (environment : Environment Hash) (last bundle : Bundle Hash) :
    Py Unit := do
  Py.require (last.anchor.leaf ≤ bundle.anchor.leaf)
    (.permissionError "stale edge update predates the witnessed manifest")
  match bundle.proof with
  | none => throw (.keyError "consistency")
  | some proof =>
    let consistent ← verifyConsistency environment.suite last.anchor.head.treeSize
      bundle.anchor.head.treeSize last.anchor.head.rootHash bundle.anchor.head.rootHash proof
    Py.require consistent
      (.permissionError "forked or stale edge update conflicts with the witnessed head")

/-- The rows after a new bundle. Without a limit there is no compaction. -/
def written (limit : Option ℕ) (rows : List (Row Hash)) (bundle : Bundle Hash) : List (Row Hash) :=
  if limit.any (· ≤ (history rows).length) then [.rotation, .entry bundle (hazards (history rows))]
  else rows ++ [.entry bundle []]

/-- `fp.rotate` or `fp.append`. -/
def store (environment : Environment Hash) (limit : Option ℕ) (rows : List (Row Hash))
    (bundle : Bundle Hash) : Py (List (Row Hash)) :=
  if environment.fits (written limit rows bundle) then .ok (written limit rows bundle)
  else .error (.valueError "serialized journal record exceeds 1 MiB")

/-- The body of `EdgeCache.update`. -/
def updateBody [DecidableEq Hash] (environment : Environment Hash) (limit : Option ℕ)
    (rows : List (Row Hash)) (bundle : Bundle Hash) : Py (List (Row Hash)) := do
  checkBundle environment bundle
  match (history rows).getLast? with
  | none => store environment limit rows bundle
  | some last =>
    checkContinuity environment last.bundle bundle
    if bundle.anchor.leaf = last.bundle.anchor.leaf then
      Py.require (environment.digest bundle.manifest = environment.digest last.bundle.manifest)
        (.permissionError "forked edge manifest at the same witnessed leaf")
      return rows
    else store environment limit rows bundle

/-- `EdgeCache.update`. -/
def update [DecidableEq Hash] (environment : Environment Hash) (limit : Option ℕ)
    (rows : List (Row Hash)) (bundle : Bundle Hash) : Py (List (Row Hash)) :=
  match updateBody environment limit rows bundle with
  | .error (.keyError _) | .error (.typeError _) | .error (.valueError _) =>
    .error (.permissionError "invalid edge update envelope")
  | result => result

/-- A cache with the bundles that it has accepted. -/
structure Cache (Hash : Type) where
  rows : List (Row Hash)
  accepted : List (Bundle Hash)

def Cache.empty : Cache Hash := ⟨[], []⟩

/-- One call of `EdgeCache.update`. -/
def step [DecidableEq Hash] (environment : Environment Hash) (limit : Option ℕ) (cache : Cache Hash)
    (bundle : Bundle Hash) : Py (Cache Hash) := do
  let rows ← update environment limit cache.rows bundle
  return ⟨rows, cache.accepted ++ [bundle]⟩

end UniMem.Robotics
