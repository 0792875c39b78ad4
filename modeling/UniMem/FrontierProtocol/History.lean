import UniMem.Library.RotatingLog
import UniMem.FrontierProtocol.JournalCalls

/-!
# The history of a journal

What the processes that share a store have signed, and which chains each rotation has retired. Rows are compared up
to the order of their fields. The store may be edited from outside at any time.
-/

namespace UniMem.FrontierProtocol

open Library Library.RotatingLog MemoryAuthority

/-- A row up to the order of its fields. -/
def canon (row : Row) : Json := (Json.obj row).sortKeys

/-- What `digest` returns for a row. -/
def canonDigest (runtime : Runtime) (value : Json) : String :=
  runtime.sha256 (value.encode .compact)

theorem canonDigest_of_digest {runtime : Runtime} {row : Row} {tip : String}
    (h : digest runtime (.obj row) = .ok tip) : canonDigest runtime (canon row) = tip :=
  (digest_eq_ok_iff.mp h).2

/-- A field of the record of a row. -/
def recordField (value : Json) (key : String) : Option Json :=
  (value.get? "record").bind fun record ↦ record.get? key

theorem recordField_canon (row : Row) (key : String) :
    recordField (canon row) key = ((recordOf row).get? key).map Json.sortKeys := by
  rw [recordField, canon, Json.get?_sortKeys, recordOf]
  change (Option.map Json.sortKeys (row.lookup "record")).bind _ = _
  cases row.lookup "record" with
  | none => rfl
  | some record => exact Json.get?_sortKeys record key

theorem isText_map_sortKeys (value : Option Json) (text : String) :
    Origin.isText (value.map Json.sortKeys) text = Origin.isText value text := by
  cases value with
  | none => rfl
  | some value => cases value <;> rfl

theorem equalsInt_map_sortKeys (value : Option Json) (index : ℤ) :
    equalsInt (value.map Json.sortKeys) index = equalsInt value index := by
  cases value with
  | none => rfl
  | some value => cases value <;> rfl

/-- The row stands at an index. -/
def At (value : Json) (index : ℕ) : Prop :=
  equalsInt (recordField value "sequence") index = true

/-- The row names the digest before it. -/
def Names (value : Json) (previous : String) : Prop :=
  Origin.isText (recordField value "previous") previous = true

/-- The count of a rotation link. -/
def canonCount (value : Json) : Option ℤ :=
  if Origin.isText (recordField value "kind") "rotation" then
    match recordField value "previous_count" with
    | some (.int number) => some number
    | _ => none
  else none

theorem at_unique (value : Json) (i j : ℕ) (hi : At value i) (hj : At value j) : i = j := by
  unfold At at hi hj
  cases hfield : recordField value "sequence" with
  | none => simp [hfield, equalsInt] at hi
  | some field =>
    rw [hfield] at hi hj
    cases field with
    | int number =>
      simp only [equalsInt, decide_eq_true_eq] at hi hj
      exact_mod_cast hi.symm.trans hj
    | bool flag =>
      simp only [equalsInt, decide_eq_true_eq] at hi hj
      exact_mod_cast hi.symm.trans hj
    | float decimal =>
      simp only [equalsInt, decide_eq_true_eq] at hi hj
      exact_mod_cast Option.some.inj (hi.symm.trans hj)
    | _ => cases hi

theorem names_unique (value : Json) (first second : String) (h : Names value first)
    (h' : Names value second) : first = second := by
  unfold Names at h h'
  cases hfield : recordField value "previous" with
  | none => simp [hfield, Origin.isText] at h
  | some field =>
    rw [hfield] at h h'
    cases field with
    | str text =>
      simp only [Origin.isText, decide_eq_true_eq] at h h'
      exact h.symm.trans h'
    | _ => cases h

theorem canonCount_canon (row : Row) : canonCount (canon row) = linkCount row := by
  unfold canonCount linkCount
  rw [recordField_canon, recordField_canon, isText_map_sortKeys]
  cases recordOf row with
  | obj record =>
    simp only [Json.get?]
    cases record.lookup "previous_count" with
    | none => rfl
    | some value => cases value <;> rfl
  | _ => rfl

/-- A chain of rows up to the order of fields. -/
def canonRows (signedRows : List Row) : List Json := signedRows.map canon

theorem canonRows_append (first second : List Row) :
    canonRows (first ++ second) = canonRows first ++ canonRows second := List.map_append

/-- The rows of a verified chain are linked. -/
abbrev ChainLinked (runtime : Runtime) (signedRows : List Row) : Prop :=
  Linked At Names (canonDigest runtime) 0 "" (canonRows signedRows)

/-- The tip of a chain. -/
abbrev chainTip (runtime : Runtime) (signedRows : List Row) : String :=
  tipOf (canonDigest runtime) "" (canonRows signedRows)

theorem linked_of_verifyChain {runtime : Runtime} {signing : Signing} {name : String} {index : ℕ}
    {previous tip : String} {signedRows : List Row}
    (h : verifyChain runtime signing name index previous signedRows = .ok tip) :
    Linked At Names (canonDigest runtime) index previous (canonRows signedRows) ∧
      tip = tipOf (canonDigest runtime) previous (canonRows signedRows) ∧
      ∀ row ∈ signedRows, verify runtime signing row = .ok true := by
  induction signedRows generalizing index previous with
  | nil => exact ⟨trivial, (Except.ok.inj h).symm, fun row hrow ↦ absurd hrow List.not_mem_nil⟩
  | cons row rest ih =>
    obtain ⟨hvalid, middle, hdigest, hrest⟩ := verifyChain_cons_eq_ok_iff.mp h
    obtain ⟨hverify, record, hrecord, hsequence, hprevious⟩ := rowValid_eq_ok_true_iff.mp hvalid
    obtain rfl := canonDigest_of_digest hdigest
    obtain ⟨hlinked, htip, hverified⟩ := ih hrest
    refine ⟨⟨?_, ?_, hlinked⟩, ?_, List.forall_mem_cons.mpr ⟨hverify, hverified⟩⟩
    · rw [At, recordField_canon, equalsInt_map_sortKeys, hrecord]
      exact hsequence
    · rw [Names, recordField_canon, isText_map_sortKeys, hrecord]
      exact hprevious
    · rw [htip]
      exact (tipOf_cons _ _ _).symm

/-- What the calls that returned have signed. -/
inductive Event where
  | appended (name : String) (row : Row)
  | rotated (name : String) (retired out : List Row)
  | signed (row : Row)

/-- The rows signed in an event. -/
def Event.rows : Event → List Row
  | appended _ row => [row]
  | rotated _ _ out => out
  | signed row => [row]

/-- The rows signed so far. -/
def signedRows (past : List Event) : List Row := past.flatMap Event.rows

/-- The chains of one journal. -/
structure Chains where
  current : List Row
  older : List (List Row)

/-- All chains, newest first. -/
def Chains.all (chains : Chains) : List (List Row) := chains.current :: chains.older

/-- The chains of `name` after an event. -/
def Chains.after (name : String) (chains : Chains) : Event → Chains
  | .appended journal row =>
    if journal = name then ⟨chains.current ++ [row], chains.older⟩ else chains
  | .rotated journal _ out => if journal = name then ⟨out, chains.all⟩ else chains
  | .signed _ => chains

/-- The chains of `name` that its appends and rotations have left. -/
def chainsOf (name : String) (past : List Event) : Chains :=
  past.foldl (Chains.after name) ⟨[], []⟩

theorem chainsOf_append_singleton (name : String) (past : List Event) (event : Event) :
    chainsOf name (past ++ [event]) = (chainsOf name past).after name event := by
  rw [chainsOf, List.foldl_append]
  rfl

/-- The row was signed. -/
def Once (past : List Event) (row : Row) : Prop :=
  ∃ other ∈ signedRows past, canon row = canon other

/-- The row was signed by an `append` or a `rotate` of the journal. -/
def Owned (past : List Event) (name : String) (row : Row) : Prop :=
  ∃ chain ∈ (chainsOf name past).all, canon row ∈ canonRows chain

/-- A `rotate` of the journal wrote the link and retired the chain. -/
def RetiredBy (past : List Event) (name : String) (link : Json) (old : List Json) : Prop :=
  ∃ retired out, Event.rotated name retired out ∈ past ∧ canonRows retired = old ∧
    (canonRows out).head? = some link

/-- Someone replaces or removes a journal file. -/
def Store.edit (store : Store) (path : String) (content : Option Bytes) : Store :=
  { store with
    clock := store.clock + 1
    files := Function.update store.files path (content.map fun bytes ↦ ⟨bytes, store.clock⟩) }

/-- Someone replaces the signing files. -/
def Store.rekey (store : Store) (signing : Signing) : Store :=
  { store with clock := store.clock + 1, pins := store.clock, signing := signing }

/-- One call by a process, or one change from outside, with the events it leaves. -/
inductive Step (runtime : Runtime) (store final : Store) : List Event → Prop
  | append {process : ℕ} {writer : Writer} {name : String} {record signed : Row} {now : String}
      {held : Journal}
      (h : appendHeld runtime process writer name record now store = (.ok (signed, held), final)) :
      Step runtime store final [.appended name signed]
  | rotate {process : ℕ} {writer : Writer} {name : String} {carry out : List Row}
      {now : ℕ → String} {retired : Journal} {tip : String}
      (h : rotateHeld runtime process writer name carry now store = (.ok (retired, out, tip), final)) :
      Step runtime store final [.rotated name retired.signed out]
  | sign {writer : Writer} {record signed : Row}
      (h : sign runtime writer record store = (.ok signed, final)) :
      Step runtime store final [.signed signed]
  | state {process : ℕ} {name : String} {outcome : Py Journal}
      (h : state runtime process name store = (outcome, final)) : Step runtime store final []
  | appendRaised {process : ℕ} {writer : Writer} {name : String} {record : Row} {now : String}
      {error : PyError}
      (h : appendHeld runtime process writer name record now store = (.error error, final)) :
      Step runtime store final []
  | rotateRaised {process : ℕ} {writer : Writer} {name : String} {carry : List Row}
      {now : ℕ → String} {error : PyError}
      (h : rotateHeld runtime process writer name carry now store = (.error error, final)) :
      Step runtime store final []
  | restart {process : ℕ} (h : final = store.setCache process []) : Step runtime store final []
  | edit {path : String} {content : Option Bytes} (h : final = store.edit path content) :
      Step runtime store final []
  | rekey {signing : Signing} (h : final = store.rekey signing) : Step runtime store final []

/-- Rows of a verified file were once signed, and no two signed rows share a digest. -/
structure Ideal (runtime : Runtime) (past : List Event) (store : Store) : Prop where
  unforgeable : ∀ name found, rows runtime (store.content name) = .ok found →
    ∀ row ∈ found, verify runtime store.signing row = .ok true → Once past row
  collisionFree : ∀ first ∈ signedRows past, ∀ second ∈ signedRows past,
    canonDigest runtime (canon first) = canonDigest runtime (canon second) →
      canon first = canon second

/-- The file parses to the rows that the appends and rotations of the journal have left. -/
def Undisturbed (runtime : Runtime) (name : String) (past : List Event) (store : Store) : Prop :=
  ∃ found, rows runtime (store.content name) = .ok found ∧
    canonRows found = canonRows (chainsOf name past).current

/-- A write finds the journal undisturbed, and the first row is not its own link. -/
def Clean (runtime : Runtime) (name : String) (past : List Event) (store : Store) : Event → Prop
  | .appended journal row => journal = name → Undisturbed runtime name past store ∧
      ((chainsOf name past).current = [] → linkCount row = none)
  | .rotated journal _ _ => journal = name → Undisturbed runtime name past store
  | .signed _ => True

/-- The stores that clean steps reach from an empty one, with their history. -/
inductive History (runtime : Runtime) (name : String) : List Event → Store → Prop
  | start {store : Store} (hfiles : ∀ path, store.files path = none)
      (hcaches : ∀ process, store.caches process = []) : History runtime name [] store
  | step {past events : List Event} {store final : Store}
      (hrun : History runtime name past store) (hideal : Ideal runtime past store)
      (hstep : Step runtime store final events)
      (hclean : ∀ event ∈ events, Clean runtime name past store event) :
      History runtime name (past ++ events) final

end UniMem.FrontierProtocol
