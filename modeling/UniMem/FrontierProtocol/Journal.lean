import UniMem.Library.Procedure
import UniMem.MemoryAuthority
import UniMem.FrontierProtocol.Wire

/-!
# Signed journals

A journal is a file of signed rows, each naming its index and the digest of the row before it. `append` and `rotate`
run under a lock, so each is one step on the `Store` of all processes.
-/

namespace UniMem.FrontierProtocol

open Library MemoryAuthority

/-- A signed row, as the fields of its object. -/
abbrev Row := List (String × Json)

/-- What `os.stat` tells of a file: a version that every write renews, and the size. -/
structure Stamp where
  version : ℕ
  size : ℕ
  deriving DecidableEq

/-- A journal file. -/
structure File where
  content : Bytes
  version : ℕ

def File.stamp (file : File) : Stamp := ⟨file.version, file.content.length⟩

/-- `_Journal`. -/
structure Journal where
  stamp : Option Stamp
  pins : ℕ
  signed : List Row
  tip : String
  weight : ℕ

/-- `_CACHE` of one process, least recently used first. -/
abbrev Cache := List (String × Journal)

/-- The files of a store and the caches of the processes that use it. -/
structure Store where
  /-- The version that the next write receives. -/
  clock : ℕ
  files : String → Option File
  signing : Signing
  /-- The version of the signing files. -/
  pins : ℕ
  caches : ℕ → Cache

/-- `_stamp`. -/
def Store.stamp (store : Store) (path : String) : Option Stamp := (store.files path).map File.stamp

/-- The bytes that `rows` reads: none from a file that is not there. -/
def Store.content (store : Store) (path : String) : Bytes :=
  (store.files path).elim [] File.content

def Store.setCache (store : Store) (process : ℕ) (cache : Cache) : Store :=
  { store with caches := Function.update store.caches process cache }

/-- Write a journal file. -/
def Store.write (store : Store) (path : String) (content : Bytes) : Store :=
  { store with
    clock := store.clock + 1
    files := Function.update store.files path (some ⟨content, store.clock⟩) }

abbrev Call := Procedure Store PyError

/-- `_CACHE.pop(path, None)`. -/
def Cache.pop (cache : Cache) (path : String) : Cache := cache.filter fun entry ↦ entry.1 ≠ path

/-- `_CACHE[path] = state` and `_CACHE.move_to_end(path)`. -/
def Cache.put (cache : Cache) (path : String) (journal : Journal) : Cache :=
  cache.pop path ++ [(path, journal)]

/-- The loop of `_remember`. -/
def Cache.evict : Cache → Cache
  | [] => []
  | entry :: cache =>
    if 32 < (entry :: cache).length ∨
        64 * maxBytes < ((entry :: cache).map fun item ↦ item.2.weight).sum then
      Cache.evict cache
    else entry :: cache

/-- `_remember`. -/
def remember (cache : Cache) (path : String) (journal : Journal) : Cache :=
  (cache.put path journal).evict

/-- `filename`, for a store whose directory is not a symbolic link. -/
def filename (name : String) : Py String :=
  if '/' ∈ name.toList ∨ name.toList.head? = some '.' then
    .error (.valueError "invalid journal name")
  else .ok name

/-- `stream.readline(limit)`, with what remains. -/
def readline : ℕ → Bytes → Bytes × Bytes
  | _, [] => ([], [])
  | 0, stream => ([], stream)
  | limit + 1, byte :: stream =>
    if byte = 0x0a then ([byte], stream)
    else (byte :: (readline limit stream).1, (readline limit stream).2)

theorem length_readline_snd_le (stream : Bytes) (limit : ℕ) :
    (readline limit stream).2.length ≤ stream.length := by
  induction stream generalizing limit with
  | nil => simp [readline]
  | cons byte stream ih =>
    cases limit with
    | zero => simp [readline]
    | succ limit =>
      rw [readline]
      split
      · exact Nat.le_succ _
      · exact (ih limit).trans (Nat.le_succ _)

theorem length_readline_snd_lt (limit : ℕ) (byte : UInt8) (stream : Bytes) :
    (readline (limit + 1) (byte :: stream)).2.length < (byte :: stream).length := by
  rw [readline]
  split
  · exact Nat.lt_succ_self _
  · exact Nat.lt_succ_of_le (length_readline_snd_le stream limit)

/-- The loop of `rows`, on the rest of the file with the bytes and the rows read so far. -/
def rowsLoop (runtime : Runtime) : Bytes → ℕ → List Row → Py (List Row)
  | [], _, result => .ok result
  | byte :: stream, total, result =>
    let line := (readline (maxBytes + 2) (byte :: stream)).1
    if 64 * maxBytes < total + line.length then
      .error (.valueError "journal exceeds 64 MiB; rotate it")
    else if maxRows ≤ result.length ∨ maxBytes + 1 < line.length ∨ line.getLast? ≠ some 0x0a then
      .error (.valueError "journal is truncated or exceeds its size limit; rotate it")
    else
      match loads runtime line with
      | .error _ =>
        .error (.valueError "journal contains invalid or excessively nested JSON")
      | .ok (.obj row) => do
        let _ ← wire (.obj row)
        rowsLoop runtime (readline (maxBytes + 2) (byte :: stream)).2 (total + line.length)
          (result ++ [row])
      | .ok _ => .error (.valueError "journal row must be an object")
termination_by stream => stream.length
decreasing_by exact length_readline_snd_lt _ byte stream

/-- `rows`. -/
def rows (runtime : Runtime) (content : Bytes) : Py (List Row) := rowsLoop runtime content 0 []

/-- `signed.get("record", {})`. -/
def recordOf (row : Row) : Json := (row.lookup "record").getD (.obj [])

/-- `value == index` for a JSON value, where `True` is 1 and `1.0` is 1. -/
def equalsInt (value : Option Json) (index : ℤ) : Bool :=
  match value with
  | some (.int number) => number = index
  | some (.bool flag) => (if flag then 1 else 0) = index
  | some (.float decimal) => decimal.value = some (index : ℚ)
  | _ => false

/-- The condition that `_state` checks on a row. -/
def rowValid (runtime : Runtime) (signing : Signing) (index : ℕ) (previous : String) (row : Row) :
    Py Bool := do
  if ← verify runtime signing row then
    match recordOf row with
    | .obj record =>
      return equalsInt (record.lookup "sequence") index &&
        Origin.isText (record.lookup "previous") previous
    | _ => .error (.attributeError "object has no attribute 'get'")
  else return false

/-- The loop of `_state` over the rows: the tip of a valid chain. -/
def verifyChain (runtime : Runtime) (signing : Signing) (name : String) :
    ℕ → String → List Row → Py String
  | _, previous, [] => .ok previous
  | index, previous, row :: rest => do
    if ← rowValid runtime signing index previous row then
      let tip ← digest runtime (.obj row)
      verifyChain runtime signing name (index + 1) tip rest
    else .error (.valueError s!"invalid {name} chain at row {index}")

/-- `previous_count` of a row that is a rotation link with an integer count. -/
def linkCount (row : Row) : Option ℤ :=
  match recordOf row with
  | .obj record =>
    if Origin.isText (record.lookup "kind") "rotation" then
      match record.lookup "previous_count" with
      | some (.int number) => some number
      | _ => none
    else none
  | _ => none

/-- Whether a row names a retired tip. -/
def namesTip (row : Row) : Bool :=
  match recordOf row with
  | .obj record =>
    match record.lookup "previous_tip" with
    | some (.str text) => text ≠ ""
    | _ => false
  | _ => false

/-- `rotation_accepted`. -/
def rotationAccepted (signedRows : List Row) (retained : ℕ) : Bool :=
  match signedRows with
  | [] => false
  | row :: _ =>
    match linkCount row with
    | none => false
    | some number => (retained : ℤ) ≤ number && namesTip row

/-- `anchored`. -/
def anchored (runtime : Runtime) (signedRows : List Row) (retained : ℕ) (tip : String) : Py Bool :=
  if retained ≤ signedRows.length then
    match signedRows[retained - 1]? with
    | none => .error (.indexError "list index out of range")
    | some row => (fun text ↦ decide (text = tip)) <$> digest runtime (.obj row)
  else .ok false

/-- The check of a reloaded chain against the rows that the cache retains. -/
def checkRetained (runtime : Runtime) (cached : Option Journal) (signedRows : List Row) : Py Unit :=
  match cached with
  | none => .ok ()
  | some journal =>
    if journal.signed = [] then .ok ()
    else do
      let anchor ← anchored runtime signedRows journal.signed.length journal.tip
      Py.require (rotationAccepted signedRows journal.signed.length || anchor)
        (.valueError "journal was truncated or rewritten against a retained checkpoint")

/-- The part of `_state` that reads the file again. -/
def reload (runtime : Runtime) (store : Store) (name path : String) (cached : Option Journal) :
    Py Journal := do
  let signedRows ← rows runtime (store.content path)
  let previous ← verifyChain runtime store.signing name 0 "" signedRows
  checkRetained runtime cached signedRows
  return ⟨store.stamp path, store.pins, signedRows, previous, runtime.retainedSize (.arr (signedRows.map .obj))⟩

/-- `_state`. -/
def state (runtime : Runtime) (process : ℕ) (name : String) : Call Journal := fun store ↦
  match filename name with
  | .error error => (.error error, store)
  | .ok path =>
    let cached := (store.caches process).lookup path
    match cached.filter fun journal ↦
      journal.stamp = store.stamp path ∧ journal.pins = store.pins with
    | some journal =>
      (.ok journal, store.setCache process ((store.caches process).put path journal))
    | none =>
      match reload runtime store name path cached with
      | .error error => (.error error, store)
      | .ok journal =>
        (.ok journal, store.setCache process (remember (store.caches process) path journal))

/-- `_key` with `create`, when the store signs with `hmac-sha256`. -/
def Store.prepareKey (store : Store) (writer : Writer) : Store :=
  if store.signing.algorithm = .hmacSha256 ∧ store.signing.hmacKey = none then
    { store with
      clock := store.clock + 1
      pins := store.clock
      signing := createKey store.signing writer }
  else store

/-- `sign`. -/
def sign (runtime : Runtime) (writer : Writer) (record : Row) : Call Row := do
  let _ ← Procedure.lift (wire (.obj record))
  Procedure.update fun store ↦ store.prepareKey writer
  let signing ← Procedure.read Store.signing
  Procedure.lift (bindWith runtime signing writer record)

/-- `{**record, "sequence": index, "previous": previous, "recorded_at": now}`. -/
def sequenced (record : Row) (index : ℕ) (previous now : String) : Row :=
  Json.setField (Json.setField (Json.setField record "sequence" (.int index))
    "previous" (.str previous)) "recorded_at" (.str now)

/-- The line of a row. -/
def line (row : Row) : Bytes := dumps (.obj row) ++ [0x0a]

/-- `signed` with its digest, as `append` and `rotate` check it before writing. -/
def admitRow (runtime : Runtime) (row : Row) (size : ℕ) (full : String) : Py String := do
  let _ ← wire (.obj row)
  if maxBytes < (dumps (.obj row)).length then
    .error (.valueError "serialized journal record exceeds 1 MiB")
  else if 64 * maxBytes < size + (dumps (.obj row)).length + 1 then .error (.valueError full)
  else digest runtime (.obj row)

/-- `append`, with the journal that the process then holds. -/
def appendHeld (runtime : Runtime) (process : ℕ) (writer : Writer) (name : String) (record : Row)
    (now : String) : Call (Row × Journal) := do
  let path ← Procedure.lift (filename name)
  let journal ← state runtime process name
  let _ ← Procedure.lift (count journal.signed.length 0 (maxRows - 1) "count")
  let signed ← sign runtime writer (sequenced record journal.signed.length journal.tip now)
  let size := (journal.stamp.map Stamp.size).getD 0
  let tip ← Procedure.lift (admitRow runtime signed size "journal exceeds 64 MiB; rotate it")
  Procedure.update fun store ↦ store.write path (store.content path ++ line signed)
  let held ← Procedure.read fun store ↦
    (⟨store.stamp path, store.pins, journal.signed ++ [signed], tip,
      journal.weight + runtime.retainedSize (.obj signed) + 64⟩ : Journal)
  Procedure.update fun store ↦
    store.setCache process (remember (store.caches process) path held)
  return (signed, held)

/-- `append`. -/
def append (runtime : Runtime) (process : ℕ) (writer : Writer) (name : String) (record : Row)
    (now : String) : Call Row := do
  let result ← appendHeld runtime process writer name record now
  return result.1

/-- The loop of `rotate`: the rows that it signs, with the digest of the last one. -/
def signRows (runtime : Runtime) (writer : Writer) (now : ℕ → String) :
    ℕ → String → ℕ → List Row → Call (List Row × String)
  | _, previous, _, [] => return ([], previous)
  | index, previous, total, record :: records => do
    let signed ← sign runtime writer (sequenced record index previous (now index))
    let tip ← Procedure.lift
      (admitRow runtime signed total "journal exceeds 64 MiB; reduce rotation carry rows")
    let rest ← signRows runtime writer now (index + 1) tip (total + (line signed).length) records
    return (signed :: rest.1, rest.2)

/-- `previous_count` of the link that retires a chain. -/
def retiredCount (signedRows : List Row) : ℤ :=
  signedRows.length +
    match signedRows with
    | [] => 0
    | row :: _ => (linkCount row).getD 0

/-- The record of the link that retires a chain. -/
def linkRecord (journal : Journal) : Row :=
  [("kind", .str "rotation"), ("previous_tip", .str journal.tip),
    ("previous_count", .int (retiredCount journal.signed))]

/-- `rotate`, with the journal that it retires, the rows of the new chain and their tip. -/
def rotateHeld (runtime : Runtime) (process : ℕ) (writer : Writer) (name : String)
    (carry : List Row) (now : ℕ → String) : Call (Journal × List Row × String) := do
  let _ ← Procedure.lift (count carry.length 0 (maxRows - 1) "rotation carry rows")
  let path ← Procedure.lift (filename name)
  let journal ← state runtime process name
  let signed ← signRows runtime writer now 0 "" 0 (linkRecord journal :: carry)
  Procedure.update fun store ↦ store.write path (signed.1.flatMap line)
  Procedure.update fun store ↦ store.setCache process ((store.caches process).pop path)
  return (journal, signed)

/-- `rotate`. -/
def rotate (runtime : Runtime) (process : ℕ) (writer : Writer) (name : String) (carry : List Row)
    (now : ℕ → String) : Call Unit := do
  let _ ← rotateHeld runtime process writer name carry now
  return ()

/-- `configure_signing` on the files of the store. -/
def configure (runtime : Runtime) (algorithm : Origin.Algorithm) (entropy : Bytes) :
    Call Unit := fun store ↦
  match configureSigning runtime store.signing algorithm entropy with
  | .error error => (.error error, store)
  | .ok signing =>
    (.ok (), { store with clock := store.clock + 1, pins := store.clock, signing := signing })

end UniMem.FrontierProtocol
