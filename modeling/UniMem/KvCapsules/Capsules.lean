import UniMem.FrontierProtocol.Values
import UniMem.Library.Grouping
import UniMem.Library.Transitions
import UniMem.NextwaveStore.Artifacts
import UniMem.Python.Hex
import UniMem.Runtime

/-!
# Capsules of model state

A capsule is opaque bytes of a model for one memory, kept in several pools under a key of the tenant. The
index is a journal: a build appends an active row and an eviction appends an evicted one.
-/

namespace UniMem.KvCapsules

open Library FrontierProtocol

inductive Status where
  | active
  | evicted
  deriving DecidableEq

/-- What `fp.append` adds to a record. -/
structure Chain where
  sequence : ℕ
  previous : String
  recordedAt : String
  deriving DecidableEq

/-- A record of the index. One that was not appended has no chain fields. -/
structure Record where
  id : String
  memoryId : String
  memoryHash : String
  modelFingerprint : String
  kvDigest : String
  kvBytes : ℕ
  tiers : List String
  compressor : String
  promotionScore : ℚ
  promotionThreshold : ℚ
  status : Status
  reason : Option String
  chain : Option Chain
  deriving DecidableEq

/-- A `Compressor`. -/
structure Compressor where
  compress : Bytes → Py Bytes
  decompress : Bytes → Py Bytes

/-- What a store keeps while capsules are built and evicted. -/
structure Deployment where
  runtime : Runtime
  /-- `memory_authority._key`. -/
  secret : Option Bytes
  /-- The statements of the memories that `search_recipes.admit` returns, in UTF-8. -/
  statements : List (String × Bytes)
  /-- `_POOLS`. -/
  pools : List String
  /-- `_COMPRESSORS`. -/
  compressors : List (String × Compressor)

/-- What a call finds. -/
structure Environment where
  /-- The pools whose adapter raises. -/
  broken : String → Bool
  /-- Whether `fp.append` can sign a record and write it within its size limits. -/
  accepts : List Record → Record → Bool
  /-- Whether `change_stream.publish` returns. -/
  publishes : Bool
  /-- The tip of the index and the time. -/
  tip : String
  now : String

/-- A key of a pool. -/
structure Slot where
  pool : String
  key : String
  deriving DecidableEq

abbrev Values := List (Slot × Bytes)

/-- What a capsule is for. -/
structure Subject where
  memoryId : String
  modelFingerprint : String
  deriving DecidableEq

structure State where
  /-- `fp.journal(root, INDEX)`. -/
  rows : List Record
  values : Values
  /-- The last build of each memory and model that no eviction followed. -/
  built : List (Subject × Bytes)
  deriving DecidableEq

/-- `MAX_KV_BYTES`. -/
def maxKvBytes : ℕ := 64 * 1024 * 1024

/-- `_model`. -/
def model (value : String) : Py String := do
  Py.require (value.toList.length = 64 && value.toList.all NextwaveStore.isHex)
    (.valueError "model fingerprint must be a lowercase SHA-256 digest")
  return value

/-- `bytes.fromhex`. -/
def fromhex (value : String) : Py Bytes :=
  match fromHex value with
  | some bytes => .ok bytes
  | none => .error (.valueError "non-hexadecimal number found in fromhex() arg")

/-- `_tenant_key`. -/
def tenantKey (deployment : Deployment) (sourceHash model : String) : Py String :=
  match deployment.secret with
  | none => .error (.permissionError "capsule key requires an initialized tenant identity key")
  | some secret => do
    let source ← fromhex sourceHash
    let fingerprint ← fromhex model
    return deployment.runtime.hmacSha256 secret (Json.utf8 "unimem-kv-capsule-v1" ++ [0] ++ source ++ fingerprint)

/-- `_source`. -/
def source (deployment : Deployment) (memoryId : String) : Py String :=
  match deployment.statements.lookup memoryId with
  | some statement => .ok (deployment.runtime.sha256 statement)
  | none =>
    .error (.permissionError "KV capsule source is erased, retracted, quarantined or outside scope")

/-- The check of `fp.number` on a finite number of the unit interval. -/
def unitNumber (value : ℚ) (label : String) : Py Unit :=
  Py.require (0 ≤ value && value ≤ 1) (.valueError (label ++ " must be in [0, 1]"))

/-- The arguments of `build`. -/
structure Request where
  memoryId : String
  modelFingerprint : String
  kvBytes : Bytes
  promotionScore : ℚ
  promotionThreshold : ℚ
  tiers : List String
  compressor : String

/-- `build` up to its lock: the record and the compressed payload. -/
def prepare (deployment : Deployment) (request : Request) : Py (Record × Bytes) := do
  let fingerprint ← model request.modelFingerprint
  unitNumber request.promotionScore "promotion score"
  unitNumber request.promotionThreshold "promotion threshold"
  Py.require (request.promotionThreshold ≤ request.promotionScore)
    (.permissionError "memory has not reached the configured capsule promotion threshold")
  Py.require (!request.kvBytes.isEmpty && request.kvBytes.length ≤ maxKvBytes)
    (.valueError "KV payload must be nonempty bytes no larger than 64 MiB")
  request.tiers.forM fun name ↦ do let _ ← text name "tier" 64
  let names := sortBy id request.tiers.dedup
  let _ ← count names.length 1 16 "count"
  let missing := names.filter fun name ↦ name ∉ deployment.pools && name ≠ "disk"
  Py.require missing.isEmpty
    (.valueError ("KV pool adapter is not installed: " ++ String.intercalate ", " missing))
  match deployment.compressors.lookup request.compressor with
  | none => .error (.valueError "KV compressor is not installed")
  | some compressor => do
    let sourceHash ← source deployment request.memoryId
    let key ← tenantKey deployment sourceHash fingerprint
    let compressed ← compressor.compress request.kvBytes
    Py.require (compressed.length ≤ maxKvBytes)
      (.valueError "KV compressor returned an invalid or oversized payload")
    return ({
      id := key
      memoryId := request.memoryId
      memoryHash := sourceHash
      modelFingerprint := fingerprint
      kvDigest := deployment.runtime.sha256 compressed
      kvBytes := compressed.length
      tiers := names
      compressor := request.compressor
      promotionScore := request.promotionScore
      promotionThreshold := request.promotionThreshold
      status := .active
      reason := none
      chain := none }, compressed)

/-- `fp.append`: the record with its chain fields. -/
def append (environment : Environment) (rows : List Record) (record : Record) : Py Record := do
  let _ ← count rows.length 0 (maxRows - 1) "count"
  let row := { record with chain := some ⟨rows.length, environment.tip, environment.now⟩ }
  Py.require (environment.accepts rows row) (.valueError "journal exceeds 64 MiB; rotate it")
  return row

/-- The deletions of a rollback, whose errors are ignored. -/
def rollBack (environment : Environment) (key : String) (completed : List String) (values : Values) :
    Values :=
  completed.foldl
    (fun values name ↦ if environment.broken name then values else discard ⟨name, key⟩ values) values

/-- The loop of `build` over pools; `completed` are those with the value, the last first. -/
def putAll (environment : Environment) (key : String) (value : Bytes) :
    List String → List String → Values → Py Unit × Values
  | [], _, values => (.ok (), values)
  | name :: names, completed, values =>
    if environment.broken name then
      (.error (.runtimeError "capsule registration failed; completed tiers were rolled back"),
        rollBack environment key completed values)
    else putAll environment key value names (name :: completed) (assign ⟨name, key⟩ value values)

/-- `build`. -/
def build (deployment : Deployment) (environment : Environment) (state : State) (request : Request) :
    Py Record × State :=
  match prepare deployment request with
  | .error error => (.error error, state)
  | .ok (record, compressed) =>
    match (state.rows.filter fun row ↦ row.id = record.id && row.status = .active).getLast? with
    | some prior =>
      if prior ≠ record then
        (.error (.valueError "capsule key already names different bytes or routing metadata"), state)
      else (.ok prior, state)
    | none =>
      match putAll environment record.id compressed record.tiers [] state.values with
      | (.error error, values) => (.error error, { state with values })
      | (.ok (), values) =>
        match append environment state.rows record with
        | .error error => (.error error, { state with values })
        | .ok row =>
          (.ok row,
            { rows := state.rows ++ [row]
              values
              built := assign ⟨request.memoryId, request.modelFingerprint⟩ request.kvBytes state.built })

/-- One turn of the loop of `get` over the pools of a record, and whether it returns. -/
def readTier (deployment : Deployment) (environment : Environment) (values : Values) (record : Record)
    (name : String) : Option Bytes :=
  if environment.broken name then none
  else do
    let compressed ← values.lookup ⟨name, record.id⟩
    if deployment.runtime.sha256 compressed ≠ record.kvDigest then none
    else do
      let compressor ← deployment.compressors.lookup record.compressor
      (compressor.decompress compressed).toOption

/-- `get`. -/
def get (deployment : Deployment) (environment : Environment) (state : State)
    (memoryId modelFingerprint : String) : Py Bytes := do
  let fingerprint ← model modelFingerprint
  let sourceHash ← source deployment memoryId
  let key ← tenantKey deployment sourceHash fingerprint
  match (state.rows.filter (·.id = key)).getLast? with
  | none => .error (.keyError "no active capsule matches this memory and model fingerprint")
  | some record => do
    Py.require (record.status = .active)
      (.keyError "no active capsule matches this memory and model fingerprint")
    Py.require (record.memoryHash = sourceHash && record.modelFingerprint = fingerprint)
      (.permissionError "capsule source or model fingerprint is stale")
    match record.tiers.findSome? (readTier deployment environment state.values record) with
    | some bytes => return bytes
    | none => .error (.fileNotFoundError "capsule is unavailable from every registered tier")

/-- The loop of `evict` over pools: the remaining values and the failed pools. -/
def deleteAll (environment : Environment) (key : String) (tiers : List String) (values : Values) :
    Values × List String :=
  tiers.foldl
    (fun done name ↦
      if environment.broken name then (done.1, done.2 ++ [name]) else (discard ⟨name, key⟩ done.1, done.2))
    (values, [])

/-- What `evict` returns. -/
structure Receipt where
  memoryId : String
  reason : String
  capsuleTiers : List String
  failedTiers : List String
  deriving DecidableEq

/-- The loop of `evict` over the rows that were active: the failed pools. -/
def evictRows (environment : Environment) (reason : String) :
    List Record → List String → State → Py (List String) × State
  | [], failed, state => (.ok failed, state)
  | record :: records, failed, state =>
    let (values, recordFailed) := deleteAll environment record.id record.tiers state.values
    if recordFailed.isEmpty then
      match append environment state.rows { record with status := .evicted, reason := some reason } with
      | .error error => (.error error, { state with values })
      | .ok row => evictRows environment reason records failed { state with rows := state.rows ++ [row], values }
    else evictRows environment reason records (failed ++ recordFailed) { state with values }

/-- The rows of a memory that say that a capsule is active. -/
def matching (rows : List Record) (memoryId : String) : List Record :=
  rows.filter fun row ↦ row.memoryId = memoryId && row.status = .active

/-- `evict`. It is successful when it returns without failed pools. -/
def evict (environment : Environment) (state : State) (memoryId reason : String) : Py Receipt × State :=
  if reason ∉ ["retract", "erase", "quarantine", "supersede"] then
    (.error (.valueError "capsule eviction reason must be a governed removal event"), state)
  else
    match text memoryId "memory id" 512 with
    | .error error => (.error error, state)
    | .ok _ =>
      match evictRows environment reason (matching state.rows memoryId) [] state with
      | (.error error, next) => (.error error, next)
      | (.ok failed, next) =>
        if environment.publishes then
          (.ok ⟨memoryId, reason, ((matching state.rows memoryId).flatMap Record.tiers).dedup, failed.dedup⟩,
            if failed.isEmpty then { next with built := next.built.filter (·.1.memoryId ≠ memoryId) } else next)
        else (.error (.valueError "UniMem change stream is unavailable"), next)

/-- The loop of `evict_sources`. -/
def evictEach (environment : Environment) : List String → State → Py (List Receipt) × State
  | [], state => (.ok [], state)
  | identity :: identities, state =>
    if (matching state.rows identity).isEmpty then evictEach environment identities state
    else
      match evict environment state identity "erase" with
      | (.error error, next) => (.error error, next)
      | (.ok receipt, next) =>
        match evictEach environment identities next with
        | (.error error, last) => (.error error, last)
        | (.ok receipts, last) => (.ok (receipt :: receipts), last)

/-- `evict_sources`. -/
def evictSources (environment : Environment) (state : State) (identities : List String) :
    Py (List Receipt) × State :=
  let present := state.rows.map Record.memoryId
  evictEach environment (sortBy id (identities.filter (· ∈ present)).dedup) state

inductive Action where
  | build (environment : Environment) (request : Request)
  | get (environment : Environment) (memoryId modelFingerprint : String)
  | evict (environment : Environment) (memoryId reason : String)
  | evictSources (environment : Environment) (identities : List String)

/-- The state after a call, whatever it returns or raises. -/
def act (deployment : Deployment) (state : State) : Action → Py State
  | .build environment request => .ok (build deployment environment state request).2
  | .get _ _ _ => .ok state
  | .evict environment memoryId reason => .ok (evict environment state memoryId reason).2
  | .evictSources environment identities => .ok (evictSources environment state identities).2

end UniMem.KvCapsules
