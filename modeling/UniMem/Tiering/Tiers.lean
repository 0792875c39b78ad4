import UniMem.Library.Interruption
import UniMem.FrontierProtocol.Wire
import UniMem.NextwaveStore.Artifacts

/-!
# Payload tiers

Blobs are files that move to a cold backend and back. Each operation is a list of effects on files, backend and
journals, and may stop after any of them. An effect that raises ends it.
-/

namespace UniMem.Tiering

open Library FrontierProtocol NextwaveStore

/-- Blobs by digest. -/
abbrev Files := List (String × Bytes)

/-- A `tier-state` event. -/
structure TierState where
  cold : Bool
  payloads : List String
  cleanupPending : Bool
  deriving DecidableEq

/-- The default of `_state`. -/
def TierState.hot : TierState := ⟨false, [], false⟩

/-- A managed namespace: its artifacts, its blobs and its last `tier-state`. -/
structure Tier where
  name : String
  events : List NextwaveStore.Event
  hot : Files
  cold : Files
  state : TierState
  /-- The values that were put, with their identities. -/
  puts : List (String × Json)
  /-- The digests of which an erasure has deleted a copy since they were last put. -/
  begun : List String
  /-- The digests that a put has written and not recorded yet. -/
  pending : List String

/-- The kind of the artifacts of a namespace. -/
def Tier.kind (tier : Tier) : Kind :=
  ⟨tier.name, tier.events, tier.hot.map Prod.fst, tier.cold.map Prod.fst⟩

/-- The artifacts that are not erased. -/
def activeRows (rows : List NextwaveStore.Event) : List NextwaveStore.Event := rows.filter (·.status = some .active)

/-- What an operation finds in the rest of the store. -/
structure Environment where
  /-- `store.operator`. -/
  operator : Bool
  /-- Whether the namespace can be used from the region, and its backend is installed. -/
  resident : Bool
  /-- Whether a namespace has been idle for long enough. -/
  idle : Bool
  /-- `safety.assert_mutable` of sources and their ancestors. -/
  mutable : List String → Bool
  /-- Whether `store.admit` returns all of some sources. -/
  admits : List String → Bool
  /-- The checks of `store.put` on policies and delegated scopes. -/
  writable : String → List String → List String → Bool
  /-- The checks of `store._get` other than those on the namespace. -/
  readable : NextwaveStore.Event → Bool
  /-- `incident.assert_unpinned` and `safety.assert_mutable` of erased names. -/
  erasable : List String → Bool

/-- `MAX_BLOB`. -/
def maxBlob : ℕ := 256 * 1024

/-- `MAX_TOTAL`. -/
def maxTotal : ℕ := 64 * maxBytes

/-- The file of a value. -/
def contents (value : Json) : Bytes := canonicalBytes value ++ [0x0a]

/-- `fp.digest(json.loads(raw))`. -/
def contentDigest (runtime : Runtime) (raw : Bytes) : Py String :=
  match runtime.jsonLoads raw with
  | none => .error (.valueError "Expecting value")
  | some value => digest runtime value

/-- What an operation does to a namespace between two points at which it may stop. -/
inductive Effect where
  /-- `put` writes a blob. -/
  | write (digest : String) (raw : Bytes)
  /-- `put` records an artifact. -/
  | record (row : NextwaveStore.Event) (value : Json)
  /-- `hibernate` copies a blob. -/
  | copy (digest : String)
  /-- A `tier-state` event. -/
  | mark (state : TierState)
  /-- `hibernate` removes a hot blob. -/
  | unlink (digest : String)
  /-- `warm` brings a blob back. -/
  | restore (digest : String)
  /-- `warm` deletes a cold blob. -/
  | cleanup (digest : String)
  /-- `purge_cold` deletes a cold blob. -/
  | purge (digest : String)
  /-- `_erase_sources` removes a hot blob. -/
  | erase (digest : String)
  /-- `_erase_sources` records an erasure. -/
  | bury (row : NextwaveStore.Event)

/-- An effect. The backend raises for a key that it does not have. -/
def apply (runtime : Runtime) (tier : Tier) : Effect → Py Tier
  | .write digest raw =>
    .ok { tier with hot := assign digest raw tier.hot, pending := digest :: tier.pending }
  | .record row value =>
    .ok { tier with
      events := tier.events ++ [row]
      puts := tier.puts ++ [(row.id, value)]
      begun := tier.begun.filter fun digest ↦ row.digest ≠ some digest
      pending := tier.pending.filter fun digest ↦ row.digest ≠ some digest }
  | .copy digest =>
    match tier.hot.lookup digest with
    | none => .error (.keyError digest)
    | some raw => do
      let found ← contentDigest runtime raw
      Py.require (raw.length ≤ maxBlob + 1 && found = digest)
        (.valueError "UniMem hot payload content hash is invalid")
      return { tier with cold := assign digest raw tier.cold }
  | .mark state => .ok { tier with state }
  | .unlink digest => .ok { tier with hot := discard digest tier.hot }
  | .restore digest =>
    match tier.cold.lookup digest with
    | none => .error (.keyError digest)
    | some raw => do
      let found ← contentDigest runtime raw
      Py.require (found = digest) (.valueError "UniMem cold payload digest mismatch")
      return { tier with hot := assign digest raw tier.hot }
  | .cleanup digest => .ok { tier with cold := discard digest tier.cold }
  | .purge digest =>
    .ok { tier with cold := discard digest tier.cold, begun := digest :: tier.begun }
  | .erase digest =>
    .ok { tier with
      hot := discard digest tier.hot
      begun := digest :: tier.begun
      pending := tier.pending.filter (· ≠ digest) }
  | .bury row => .ok { tier with events := tier.events ++ [row.tombstone] }

/-- The sources of the artifacts that are not erased. -/
def activeSources (rows : List NextwaveStore.Event) : List String :=
  ((activeRows rows).flatMap NextwaveStore.Event.sources).dedup

/-- `hibernate`. -/
def hibernateEffects (environment : Environment) (tier : Tier) : Py (List Effect) := do
  Py.require environment.operator
    (.permissionError "UniMem operation requires an undelegated operator context")
  Py.require environment.resident
    (.permissionError "UniMem namespace read/write violates residency")
  if !environment.idle then .ok []
  else do
    let rows ← latest tier.kind
    Py.require (environment.mutable (activeSources rows)) (.permissionError "memory is protected")
    Py.require (environment.admits (activeSources rows))
      (.permissionError "UniMem hibernation sources are unavailable or outside scope")
    if tier.state.cold then .ok []
    else do
      let files := sortBy id (tier.hot.map Prod.fst).dedup
      let _ ← count files.length 0 8192 "count"
      return files.map .copy ++ [.mark ⟨true, files, false⟩] ++ files.map .unlink

/-- `warm`. -/
def warmEffects (environment : Environment) (tier : Tier) : Py (List Effect) := do
  Py.require environment.resident
    (.permissionError "UniMem namespace read/write violates residency")
  if tier.state.cold then do
    let rows ← latest tier.kind
    Py.require (environment.admits (activeSources rows))
      (.permissionError "UniMem pre-warm sources are unavailable or outside scope")
    let active := (activeRows rows).filterMap NextwaveStore.Event.digest
    return (tier.state.payloads.filter (· ∈ active)).map .restore ++
      [.mark ⟨false, tier.state.payloads, true⟩] ++ tier.state.payloads.map .cleanup ++
      [.mark .hot]
  else if tier.state.cleanupPending then
    .ok (tier.state.payloads.map .cleanup ++ [.mark .hot])
  else .ok []

/-- An operation that is not interrupted. -/
def carryOut (runtime : Runtime) (tier : Tier) (effects : Py (List Effect)) : Py Unit × Tier :=
  match effects with
  | .error error => (.error error, tier)
  | .ok plan =>
    match attempt (apply runtime) tier plan with
    | (final, none) => (.ok (), final)
    | (final, some error) => (.error error, final)

/-- `warm` without an interruption. -/
def warm (runtime : Runtime) (environment : Environment) (tier : Tier) : Py Unit × Tier :=
  carryOut runtime tier (warmEffects environment tier)

/-- An artifact that `put` receives. -/
structure Request where
  identity : String
  value : Json
  scopes : List String
  sources : List String

/-- The event of an artifact with a digest. -/
def Request.row (request : Request) (digest : String) : NextwaveStore.Event where
  id := request.identity
  digest := some digest
  status := some .active
  scopes := sortBy id request.scopes.dedup
  sources := sortBy id request.sources.dedup
  fields := .null

/-- `store.put` of an immutable artifact, once the namespace is warm. -/
def putEffects (runtime : Runtime) (environment : Environment) (tier : Tier) (request : Request) :
    Py (List Effect) := do
  let data ← wire request.value
  Py.require (data.length ≤ maxBlob) (.valueError "UniMem artifact exceeds 256 KiB")
  let _ ← text request.identity "identifier" 512
  let _ ← count request.scopes.length 0 128 "count"
  let _ ← count request.sources.length 0 256 "count"
  request.scopes.forM fun scope ↦ do let _ ← text scope "scope" 256
  request.sources.forM fun source ↦ do let _ ← text source "source" 256
  let digest := runtime.sha256 data
  let row := request.row digest
  Py.require (environment.writable row.id row.scopes row.sources)
    (.permissionError "UniMem artifact cannot escape its authenticated agent scope")
  blob digest
  let rows ← latest tier.kind
  match rows.find? (·.id = row.id) with
  | some old => do
    Py.require (old.scopes = row.scopes && old.sources = row.sources)
      (.permissionError "UniMem artifact identity cannot change its scope or sources")
    Py.require (old.status ≠ some .erased)
      (.permissionError "UniMem erased artifact identity cannot be reused")
    Py.require (old.digest = some digest) (.valueError "UniMem artifact is immutable")
    return []
  | none => do
    let _ ← count (rows.length + 1) 1 maxObjects "count"
    let _ ← count tier.hot.length 0 8192 "UniMem artifact files"
    Py.require ((tier.hot.map (·.2.length)).sum + data.length ≤ maxTotal)
      (.valueError "UniMem artifact content exceeds 64 MiB; archive a scoped namespace")
    return (if (tier.hot.lookup digest).isSome then []
      else [.write digest (contents request.value)]) ++ [.record row request.value]

/-- The erasure of one artifact: its unshared blobs go, and then it is recorded. -/
def eraseRow (live : List String) (kind : Kind) (row : NextwaveStore.Event) : List Effect :=
  if row.status = some .erased then []
  else
    let gone := (kind.versions row.id).dedup.filter (· ∉ live)
    (sortBy id gone).map .purge ++ gone.map .erase ++ [.bury row]

/-- `_erase_sources` on the kind of the namespace, with the names that it has collected. -/
def eraseEffects (environment : Environment) (tier : Tier) (deleted : List String) :
    Py (List Effect) := do
  Py.require (environment.erasable deleted) (.permissionError "UniMem erasure is not permitted")
  let _ ← latest tier.kind
  return (tier.kind.affected deleted).flatMap (eraseRow (tier.kind.live deleted) tier.kind)

/-- `_get` once the namespace is warm. -/
def read (runtime : Runtime) (environment : Environment) (tier : Tier) (identity : String) :
    Py Bytes := do
  let rows ← latest tier.kind
  match rows.find? (·.id = identity) with
  | none => .error (.valueError "UniMem artifact is unavailable")
  | some row => do
    Py.require (row.status = some .active) (.valueError "UniMem artifact is unavailable")
    Py.require (environment.readable row)
      (.permissionError "UniMem artifact is outside the caller's scope")
    match row.digest with
    | none => .error (.keyError "digest")
    | some digest =>
      match tier.hot.lookup digest with
      | none => .error (.valueError "UniMem artifact content was erased or archived")
      | some raw => do
        Py.require (raw.length ≤ maxBlob + 1) (.valueError "UniMem artifact exceeds its size limit")
        let found ← contentDigest runtime raw
        Py.require (found = digest)
          (.valueError "UniMem artifact content does not match its signed commitment")
        return raw

/-- An operation that stops after some effects. -/
inductive Action where
  | put (environment : Environment) (request : Request) (steps : ℕ)
  | hibernate (environment : Environment) (steps : ℕ)
  | warm (environment : Environment) (steps : ℕ)
  | get (environment : Environment)
  | erase (environment : Environment) (deleted : List String) (steps : ℕ)

/-- The state that an interrupted operation leaves. -/
def stop (runtime : Runtime) (tier : Tier) (effects : Py (List Effect)) (steps : ℕ) : Py Tier := do
  let plan ← effects
  return (attempt (apply runtime) tier (plan.take steps)).1

def act (runtime : Runtime) (tier : Tier) : Action → Py Tier
  | .put environment request steps => do
    Py.require (environment.admits request.sources && !request.sources.isEmpty)
      (.permissionError "UniMem tier payload requires live admitted sources")
    match Tiering.warm runtime environment tier with
    | (.error _, warmed) => return warmed
    | (.ok (), warmed) =>
      match putEffects runtime environment warmed request with
      | .error _ => return warmed
      | .ok plan => return (attempt (apply runtime) warmed (plan.take steps)).1
  | .hibernate environment steps => stop runtime tier (hibernateEffects environment tier) steps
  | .warm environment steps => stop runtime tier (warmEffects environment tier) steps
  | .get environment => .ok (Tiering.warm runtime environment tier).2
  | .erase environment deleted steps => stop runtime tier (eraseEffects environment tier deleted) steps

end UniMem.Tiering
