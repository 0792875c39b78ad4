import UniMem.Library.Json
import UniMem.Library.Totals

/-!
# A cache with one load for each key

`RuntimeCache` keeps values until they expire or room is needed, and callers that miss a key wait for one load,
which runs without the lock. A section under the lock is one step.
-/

namespace UniMem.RuntimeCache

open Library

variable {κ ν ε 𝕜 : Type} [DecidableEq κ] [Field 𝕜] [LinearOrder 𝕜] [IsStrictOrderedRing 𝕜]

/-- The arguments of the constructor, with its checks. -/
structure Settings (𝕜 : Type) [Field 𝕜] [LinearOrder 𝕜] where
  maxEntries : ℕ
  maxBytes : ℕ
  ttl : 𝕜
  ttl_nonneg : 0 ≤ ttl

/-- A retained value. The source does not keep the flight that loaded it. -/
structure Entry (ν 𝕜 : Type) where
  expiry : 𝕜
  value : ν
  size : ℤ
  flight : ℕ

/-- `RuntimeCache`: the entries in the order of their last use. -/
structure Cache (κ ν 𝕜 : Type) where
  entries : List (κ × Entry ν 𝕜)
  flights : List (κ × ℕ)
  bytesUsed : ℤ
  nextExpiry : WithTop 𝕜
  hits : ℕ
  misses : ℕ
  coalesced : ℕ
  evictions : ℕ

/-- `_reset`. -/
def Cache.empty : Cache κ ν 𝕜 := ⟨[], [], 0, ⊤, 0, 0, 0, 0⟩

/-- `clear`. -/
def Cache.clear (cache : Cache κ ν 𝕜) : Cache κ ν 𝕜 := { cache with entries := [], flights := [], bytesUsed := 0 }

/-- `self._entries.pop(key, None)` with its bytes. -/
def Cache.pop (cache : Cache κ ν 𝕜) (key : κ) : Cache κ ν 𝕜 :=
  match cache.entries.lookup key with
  | none => cache
  | some entry =>
    { cache with entries := discard key cache.entries, bytesUsed := cache.bytesUsed - entry.size }

/-- `invalidate`. -/
def Cache.invalidate (cache : Cache κ ν 𝕜) (key : κ) : Cache κ ν 𝕜 :=
  { cache.pop key with flights := discard key cache.flights }

/-- `self._entries.move_to_end(key)`. -/
def Cache.moveToEnd (cache : Cache κ ν 𝕜) (key : κ) (entry : Entry ν 𝕜) : Cache κ ν 𝕜 :=
  { cache with entries := discard key cache.entries ++ [(key, entry)] }

/-- `peek`: the entry whose value is returned. -/
def Cache.peek (cache : Cache κ ν 𝕜) (key : κ) (now : 𝕜) : Option (Entry ν 𝕜) × Cache κ ν 𝕜 :=
  match cache.entries.lookup key with
  | none => (none, cache)
  | some entry => if entry.expiry ≤ now then (none, cache.pop key) else (some entry, cache.moveToEnd key entry)

/-- What a call of `get_or_load` does after its first section. -/
inductive Admission (ν 𝕜 : Type) where
  | hit (entry : Entry ν 𝕜)
  | own (flight : ℕ)
  | join (flight : ℕ)

/-- The flight of a key: a new one when there is none. -/
def Cache.fly (cache : Cache κ ν 𝕜) (key : κ) (fresh : ℕ) : Admission ν 𝕜 × Cache κ ν 𝕜 :=
  match cache.flights.lookup key with
  | none => (.own fresh, { cache with flights := cache.flights ++ [(key, fresh)], misses := cache.misses + 1 })
  | some flight => (.join flight, { cache with coalesced := cache.coalesced + 1 })

/-- The first section of `get_or_load`. -/
def Cache.enter (cache : Cache κ ν 𝕜) (key : κ) (now : 𝕜) (fresh : ℕ) : Admission ν 𝕜 × Cache κ ν 𝕜 :=
  match cache.entries.lookup key with
  | none => cache.fly key fresh
  | some entry =>
    if now < entry.expiry then (.hit entry, { cache.moveToEnd key entry with hits := cache.hits + 1 })
    else (cache.pop key).fly key fresh

/-- The least expiry, or infinity. -/
def leastExpiry (entries : List (κ × Entry ν 𝕜)) : WithTop 𝕜 :=
  entries.foldr (fun entry least ↦ min (entry.2.expiry : WithTop 𝕜) least) ⊤

/-- The pass over expired entries, when the least expiry may have come. -/
def Cache.expire (cache : Cache κ ν 𝕜) (now : 𝕜) : Cache κ ν 𝕜 :=
  if cache.nextExpiry ≤ now then
    let kept := cache.entries.filter fun entry ↦ now < entry.2.expiry
    { cache with
      entries := kept
      bytesUsed := cache.bytesUsed - total Entry.size
        (cache.entries.filter fun entry ↦ !decide (now < entry.2.expiry))
      nextExpiry := leastExpiry kept }
  else cache

/-- The loop that makes room: the entries that stay, their bytes and the evictions. -/
def evict (settings : Settings 𝕜) (size : ℤ) : List (κ × Entry ν 𝕜) → ℤ → ℕ → List (κ × Entry ν 𝕜) × ℤ × ℕ
  | [], bytes, evictions => ([], bytes, evictions)
  | entry :: entries, bytes, evictions =>
    if settings.maxEntries ≤ (entry :: entries).length ∨ settings.maxBytes < bytes + size then
      evict settings size entries (bytes - entry.2.size) (evictions + 1)
    else (entry :: entries, bytes, evictions)

def Cache.makeRoom (settings : Settings 𝕜) (cache : Cache κ ν 𝕜) (size : ℤ) : Cache κ ν 𝕜 :=
  let (entries, bytesUsed, evictions) := evict settings size cache.entries cache.bytesUsed cache.evictions
  { cache with entries, bytesUsed, evictions }

/-- The entry of a value that is stored. -/
def Settings.entry (settings : Settings 𝕜) (now : 𝕜) (value : ν) (size : ℤ) (flight : ℕ) : Entry ν 𝕜 :=
  ⟨now + settings.ttl, value, size, flight⟩

/-- A value stored in room that was made for it. -/
def Cache.store (settings : Settings 𝕜) (cache : Cache κ ν 𝕜) (key : κ) (now : 𝕜) (entry : Entry ν 𝕜) :
    Cache κ ν 𝕜 :=
  let cache := (cache.expire now).makeRoom settings entry.size
  { cache with
    entries := assign key entry cache.entries
    nextExpiry := min cache.nextExpiry entry.expiry
    bytesUsed := cache.bytesUsed + entry.size }

/-- Whether a value of a size is retained. -/
def Settings.retains (settings : Settings 𝕜) (size : ℤ) : Bool :=
  settings.maxEntries ≠ 0 && settings.ttl ≠ 0 && size ≤ settings.maxBytes

/-- The second section of a loading call: the expiry if it is retained. -/
def Cache.publish (settings : Settings 𝕜) (cache : Cache κ ν 𝕜) (key : κ) (flight : ℕ) (value : ν) (weight : ℤ)
    (now : 𝕜) : Option 𝕜 × Cache κ ν 𝕜 :=
  if cache.flights.lookup key = some flight then
    let size := max 0 weight
    if settings.retains size then
      let stored := cache.store settings key now (settings.entry now value size flight)
      (some (now + settings.ttl), { stored with flights := discard key stored.flights })
    else (none, { cache with flights := discard key cache.flights })
  else (none, cache)

/-- The second section of a call whose load failed. -/
def Cache.abandon (cache : Cache κ ν 𝕜) (key : κ) (flight : ℕ) : Cache κ ν 𝕜 :=
  if cache.flights.lookup key = some flight then { cache with flights := discard key cache.flights } else cache

/-- A step and the time at which it happened. -/
structure Moment (𝕜 : Type) where
  step : ℕ
  time : 𝕜

/-- The result of a flight: a value, with its expiry if it was retained, or an error. -/
inductive Outcome (ν ε 𝕜 : Type) where
  | value (value : ν) (expiry : Option 𝕜) (published : Moment 𝕜)
  | error (error : ε)

/-- How a value is returned. -/
inductive Service where
  | hit
  | peek
  | owner
  | waiter
  deriving DecidableEq

/-- A returned value with its call, its flight and its times. -/
structure Return (κ ν 𝕜 : Type) where
  service : Service
  key : κ
  begun : ℕ
  flight : ℕ
  value : ν
  decided : Moment 𝕜
  time : 𝕜
  expiry : Option 𝕜

/-- A caller that waits. -/
structure Waiter (κ : Type) where
  key : κ
  flight : ℕ

/-- A cache and its callers. -/
structure System (κ ν ε 𝕜 : Type) where
  cache : Cache κ ν 𝕜
  clock : 𝕜
  steps : ℕ
  /-- Callers that load, by their flight. -/
  loading : List (ℕ × κ)
  /-- Callers that wait, by the step in which they began. -/
  waiting : List (ℕ × Waiter κ)
  /-- Flights that are ready. -/
  ready : List (ℕ × Outcome ν ε 𝕜)
  returned : List (Return κ ν 𝕜)
  /-- The steps that invalidated a key, or all of them. -/
  invalidated : List (ℕ × Option κ)

def System.init (clock : 𝕜) : System κ ν ε 𝕜 := ⟨.empty, clock, 0, [], [], [], [], []⟩

inductive Action (κ ν ε 𝕜 : Type) where
  | tick (later : 𝕜)
  /-- A call of `get_or_load` begins. -/
  | call (key : κ)
  /-- The load of a flight and its weighing have returned. -/
  | loaded (flight : ℕ) (value : ν) (weight : ℤ)
  /-- The load of a flight or its weighing has raised. -/
  | failed (flight : ℕ) (error : ε)
  /-- A caller that waits reads the result of its flight. -/
  | wake (caller : ℕ)
  | peek (key : κ)
  | invalidate (key : κ)
  | clear

/-- The present moment. -/
def System.now (system : System κ ν ε 𝕜) : Moment 𝕜 := ⟨system.steps, system.clock⟩

/-- A value found among the entries. -/
def System.found (system : System κ ν ε 𝕜) (service : Service) (key : κ) (entry : Entry ν 𝕜) : Return κ ν 𝕜 :=
  ⟨service, key, system.steps, entry.flight, entry.value, system.now, system.clock, some entry.expiry⟩

/-- A call of `get_or_load` begins. -/
def System.call (system : System κ ν ε 𝕜) (key : κ) : System κ ν ε 𝕜 :=
  match system.cache.enter key system.clock system.steps with
  | (.hit entry, cache) => { system with cache, returned := system.found .hit key entry :: system.returned }
  | (.own flight, cache) => { system with cache, loading := (flight, key) :: system.loading }
  | (.join flight, cache) => { system with cache, waiting := (system.steps, ⟨key, flight⟩) :: system.waiting }

def System.loaded (settings : Settings 𝕜) (system : System κ ν ε 𝕜) (flight : ℕ) (value : ν) (weight : ℤ) :
    Option (System κ ν ε 𝕜) :=
  (system.loading.lookup flight).map fun key ↦
    let (expiry, cache) := system.cache.publish settings key flight value weight system.clock
    { system with
      cache
      loading := discard flight system.loading
      ready := (flight, .value value expiry system.now) :: system.ready
      returned := ⟨.owner, key, flight, flight, value, system.now, system.clock, expiry⟩ :: system.returned }

def System.failed (system : System κ ν ε 𝕜) (flight : ℕ) (error : ε) : Option (System κ ν ε 𝕜) :=
  (system.loading.lookup flight).map fun key ↦
    { system with
      cache := system.cache.abandon key flight
      loading := discard flight system.loading
      ready := (flight, .error error) :: system.ready }

def System.wake (system : System κ ν ε 𝕜) (caller : ℕ) : Option (System κ ν ε 𝕜) := do
  let waiter ← system.waiting.lookup caller
  let outcome ← system.ready.lookup waiter.flight
  let resumed := { system with waiting := discard caller system.waiting }
  match outcome with
  | .error _ => return resumed
  | .value value expiry published =>
    return { resumed with
      returned := ⟨.waiter, waiter.key, caller, waiter.flight, value, published, system.clock, expiry⟩ ::
        system.returned }

def System.peek (system : System κ ν ε 𝕜) (key : κ) : System κ ν ε 𝕜 :=
  match system.cache.peek key system.clock with
  | (none, cache) => { system with cache }
  | (some entry, cache) => { system with cache, returned := system.found .peek key entry :: system.returned }

/-- The effect of an action, when it is possible. -/
def System.act (settings : Settings 𝕜) (system : System κ ν ε 𝕜) : Action κ ν ε 𝕜 → Option (System κ ν ε 𝕜)
  | .tick later => if system.clock ≤ later then some { system with clock := later } else none
  | .call key => some (system.call key)
  | .loaded flight value weight => system.loaded settings flight value weight
  | .failed flight error => system.failed flight error
  | .wake caller => system.wake caller
  | .peek key => some (system.peek key)
  | .invalidate key =>
    some { system with
      cache := system.cache.invalidate key
      invalidated := (system.steps, some key) :: system.invalidated }
  | .clear =>
    some { system with cache := system.cache.clear, invalidated := (system.steps, none) :: system.invalidated }

/-- One step. -/
def System.step (settings : Settings 𝕜) (system : System κ ν ε 𝕜) (action : Action κ ν ε 𝕜) :
    Option (System κ ν ε 𝕜) :=
  (system.act settings action).map fun next ↦ { next with steps := system.steps + 1 }

/-- The systems that some interleaving reaches. -/
inductive Reachable (settings : Settings 𝕜) : System κ ν ε 𝕜 → Prop
  | init (clock : 𝕜) : Reachable settings (.init clock)
  | step {system next : System κ ν ε 𝕜} (action : Action κ ν ε 𝕜) (h : Reachable settings system)
      (hstep : system.step settings action = some next) : Reachable settings next

end UniMem.RuntimeCache
