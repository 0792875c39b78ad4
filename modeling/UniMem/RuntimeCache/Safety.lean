import UniMem.RuntimeCache

/-!
# What a shared cache keeps

The bounds hold, and what was loaded before an invalidation is neither retained after it nor returned to a call that
began after it. A caller that waits gets what its flight published.
-/

set_option linter.unusedSectionVars false

namespace UniMem.RuntimeCache

open Library

variable {κ ν ε 𝕜 : Type} [DecidableEq κ] [Field 𝕜] [LinearOrder 𝕜] [IsStrictOrderedRing 𝕜]
  {settings : Settings 𝕜} {cache : Cache κ ν 𝕜} {entries : List (κ × Entry ν 𝕜)} {key : κ} {now : 𝕜}

/-! ## Accounts -/

/-- The accounts of a cache: bytes, bounds and the least expiry. -/
structure Sound (settings : Settings 𝕜) (cache : Cache κ ν 𝕜) : Prop where
  keys : (cache.entries.map Prod.fst).Nodup
  flightKeys : (cache.flights.map Prod.fst).Nodup
  disjoint : ∀ entry ∈ cache.entries, entry.1 ∉ cache.flights.map Prod.fst
  sizes : ∀ entry ∈ cache.entries, 0 ≤ entry.2.size
  bytes : cache.bytesUsed = total Entry.size cache.entries
  bytes_le : cache.bytesUsed ≤ settings.maxBytes
  length_le : cache.entries.length ≤ settings.maxEntries
  expiry : ∀ entry ∈ cache.entries, cache.nextExpiry ≤ entry.2.expiry

theorem total_sublist_le {part : List (κ × Entry ν 𝕜)} (hpart : part.Sublist entries)
    (h : ∀ entry ∈ entries, 0 ≤ entry.2.size) : total Entry.size part ≤ total Entry.size entries := by
  induction hpart with
  | slnil => exact le_rfl
  | cons entry _ ih =>
    rw [total_cons]
    have hsize := h entry List.mem_cons_self
    have hrest := ih fun other hother ↦ h other (List.mem_cons_of_mem _ hother)
    omega
  | cons_cons entry _ ih =>
    rw [total_cons, total_cons]
    have hrest := ih fun other hother ↦ h other (List.mem_cons_of_mem _ hother)
    omega

theorem total_append (first second : List (κ × Entry ν 𝕜)) :
    total Entry.size (first ++ second) = total Entry.size first + total Entry.size second := by
  rw [total, List.map_append, List.sum_append, total, total]

theorem Sound.of_sublist (h : Sound settings cache) {next : Cache κ ν 𝕜}
    (hentries : next.entries.Sublist cache.entries) (hflights : next.flights.Sublist cache.flights)
    (hbytes : next.bytesUsed = total Entry.size next.entries)
    (hexpiry : ∀ entry ∈ next.entries, next.nextExpiry ≤ entry.2.expiry) : Sound settings next where
  keys := h.keys.sublist (hentries.map _)
  flightKeys := h.flightKeys.sublist (hflights.map _)
  disjoint := fun entry hentry hmem ↦ h.disjoint entry (hentries.subset hentry) ((hflights.map _).subset hmem)
  sizes := fun entry hentry ↦ h.sizes entry (hentries.subset hentry)
  bytes := hbytes
  bytes_le := by
    have hle := total_sublist_le hentries h.sizes
    rw [← hbytes, ← h.bytes] at hle
    exact hle.trans h.bytes_le
  length_le := hentries.length_le.trans h.length_le
  expiry := hexpiry

theorem sound_empty : Sound settings (.empty : Cache κ ν 𝕜) where
  keys := List.nodup_nil
  flightKeys := List.nodup_nil
  disjoint := fun _ h ↦ absurd h List.not_mem_nil
  sizes := fun _ h ↦ absurd h List.not_mem_nil
  bytes := rfl
  bytes_le := Int.natCast_nonneg _
  length_le := Nat.zero_le _
  expiry := fun _ h ↦ absurd h List.not_mem_nil

theorem Sound.clear (h : Sound settings cache) : Sound settings cache.clear :=
  h.of_sublist (List.nil_sublist _) (List.nil_sublist _) rfl fun _ hentry ↦ absurd hentry List.not_mem_nil

theorem entries_pop (cache : Cache κ ν 𝕜) (key : κ) : (cache.pop key).entries = discard key cache.entries := by
  unfold Cache.pop
  cases hlookup : cache.entries.lookup key with
  | none =>
    refine (List.filter_eq_self.mpr fun entry hentry ↦ ?_).symm
    rw [decide_eq_true_eq]
    intro hkey
    exact notMem_of_lookup_eq_none hlookup (List.mem_map.mpr ⟨entry, hentry, hkey⟩)
  | some entry => rfl

theorem flights_pop (cache : Cache κ ν 𝕜) (key : κ) : (cache.pop key).flights = cache.flights := by
  unfold Cache.pop
  cases cache.entries.lookup key with
  | none => rfl
  | some entry => rfl

section

variable (h : Sound settings cache)
include h

theorem Sound.pop (key : κ) : Sound settings (cache.pop key) := by
  have hbytes : (cache.pop key).bytesUsed = total Entry.size (cache.pop key).entries := by
    rw [entries_pop, total_discard _ _ h.keys, ← h.bytes]
    unfold Cache.pop
    cases cache.entries.lookup key with
    | none => exact (sub_zero _).symm
    | some entry => rfl
  have hnext : (cache.pop key).nextExpiry = cache.nextExpiry := by
    unfold Cache.pop
    cases cache.entries.lookup key with
    | none => rfl
    | some entry => rfl
  have hsublist : (cache.pop key).entries.Sublist cache.entries := by
    rw [entries_pop]
    exact discard_sublist key _
  refine h.of_sublist hsublist (flights_pop cache key ▸ List.Sublist.refl _) hbytes fun entry hentry ↦ ?_
  rw [hnext]
  exact h.expiry entry (hsublist.subset hentry)

theorem Sound.invalidate (key : κ) : Sound settings (cache.invalidate key) :=
  (h.pop key).of_sublist (List.Sublist.refl _)
    (flights_pop cache key ▸ discard_sublist key cache.flights) (h.pop key).bytes (h.pop key).expiry

variable {entry : Entry ν 𝕜} {value : ν} {error : ε}

omit h in
theorem mem_moveToEnd {other : κ × Entry ν 𝕜} (hlookup : cache.entries.lookup key = some entry)
    (hother : other ∈ (cache.moveToEnd key entry).entries) : other ∈ cache.entries := by
  obtain hold | hnew := List.mem_append.mp hother
  · exact (discard_sublist key _).subset hold
  · obtain rfl := List.mem_singleton.mp hnew
    exact mem_of_lookup hlookup

theorem Sound.moveToEnd (hlookup : cache.entries.lookup key = some entry) :
    Sound settings (cache.moveToEnd key entry) where
  keys := by
    rw [Cache.moveToEnd, List.map_append]
    refine (h.keys.sublist ((discard_sublist key _).map _)).append (List.nodup_singleton _) fun other hother hkey ↦ ?_
    obtain rfl := List.mem_singleton.mp hkey
    exact notMem_discard _ _ hother
  flightKeys := h.flightKeys
  disjoint := fun other hother ↦ h.disjoint other (mem_moveToEnd hlookup hother)
  sizes := fun other hother ↦ h.sizes other (mem_moveToEnd hlookup hother)
  bytes := by
    rw [Cache.moveToEnd]
    dsimp only
    rw [total_append, total_discard _ _ h.keys, hlookup, h.bytes, total_cons, total_nil]
    simp
  bytes_le := h.bytes_le
  length_le := by
    have hlength : (discard key cache.entries).length < cache.entries.length := by
      refine List.length_filter_lt_length_iff_exists.mpr ⟨(key, entry), mem_of_lookup hlookup, ?_⟩
      simp
    have hle := h.length_le
    rw [Cache.moveToEnd]
    dsimp only
    rw [List.length_append, List.length_singleton]
    omega
  expiry := fun other hother ↦ h.expiry other (mem_moveToEnd hlookup hother)

theorem Sound.fly (hkey : key ∉ cache.entries.map Prod.fst) (fresh : ℕ) :
    Sound settings (cache.fly key fresh).2 := by
  unfold Cache.fly
  cases hlookup : cache.flights.lookup key with
  | some flight => exact ⟨h.keys, h.flightKeys, h.disjoint, h.sizes, h.bytes, h.bytes_le, h.length_le, h.expiry⟩
  | none =>
    refine ⟨h.keys, ?_, ?_, h.sizes, h.bytes, h.bytes_le, h.length_le, h.expiry⟩
    · dsimp only
      rw [List.map_append]
      refine h.flightKeys.append (List.nodup_singleton _) fun other hother hsame ↦ ?_
      obtain rfl := List.mem_singleton.mp hsame
      exact notMem_of_lookup_eq_none hlookup hother
    · intro entry hentry hmem
      dsimp only at hmem
      rw [List.map_append] at hmem
      obtain hold | hnew := List.mem_append.mp hmem
      · exact h.disjoint entry hentry hold
      · obtain heq := List.mem_singleton.mp hnew
        exact hkey (List.mem_map.mpr ⟨entry, hentry, heq⟩)

theorem Sound.enter (key : κ) (now : 𝕜) (fresh : ℕ) :
    Sound settings (cache.enter key now fresh).2 := by
  unfold Cache.enter
  cases hlookup : cache.entries.lookup key with
  | none => exact h.fly (notMem_of_lookup_eq_none hlookup) fresh
  | some entry =>
    dsimp only
    split_ifs
    · have hmoved := h.moveToEnd hlookup
      exact ⟨hmoved.keys, hmoved.flightKeys, hmoved.disjoint, hmoved.sizes, hmoved.bytes, hmoved.bytes_le,
        hmoved.length_le, hmoved.expiry⟩
    · refine (h.pop key).fly ?_ fresh
      rw [entries_pop]
      exact notMem_discard key _

theorem Sound.peek (key : κ) (now : 𝕜) : Sound settings (cache.peek key now).2 := by
  unfold Cache.peek
  cases hlookup : cache.entries.lookup key with
  | none => exact h
  | some entry =>
    dsimp only
    split_ifs
    · exact h.pop key
    · exact h.moveToEnd hlookup

end

theorem leastExpiry_le {entry : κ × Entry ν 𝕜} (h : entry ∈ entries) :
    leastExpiry entries ≤ (entry.2.expiry : WithTop 𝕜) := by
  induction entries with
  | nil => cases h
  | cons other entries ih =>
    rw [leastExpiry, List.foldr_cons]
    obtain rfl | h := List.mem_cons.mp h
    · exact min_le_left _ _
    · exact (min_le_right _ _).trans (ih h)

theorem flights_expire (cache : Cache κ ν 𝕜) (now : 𝕜) : (cache.expire now).flights = cache.flights := by
  unfold Cache.expire
  split_ifs
  · rfl
  · rfl

theorem entries_expire (cache : Cache κ ν 𝕜) (now : 𝕜) : (cache.expire now).entries.Sublist cache.entries := by
  unfold Cache.expire
  split_ifs
  · exact List.filter_sublist
  · exact List.Sublist.refl _

theorem Sound.expire (h : Sound settings cache) (now : 𝕜) : Sound settings (cache.expire now) := by
  refine h.of_sublist (entries_expire cache now) (flights_expire cache now ▸ List.Sublist.refl _) ?_ ?_
  · unfold Cache.expire
    split_ifs
    · have hsplit := total_filter_add Entry.size (fun entry ↦ decide (now < entry.2.expiry)) cache.entries
      have hbytes := h.bytes
      dsimp only
      omega
    · exact h.bytes
  · unfold Cache.expire
    split_ifs
    · exact fun entry hentry ↦ leastExpiry_le hentry
    · exact h.expiry

theorem evict_spec (settings : Settings 𝕜) (size : ℤ) (entries : List (κ × Entry ν 𝕜)) (bytes : ℤ) (evictions : ℕ) :
    (evict settings size entries bytes evictions).1.Sublist entries ∧
      (evict settings size entries bytes evictions).2.1 - total Entry.size
        (evict settings size entries bytes evictions).1 = bytes - total Entry.size entries ∧
      ((evict settings size entries bytes evictions).1 = [] ∨
        (evict settings size entries bytes evictions).1.length < settings.maxEntries ∧
          (evict settings size entries bytes evictions).2.1 + size ≤ settings.maxBytes) := by
  induction entries generalizing bytes evictions with
  | nil => exact ⟨List.Sublist.refl _, rfl, .inl rfl⟩
  | cons entry entries ih =>
    rw [evict]
    split_ifs with hfull
    · obtain ⟨hsublist, hbytes, hroom⟩ := ih (bytes - entry.2.size) (evictions + 1)
      refine ⟨hsublist.cons entry, ?_, hroom⟩
      rw [hbytes, total_cons]
      ring
    · rw [not_or, not_le, not_lt] at hfull
      exact ⟨List.Sublist.refl _, rfl, .inr hfull⟩

theorem Sound.makeRoom (h : Sound settings cache) (size : ℤ) : Sound settings (cache.makeRoom settings size) := by
  obtain ⟨hsublist, hbytes, -⟩ := evict_spec settings size cache.entries cache.bytesUsed cache.evictions
  refine h.of_sublist hsublist (List.Sublist.refl _) ?_ fun entry hentry ↦ h.expiry entry (hsublist.subset hentry)
  exact sub_eq_zero.mp (hbytes.trans (sub_eq_zero.mpr h.bytes))

theorem room_makeRoom (h : Sound settings cache) {size : ℤ} (hretains : settings.retains size = true) :
    (cache.makeRoom settings size).entries.length + 1 ≤ settings.maxEntries ∧
      (cache.makeRoom settings size).bytesUsed + size ≤ settings.maxBytes := by
  rw [Settings.retains, Bool.and_eq_true, Bool.and_eq_true, decide_eq_true_eq, decide_eq_true_eq,
    decide_eq_true_eq] at hretains
  obtain ⟨-, -, hroom⟩ := evict_spec settings size cache.entries cache.bytesUsed cache.evictions
  have hsound := (h.makeRoom size).bytes
  obtain hempty | hroom := hroom
  · have hentries : (cache.makeRoom settings size).entries = [] := hempty
    rw [hsound, hentries, total_nil, zero_add, List.length_nil, zero_add]
    exact ⟨Nat.one_le_iff_ne_zero.mpr hretains.1.1, hretains.2⟩
  · exact ⟨hroom.1, hroom.2⟩

theorem entries_makeRoom (settings : Settings 𝕜) (cache : Cache κ ν 𝕜) (size : ℤ) :
    (cache.makeRoom settings size).entries.Sublist cache.entries :=
  (evict_spec settings size cache.entries cache.bytesUsed cache.evictions).1

/-- The cache in which a value is stored. -/
def Cache.prepared (settings : Settings 𝕜) (cache : Cache κ ν 𝕜) (now : 𝕜) (size : ℤ) : Cache κ ν 𝕜 :=
  (cache.expire now).makeRoom settings size

theorem entries_prepared (settings : Settings 𝕜) (cache : Cache κ ν 𝕜) (now : 𝕜) (size : ℤ) :
    (cache.prepared settings now size).entries.Sublist cache.entries :=
  (entries_makeRoom settings _ size).trans (entries_expire cache now)

theorem flights_prepared (settings : Settings 𝕜) (cache : Cache κ ν 𝕜) (now : 𝕜) (size : ℤ) :
    (cache.prepared settings now size).flights = cache.flights := flights_expire cache now

theorem publish_spec (settings : Settings 𝕜) (cache : Cache κ ν 𝕜) (key : κ) (flight : ℕ) (value : ν) (weight : ℤ)
    (now : 𝕜) :
    (cache.publish settings key flight value weight now = (none, cache) ∧ cache.flights.lookup key ≠ some flight) ∨
      cache.flights.lookup key = some flight ∧ (cache.publish settings key flight value weight now =
          (none, { cache with flights := discard key cache.flights }) ∨
        settings.retains (max 0 weight) = true ∧
        cache.publish settings key flight value weight now = (some (now + settings.ttl),
          { cache.prepared settings now (max 0 weight) with
            entries := assign key (settings.entry now value (max 0 weight) flight)
              (cache.prepared settings now (max 0 weight)).entries
            nextExpiry := min (cache.prepared settings now (max 0 weight)).nextExpiry ↑(now + settings.ttl)
            bytesUsed := (cache.prepared settings now (max 0 weight)).bytesUsed + max 0 weight
            flights := discard key cache.flights })) := by
  unfold Cache.publish
  by_cases hflight : cache.flights.lookup key = some flight
  · rw [if_pos hflight]
    dsimp only
    refine .inr ⟨hflight, ?_⟩
    cases hretains : settings.retains (max 0 weight) with
    | false => exact .inl rfl
    | true =>
      refine .inr ⟨rfl, ?_⟩
      rw [if_pos rfl, ← flights_prepared settings cache now (max 0 weight)]
      rfl
  · rw [if_neg hflight]
    exact .inl ⟨rfl, hflight⟩

theorem mem_keys_of_lookup {β : Type} {entries : List (κ × β)} {value : β} (h : entries.lookup key = some value) :
    key ∈ entries.map Prod.fst := List.mem_map.mpr ⟨_, mem_of_lookup h, rfl⟩

theorem Sound.publish (h : Sound settings cache) (key : κ) (flight : ℕ) (value : ν) (weight : ℤ) (now : 𝕜) :
    Sound settings (cache.publish settings key flight value weight now).2 := by
  obtain ⟨heq, -⟩ | ⟨hflight, heq | ⟨hretains, heq⟩⟩ := publish_spec settings cache key flight value weight now
  · rw [heq]
    exact h
  · rw [heq]
    exact h.of_sublist (List.Sublist.refl _) (discard_sublist key _) h.bytes h.expiry
  · rw [heq]
    have hprepared : Sound settings (cache.prepared settings now (max 0 weight)) := (h.expire now).makeRoom _
    obtain ⟨hlength, hbytes⟩ := room_makeRoom (h.expire now) hretains
    have hsublist := entries_prepared settings cache now (max 0 weight)
    set ready := cache.prepared settings now (max 0 weight) with hready
    have hkey : key ∉ ready.entries.map Prod.fst := by
      intro hmem
      obtain ⟨entry, hentry, hsame⟩ := List.mem_map.mp hmem
      refine h.disjoint entry (hsublist.subset hentry) ?_
      rw [hsame]
      exact mem_keys_of_lookup hflight
    rw [assign_of_notMem hkey]
    set entry := settings.entry now value (max 0 weight) flight with hentry
    have hmem : ∀ other ∈ ready.entries ++ [(key, entry)], other ∈ ready.entries ∨ other = (key, entry) :=
      fun other hother ↦ (List.mem_append.mp hother).imp_right List.mem_singleton.mp
    refine ⟨?_, ?_, ?_, ?_, ?_, hbytes, ?_, ?_⟩
    · rw [List.map_append]
      refine hprepared.keys.append (List.nodup_singleton _) fun other hother hsame ↦ ?_
      obtain rfl := List.mem_singleton.mp hsame
      exact hkey hother
    · exact h.flightKeys.sublist ((discard_sublist key _).map _)
    · intro other hother hloading
      obtain hold | rfl := hmem other hother
      · exact h.disjoint other (hsublist.subset hold) (((discard_sublist key _).map _).subset hloading)
      · exact notMem_discard key _ hloading
    · intro other hother
      obtain hold | rfl := hmem other hother
      · exact hprepared.sizes other hold
      · exact le_max_left _ _
    · dsimp only
      rw [total_append, hprepared.bytes, total_cons, total_nil, add_zero]
      rfl
    · dsimp only
      rw [List.length_append, List.length_singleton]
      exact hlength
    · intro other hother
      obtain hold | rfl := hmem other hother
      · exact (min_le_left _ _).trans (hprepared.expiry other hold)
      · exact min_le_right _ _

theorem Sound.abandon (h : Sound settings cache) (key : κ) (flight : ℕ) :
    Sound settings (cache.abandon key flight) := by
  unfold Cache.abandon
  split_ifs
  · exact h.of_sublist (List.Sublist.refl _) (discard_sublist key _) h.bytes h.expiry
  · exact h


/-! ## Runs -/

/-- An invalidation concerns a key when it names the key or clears everything. -/
def Concerns (invalidation : ℕ × Option κ) (key : κ) : Prop := invalidation.2 = none ∨ invalidation.2 = some key

/-- A flight began after every invalidation of its key. -/
def Fresh (system : System κ ν ε 𝕜) (key : κ) (flight : ℕ) : Prop :=
  ∀ invalidation ∈ system.invalidated, Concerns invalidation key → invalidation.1 < flight

/-- A flight began after every invalidation of its key before the call. -/
def FreshFor (system : System κ ν ε 𝕜) (key : κ) (begun flight : ℕ) : Prop :=
  ∀ invalidation ∈ system.invalidated, Concerns invalidation key → invalidation.1 < begun → invalidation.1 < flight

/-- The flight published the value after the invalidations, and it had not expired. -/
structure Served (system : System κ ν ε 𝕜) (served : Return κ ν 𝕜) : Prop where
  begun_lt : served.begun < system.steps
  fresh : FreshFor system served.key served.begun served.flight
  published : ∃ published, (served.flight, .value served.value served.expiry published) ∈ system.ready
  begun_le : served.begun ≤ served.decided.step
  decided_le : served.decided.time ≤ served.time
  unexpired : ∀ expiry ∈ served.expiry, served.decided.time < expiry
  decided_eq : served.service ≠ .waiter → served.decided.time = served.time

/-- The invariant of a cache and its callers. -/
structure Traced (settings : Settings 𝕜) (system : System κ ν ε 𝕜) : Prop where
  sound : Sound settings system.cache
  loadingKeys : (system.loading.map Prod.fst).Nodup
  loading_lt : ∀ load ∈ system.loading, load.1 < system.steps
  readyKeys : (system.ready.map Prod.fst).Nodup
  ready_lt : ∀ entry ∈ system.ready, entry.1 < system.steps
  unready : ∀ load ∈ system.loading, load.1 ∉ system.ready.map Prod.fst
  decided : ∀ flight value expiry published, (flight, .value value expiry published) ∈ system.ready →
    published.time ≤ system.clock ∧ ∀ time ∈ expiry, published.time < time
  flights : ∀ flight ∈ system.cache.flights, (flight.2, flight.1) ∈ system.loading ∧ Fresh system flight.1 flight.2
  entries : ∀ entry ∈ system.cache.entries,
    (∃ published, (entry.2.flight, .value entry.2.value (some entry.2.expiry) published) ∈ system.ready) ∧
      Fresh system entry.1 entry.2.flight
  invalidated_lt : ∀ invalidation ∈ system.invalidated, invalidation.1 < system.steps
  waiting : ∀ waiter ∈ system.waiting, waiter.1 < system.steps ∧
    FreshFor system waiter.2.key waiter.1 waiter.2.flight
  joined : ∀ waiter ∈ system.waiting, ∀ value expiry published,
    (waiter.2.flight, .value value expiry published) ∈ system.ready → waiter.1 ≤ published.step
  returned : ∀ served ∈ system.returned, Served system served

variable {system next : System κ ν ε 𝕜}

theorem traced_init (settings : Settings 𝕜) (clock : 𝕜) : Traced settings (.init clock : System κ ν ε 𝕜) where
  sound := sound_empty
  loadingKeys := List.nodup_nil
  loading_lt := fun _ h ↦ absurd h List.not_mem_nil
  readyKeys := List.nodup_nil
  ready_lt := fun _ h ↦ absurd h List.not_mem_nil
  unready := fun _ h ↦ absurd h List.not_mem_nil
  decided := fun _ _ _ _ h ↦ absurd h List.not_mem_nil
  flights := fun _ h ↦ absurd h List.not_mem_nil
  entries := fun _ h ↦ absurd h List.not_mem_nil
  invalidated_lt := fun _ h ↦ absurd h List.not_mem_nil
  waiting := fun _ h ↦ absurd h List.not_mem_nil
  joined := fun _ h ↦ absurd h List.not_mem_nil
  returned := fun _ h ↦ absurd h List.not_mem_nil

theorem Served.mono {served : Return κ ν 𝕜} (h : Served system served) (hsteps : system.steps ≤ next.steps)
    (hinvalidated : next.invalidated = system.invalidated) (hready : system.ready ⊆ next.ready) :
    Served next served where
  begun_lt := h.begun_lt.trans_le hsteps
  fresh := fun invalidation hmem ↦ h.fresh invalidation (hinvalidated ▸ hmem)
  published := h.published.imp fun _ hpublished ↦ hready hpublished
  begun_le := h.begun_le
  decided_le := h.decided_le
  unexpired := h.unexpired
  decided_eq := h.decided_eq

section

variable (h : Traced settings system)
include h

theorem Traced.advance {next : Cache κ ν 𝕜} (hsound : Sound settings next)
    (hflights : next.flights ⊆ system.cache.flights) (hentries : next.entries ⊆ system.cache.entries) {clock : 𝕜}
    (hclock : system.clock ≤ clock) :
    Traced settings { system with cache := next, clock, steps := system.steps + 1 } where
  sound := hsound
  loadingKeys := h.loadingKeys
  loading_lt := fun load hload ↦ (h.loading_lt load hload).trans (Nat.lt_succ_self _)
  readyKeys := h.readyKeys
  ready_lt := fun entry hentry ↦ (h.ready_lt entry hentry).trans (Nat.lt_succ_self _)
  unready := h.unready
  decided := fun flight value expiry published hmem ↦
    ⟨(h.decided flight value expiry published hmem).1.trans hclock, (h.decided flight value expiry published hmem).2⟩
  flights := fun flight hflight ↦ h.flights flight (hflights hflight)
  entries := fun entry hentry ↦ h.entries entry (hentries hentry)
  invalidated_lt := fun invalidation hmem ↦ (h.invalidated_lt invalidation hmem).trans (Nat.lt_succ_self _)
  waiting := fun waiter hwaiter ↦
    ⟨(h.waiting waiter hwaiter).1.trans (Nat.lt_succ_self _), (h.waiting waiter hwaiter).2⟩
  joined := h.joined
  returned := fun served hserved ↦ (h.returned served hserved).mono (Nat.le_succ _) rfl (List.Subset.refl _)

theorem Traced.serve {served : Return κ ν 𝕜} (hserved : Served system served) :
    Traced settings { system with returned := served :: system.returned } where
  sound := h.sound
  loadingKeys := h.loadingKeys
  loading_lt := h.loading_lt
  readyKeys := h.readyKeys
  ready_lt := h.ready_lt
  unready := h.unready
  decided := h.decided
  flights := h.flights
  entries := h.entries
  invalidated_lt := h.invalidated_lt
  waiting := h.waiting
  joined := h.joined
  returned := fun other hother ↦ by
    obtain rfl | hold := List.mem_cons.mp hother
    · exact hserved.mono le_rfl rfl (List.Subset.refl _)
    · exact (h.returned other hold).mono le_rfl rfl (List.Subset.refl _)

theorem Traced.served (hentry : (key, entry) ∈ system.cache.entries)
    (hlive : system.clock < entry.expiry) (service : Service) :
    Served { system with steps := system.steps + 1 } (system.found service key entry) where
  begun_lt := Nat.lt_succ_self _
  fresh := fun invalidation hmem hkey _ ↦ (h.entries _ hentry).2 invalidation hmem hkey
  published := (h.entries _ hentry).1
  begun_le := le_rfl
  decided_le := le_rfl
  unexpired := fun _ hexpiry ↦ Option.some.inj hexpiry ▸ hlive
  decided_eq := fun _ ↦ rfl

theorem Traced.moved {next : Cache κ ν 𝕜}
    (hlookup : system.cache.entries.lookup key = some entry) (hlive : system.clock < entry.expiry)
    (hsound : Sound settings next) (hflights : next.flights = system.cache.flights)
    (hentries : next.entries = (system.cache.moveToEnd key entry).entries) (service : Service) :
    Traced settings { system with
      cache := next
      steps := system.steps + 1
      returned := system.found service key entry :: system.returned } := by
  have hsubset : next.entries ⊆ system.cache.entries := by
    rw [hentries]
    exact fun _ hother ↦ mem_moveToEnd hlookup hother
  have hadvanced := h.advance hsound (hflights ▸ List.Subset.refl _) hsubset le_rfl
  exact hadvanced.serve ((h.served (mem_of_lookup hlookup) hlive service).mono le_rfl rfl (List.Subset.refl _))

theorem Traced.peek (key : κ) :
    Traced settings { system.peek key with steps := system.steps + 1 } := by
  have hsound := h.sound.peek key system.clock
  unfold System.peek
  cases hlookup : system.cache.entries.lookup key with
  | none =>
    have hpeek : system.cache.peek key system.clock = (none, system.cache) := by rw [Cache.peek, hlookup]
    rw [hpeek]
    exact h.advance h.sound (List.Subset.refl _) (List.Subset.refl _) le_rfl
  | some entry =>
    by_cases hexpired : entry.expiry ≤ system.clock
    · have hpeek : system.cache.peek key system.clock = (none, system.cache.pop key) := by
        rw [Cache.peek, hlookup]
        exact if_pos hexpired
      rw [hpeek]
      refine h.advance (h.sound.pop key) (flights_pop system.cache key ▸ List.Subset.refl _) ?_ le_rfl
      rw [entries_pop]
      exact (discard_sublist key _).subset
    · have hpeek : system.cache.peek key system.clock = (some entry, system.cache.moveToEnd key entry) := by
        rw [Cache.peek, hlookup]
        exact if_neg hexpired
      rw [hpeek] at hsound ⊢
      exact h.moved hlookup (not_le.mp hexpired) hsound rfl rfl .peek

theorem Traced.fly (hkey : key ∉ system.cache.entries.map Prod.fst) :
    Traced settings { (match system.cache.fly key system.steps with
      | (.hit entry, cache) => { system with cache, returned := system.found .hit key entry :: system.returned }
      | (.own flight, cache) => { system with cache, loading := (flight, key) :: system.loading }
      | (.join flight, cache) => { system with cache, waiting := (system.steps, ⟨key, flight⟩) :: system.waiting } :
        System κ ν ε 𝕜) with steps := system.steps + 1 } := by
  have hsound := h.sound.fly hkey system.steps
  unfold Cache.fly at hsound ⊢
  cases hlookup : system.cache.flights.lookup key with
  | none =>
    rw [hlookup] at hsound
    have hfresh : ∀ name : ℕ, name < system.steps → system.steps ≠ name := fun name hlt heq ↦ hlt.ne heq.symm
    refine ⟨hsound, ?_, ?_, h.readyKeys, ?_, ?_, h.decided, ?_, h.entries, ?_, ?_, h.joined, ?_⟩
    · refine List.nodup_cons.mpr ⟨fun hmem ↦ ?_, h.loadingKeys⟩
      obtain ⟨load, hload, heq⟩ := List.mem_map.mp hmem
      exact hfresh _ (h.loading_lt load hload) heq.symm
    · intro load hload
      obtain rfl | hold := List.mem_cons.mp hload
      · exact Nat.lt_succ_self _
      · exact (h.loading_lt load hold).trans (Nat.lt_succ_self _)
    · exact fun entry hentry ↦ (h.ready_lt entry hentry).trans (Nat.lt_succ_self _)
    · intro load hload hready
      obtain rfl | hold := List.mem_cons.mp hload
      · obtain ⟨entry, hentry, heq⟩ := List.mem_map.mp hready
        exact hfresh _ (h.ready_lt entry hentry) heq.symm
      · exact h.unready load hold hready
    · intro flight hflight
      obtain hold | hnew := List.mem_append.mp hflight
      · exact ⟨List.mem_cons_of_mem _ (h.flights flight hold).1, (h.flights flight hold).2⟩
      · obtain rfl := List.mem_singleton.mp hnew
        exact ⟨List.mem_cons_self, fun invalidation hmem _ ↦ h.invalidated_lt invalidation hmem⟩
    · exact fun invalidation hmem ↦ (h.invalidated_lt invalidation hmem).trans (Nat.lt_succ_self _)
    · exact fun waiter hwaiter ↦
        ⟨(h.waiting waiter hwaiter).1.trans (Nat.lt_succ_self _), (h.waiting waiter hwaiter).2⟩
    · exact fun served hserved ↦ (h.returned served hserved).mono (Nat.le_succ _) rfl (List.Subset.refl _)
  | some flight =>
    rw [hlookup] at hsound
    have hadvanced := h.advance hsound (List.Subset.refl _) (List.Subset.refl _) le_rfl
    refine ⟨hadvanced.sound, hadvanced.loadingKeys, hadvanced.loading_lt, hadvanced.readyKeys, hadvanced.ready_lt,
      hadvanced.unready, hadvanced.decided, hadvanced.flights, hadvanced.entries, hadvanced.invalidated_lt, ?_, ?_,
      fun served hserved ↦ (hadvanced.returned served hserved).mono le_rfl rfl (List.Subset.refl _)⟩
    · intro waiter hwaiter
      obtain rfl | hold := List.mem_cons.mp hwaiter
      · exact ⟨Nat.lt_succ_self _, fun invalidation hmem hconcerns _ ↦
          (h.flights _ (mem_of_lookup hlookup)).2 invalidation hmem hconcerns⟩
      · exact hadvanced.waiting waiter hold
    · intro waiter hwaiter value expiry published hready
      obtain rfl | hold := List.mem_cons.mp hwaiter
      · exact absurd (List.mem_map.mpr ⟨_, hready, rfl⟩) (h.unready _ (h.flights _ (mem_of_lookup hlookup)).1)
      · exact hadvanced.joined waiter hold value expiry published hready

theorem Traced.call (key : κ) :
    Traced settings { system.call key with steps := system.steps + 1 } := by
  unfold System.call
  cases hlookup : system.cache.entries.lookup key with
  | none =>
    have henter : system.cache.enter key system.clock system.steps = system.cache.fly key system.steps := by
      rw [Cache.enter, hlookup]
    rw [henter]
    exact h.fly (notMem_of_lookup_eq_none hlookup)
  | some entry =>
    by_cases hlive : system.clock < entry.expiry
    · have henter : system.cache.enter key system.clock system.steps = (.hit entry,
          { system.cache.moveToEnd key entry with hits := system.cache.hits + 1 }) := by
        rw [Cache.enter, hlookup]
        exact if_pos hlive
      have hsound := h.sound.enter key system.clock system.steps
      rw [henter] at hsound ⊢
      exact h.moved hlookup hlive hsound rfl rfl .hit
    · have henter : system.cache.enter key system.clock system.steps =
          (system.cache.pop key).fly key system.steps := by
        rw [Cache.enter, hlookup]
        exact if_neg hlive
      rw [henter]
      have hentries : (system.cache.pop key).entries ⊆ system.cache.entries := by
        rw [entries_pop]
        exact (discard_sublist key _).subset
      have hflights : (system.cache.pop key).flights ⊆ system.cache.flights :=
        flights_pop system.cache key ▸ List.Subset.refl _
      have hpopped : Traced settings { system with cache := system.cache.pop key } :=
        ⟨h.sound.pop key, h.loadingKeys, h.loading_lt, h.readyKeys, h.ready_lt, h.unready, h.decided,
          fun flight hflight ↦ h.flights flight (hflights hflight), fun other hother ↦
            h.entries other (hentries hother),
          h.invalidated_lt, h.waiting, h.joined,
          fun served hserved ↦ (h.returned served hserved).mono le_rfl rfl (List.Subset.refl _)⟩
      refine hpopped.fly ?_
      dsimp only
      rw [entries_pop]
      exact notMem_discard key _

variable {flight : ℕ}

section

variable (hloading : system.loading.lookup flight = some key)
include hloading

theorem Traced.finish
    {next : Cache κ ν 𝕜} {outcome : Outcome ν ε 𝕜} (hsound : Sound settings next)
    (houtcome : ∀ value expiry published, outcome = .value value expiry published → published = system.now ∧
      ∀ time ∈ expiry, system.clock < time)
    (hflights : ∀ entry ∈ next.flights, entry ∈ system.cache.flights ∧ entry.2 ≠ flight)
    (hentries : ∀ entry ∈ next.entries, entry ∈ system.cache.entries ∨ entry.1 = key ∧ entry.2.flight = flight ∧
      outcome = .value entry.2.value (some entry.2.expiry) system.now ∧ Fresh system key flight) :
    Traced settings { system with
      cache := next
      loading := discard flight system.loading
      ready := (flight, outcome) :: system.ready
      steps := system.steps + 1 } where
  sound := hsound
  loadingKeys := h.loadingKeys.sublist ((discard_sublist flight _).map _)
  loading_lt := fun load hload ↦
    (h.loading_lt load ((discard_sublist flight _).subset hload)).trans (Nat.lt_succ_self _)
  readyKeys := List.nodup_cons.mpr ⟨h.unready _ (mem_of_lookup hloading), h.readyKeys⟩
  ready_lt := fun entry hentry ↦ by
    obtain rfl | hold := List.mem_cons.mp hentry
    · exact (h.loading_lt _ (mem_of_lookup hloading)).trans (Nat.lt_succ_self _)
    · exact (h.ready_lt entry hold).trans (Nat.lt_succ_self _)
  unready := fun load hload hready ↦ by
    obtain ⟨hmem, hne⟩ := List.mem_filter.mp hload
    obtain heq | hold := List.mem_cons.mp hready
    · exact of_decide_eq_true hne heq
    · exact h.unready load hmem hold
  decided := fun other value expiry published hmem ↦ by
    obtain hnew | hold := List.mem_cons.mp hmem
    · obtain ⟨rfl, hlive⟩ := houtcome value expiry published (Prod.mk.inj hnew).2.symm
      exact ⟨le_rfl, hlive⟩
    · exact h.decided other value expiry published hold
  flights := fun entry hentry ↦ by
    obtain ⟨hmem, hne⟩ := hflights entry hentry
    obtain ⟨hloads, hfresh⟩ := h.flights entry hmem
    exact ⟨List.mem_filter.mpr ⟨hloads, decide_eq_true hne⟩, hfresh⟩
  entries := fun entry hentry ↦ by
    obtain hold | ⟨hkey, hflight, hvalue, hfresh⟩ := hentries entry hentry
    · exact ⟨(h.entries entry hold).1.imp fun _ hready ↦ List.mem_cons_of_mem _ hready, (h.entries entry hold).2⟩
    · rw [hkey, hflight]
      exact ⟨⟨system.now, hvalue ▸ List.mem_cons_self⟩, hfresh⟩
  invalidated_lt := fun invalidation hmem ↦ (h.invalidated_lt invalidation hmem).trans (Nat.lt_succ_self _)
  waiting := fun waiter hwaiter ↦
    ⟨(h.waiting waiter hwaiter).1.trans (Nat.lt_succ_self _), (h.waiting waiter hwaiter).2⟩
  joined := fun waiter hwaiter value expiry published hmem ↦ by
    obtain hnew | hold := List.mem_cons.mp hmem
    · obtain ⟨rfl, -⟩ := houtcome value expiry published (Prod.mk.inj hnew).2.symm
      exact (h.waiting waiter hwaiter).1.le
    · exact h.joined waiter hwaiter value expiry published hold
  returned := fun served hserved ↦ (h.returned served hserved).mono (Nat.le_succ _) rfl (List.subset_cons_self _ _)

theorem Traced.flight_unique
    {entry : κ × ℕ} (hentry : entry ∈ system.cache.flights) (hflight : entry.2 = flight) : entry.1 = key := by
  have hlookup := (lookup_eq_some_iff_mem h.loadingKeys).mpr (h.flights entry hentry).1
  rw [hflight, hloading] at hlookup
  exact (Option.some.inj hlookup).symm

theorem Traced.flights_after
    {flights : List (κ × ℕ)}
    (hflights : flights = discard key system.cache.flights ∨ flights = system.cache.flights ∧
      system.cache.flights.lookup key ≠ some flight) :
    ∀ entry ∈ flights, entry ∈ system.cache.flights ∧ entry.2 ≠ flight := by
  obtain rfl | ⟨rfl, hother⟩ := hflights
  · intro entry hentry
    obtain ⟨hmem, hne⟩ := List.mem_filter.mp hentry
    exact ⟨hmem, fun heq ↦ of_decide_eq_true hne (h.flight_unique hloading hmem heq)⟩
  · refine fun entry hentry ↦ ⟨hentry, fun heq ↦ hother ?_⟩
    have hkey := h.flight_unique hloading hentry heq
    rw [lookup_eq_some_iff_mem h.sound.flightKeys, ← hkey, ← heq]
    exact hentry

theorem Traced.finish_value
    {next : Cache κ ν 𝕜} {expiry : Option 𝕜} (hsound : Sound settings next)
    (hlive : ∀ time ∈ expiry, system.clock < time)
    (hflights : next.flights = discard key system.cache.flights ∨ next.flights = system.cache.flights ∧
      system.cache.flights.lookup key ≠ some flight)
    (hentries : ∀ entry ∈ next.entries, entry ∈ system.cache.entries ∨ entry.1 = key ∧ entry.2.flight = flight ∧
      entry.2.value = value ∧ expiry = some entry.2.expiry ∧ Fresh system key flight) :
    Traced settings { system with
      cache := next
      loading := discard flight system.loading
      ready := (flight, .value value expiry system.now) :: system.ready
      returned := ⟨.owner, key, flight, flight, value, system.now, system.clock, expiry⟩ :: system.returned
      steps := system.steps + 1 } := by
  have hbegun := h.loading_lt _ (mem_of_lookup hloading)
  refine (h.finish hloading hsound ?_ (h.flights_after hloading hflights) fun entry hentry ↦ ?_).serve
    ⟨hbegun.trans (Nat.lt_succ_self _), fun _ _ _ hlt ↦ hlt, ⟨system.now, List.mem_cons_self⟩, hbegun.le, le_rfl,
      hlive, fun _ ↦ rfl⟩
  · rintro _ _ _ ⟨⟩
    exact ⟨rfl, hlive⟩
  · obtain hold | ⟨hkey, hflight, rfl, rfl, hfresh⟩ := hentries entry hentry
    · exact .inl hold
    · exact .inr ⟨hkey, hflight, rfl, hfresh⟩

end

theorem Traced.loaded {weight : ℤ}
    (hstep : system.loaded settings flight value weight = some next) :
    Traced settings { next with steps := system.steps + 1 } := by
  obtain ⟨key, hloading, rfl⟩ := Option.map_eq_some_iff.mp hstep
  have hsound := h.sound.publish key flight value weight system.clock
  have hnone : ∀ time ∈ (none : Option 𝕜), system.clock < time := fun _ htime ↦ by cases htime
  obtain ⟨heq, hother⟩ | ⟨hflight, heq | ⟨hretains, heq⟩⟩ :=
    publish_spec settings system.cache key flight value weight system.clock
  · rw [heq] at hsound ⊢
    exact h.finish_value hloading hsound hnone (.inr ⟨rfl, hother⟩) fun entry hentry ↦ .inl hentry
  · rw [heq] at hsound ⊢
    exact h.finish_value hloading hsound hnone (.inl rfl) fun entry hentry ↦ .inl hentry
  · rw [heq] at hsound ⊢
    refine h.finish_value hloading hsound (fun time htime ↦ ?_) (.inl rfl) fun entry hentry ↦ ?_
    · obtain rfl := Option.some.inj htime
      rw [Settings.retains, Bool.and_eq_true, Bool.and_eq_true, decide_eq_true_eq, decide_eq_true_eq] at hretains
      exact lt_add_of_pos_right _ (lt_of_le_of_ne settings.ttl_nonneg (Ne.symm hretains.1.2))
    · obtain rfl | hold := eq_or_mem_of_mem_assign hentry
      · exact .inr ⟨rfl, rfl, rfl, rfl, (h.flights _ (mem_of_lookup hflight)).2⟩
      · exact .inl ((entries_prepared settings system.cache _ _).subset hold)

theorem Traced.failed (hstep : system.failed flight error = some next) :
    Traced settings { next with steps := system.steps + 1 } := by
  obtain ⟨key, hloading, rfl⟩ := Option.map_eq_some_iff.mp hstep
  refine h.finish hloading (h.sound.abandon key flight) (fun _ _ _ heq ↦ by cases heq)
    (h.flights_after hloading ?_) fun entry hentry ↦ ?_
  · unfold Cache.abandon
    split_ifs with hflight
    · exact .inl rfl
    · exact .inr ⟨rfl, hflight⟩
  · unfold Cache.abandon at hentry
    split_ifs at hentry
    · exact .inl hentry
    · exact .inl hentry

theorem Traced.wake {caller : ℕ} (hstep : system.wake caller = some next) :
    Traced settings { next with steps := system.steps + 1 } := by
  obtain ⟨waiter, hwaiter, hstep⟩ := Option.bind_eq_some_iff.mp hstep
  obtain ⟨outcome, houtcome, hstep⟩ := Option.bind_eq_some_iff.mp hstep
  have hadvanced := h.advance h.sound (List.Subset.refl _) (List.Subset.refl _) le_rfl
  have hresumed : Traced settings { system with
      waiting := discard caller system.waiting, steps := system.steps + 1 } :=
    ⟨hadvanced.sound, hadvanced.loadingKeys, hadvanced.loading_lt, hadvanced.readyKeys, hadvanced.ready_lt,
      hadvanced.unready, hadvanced.decided, hadvanced.flights, hadvanced.entries, hadvanced.invalidated_lt,
      fun other hother ↦ hadvanced.waiting other ((discard_sublist caller _).subset hother),
      fun other hother ↦ hadvanced.joined other ((discard_sublist caller _).subset hother),
      fun served hserved ↦ (hadvanced.returned served hserved).mono le_rfl rfl (List.Subset.refl _)⟩
  obtain ⟨hbegun, hfresh⟩ := h.waiting _ (mem_of_lookup hwaiter)
  cases outcome with
  | error error =>
    obtain rfl := Option.some.inj hstep
    exact hresumed
  | value value expiry published =>
    obtain rfl := Option.some.inj hstep
    obtain ⟨hpast, hlive⟩ := h.decided _ _ _ _ (mem_of_lookup houtcome)
    have hjoined := h.joined _ (mem_of_lookup hwaiter) _ _ _ (mem_of_lookup houtcome)
    exact hresumed.serve ⟨hbegun.trans (Nat.lt_succ_self _), hfresh, ⟨published, mem_of_lookup houtcome⟩, hjoined,
      hpast, hlive, fun hservice ↦ absurd rfl hservice⟩

theorem Traced.invalidated {cache : Cache κ ν 𝕜} (wanted : Option κ)
    (hsound : Sound settings cache) (hflights : cache.flights ⊆ system.cache.flights)
    (hentries : cache.entries ⊆ system.cache.entries) (hgone : ∀ key, Concerns (system.steps, wanted) key →
      key ∉ cache.flights.map Prod.fst ∧ key ∉ cache.entries.map Prod.fst) :
    Traced settings { system with
      cache, invalidated := (system.steps, wanted) :: system.invalidated, steps := system.steps + 1 } := by
  have hadvanced := h.advance hsound hflights hentries le_rfl
  refine ⟨hsound, hadvanced.loadingKeys, hadvanced.loading_lt, hadvanced.readyKeys, hadvanced.ready_lt,
    hadvanced.unready, hadvanced.decided, fun flight hflight ↦ ⟨(hadvanced.flights flight hflight).1, ?_⟩,
    fun entry hentry ↦ ⟨(hadvanced.entries entry hentry).1, ?_⟩, ?_, fun waiter hwaiter ↦
      ⟨(hadvanced.waiting waiter hwaiter).1, ?_⟩, hadvanced.joined, fun served hserved ↦ ?_⟩
  · intro invalidation hmem hconcerns
    obtain rfl | hold := List.mem_cons.mp hmem
    · exact absurd (List.mem_map.mpr ⟨flight, hflight, rfl⟩) (hgone _ hconcerns).1
    · exact (hadvanced.flights flight hflight).2 invalidation hold hconcerns
  · intro invalidation hmem hconcerns
    obtain rfl | hold := List.mem_cons.mp hmem
    · exact absurd (List.mem_map.mpr ⟨entry, hentry, rfl⟩) (hgone _ hconcerns).2
    · exact (hadvanced.entries entry hentry).2 invalidation hold hconcerns
  · intro invalidation hmem
    obtain rfl | hold := List.mem_cons.mp hmem
    · exact Nat.lt_succ_self _
    · exact hadvanced.invalidated_lt invalidation hold
  · intro invalidation hmem hconcerns hlt
    obtain rfl | hold := List.mem_cons.mp hmem
    · exact absurd hlt (h.waiting waiter hwaiter).1.le.not_gt
    · exact (hadvanced.waiting waiter hwaiter).2 invalidation hold hconcerns hlt
  · have hold := hadvanced.returned served hserved
    refine ⟨hold.begun_lt, fun invalidation hmem hconcerns hlt ↦ ?_, hold.published, hold.begun_le, hold.decided_le,
      hold.unexpired, hold.decided_eq⟩
    obtain rfl | hmem := List.mem_cons.mp hmem
    · exact absurd hlt (h.returned served hserved).begun_lt.le.not_gt
    · exact hold.fresh invalidation hmem hconcerns hlt

theorem Traced.step {action : Action κ ν ε 𝕜}
    (hstep : system.step settings action = some next) : Traced settings next := by
  obtain ⟨acted, hact, rfl⟩ := Option.map_eq_some_iff.mp hstep
  cases action with
  | tick later =>
    obtain ⟨hlater, hsame⟩ := Option.ite_none_right_eq_some.mp hact
    obtain rfl := Option.some.inj hsame
    exact h.advance h.sound (List.Subset.refl _) (List.Subset.refl _) hlater
  | call key =>
    obtain rfl := Option.some.inj hact
    exact h.call key
  | loaded flight value weight => exact h.loaded hact
  | failed flight error => exact h.failed hact
  | wake caller => exact h.wake hact
  | peek key =>
    obtain rfl := Option.some.inj hact
    exact h.peek key
  | invalidate key =>
    obtain rfl := Option.some.inj hact
    have hentries : (system.cache.invalidate key).entries = discard key system.cache.entries :=
      entries_pop system.cache key
    refine h.invalidated (some key) (h.sound.invalidate key) (discard_sublist key _).subset
      (hentries ▸ (discard_sublist key _).subset) fun other hconcerns ↦ ?_
    obtain hnone | hsome := hconcerns
    · cases hnone
    · obtain rfl := Option.some.inj hsome
      rw [hentries]
      exact ⟨notMem_discard key _, notMem_discard key _⟩
  | clear =>
    obtain rfl := Option.some.inj hact
    exact h.invalidated none h.sound.clear (List.nil_subset _) (List.nil_subset _)
      fun _ _ ↦ ⟨List.not_mem_nil, List.not_mem_nil⟩

omit h in
theorem traced_of_reachable (h : Reachable settings system) : Traced settings system := by
  induction h with
  | init clock => exact traced_init settings clock
  | step action _ hstep ih => exact ih.step hstep

theorem Traced.failed_gone (hready : (flight, .error error) ∈ system.ready) :
    (∀ entry ∈ system.cache.flights, entry.2 ≠ flight) ∧ ∀ entry ∈ system.cache.entries, entry.2.flight ≠ flight := by
  refine ⟨fun entry hentry heq ↦ ?_, fun entry hentry heq ↦ ?_⟩
  · refine h.unready _ (h.flights entry hentry).1 (List.mem_map.mpr ⟨_, hready, ?_⟩)
    exact heq.symm
  · obtain ⟨⟨published, hvalue⟩, -⟩ := h.entries entry hentry
    rw [heq] at hvalue
    have hsame := (lookup_eq_some_iff_mem h.readyKeys).mpr hready
    rw [(lookup_eq_some_iff_mem h.readyKeys).mpr hvalue] at hsame
    cases hsame

end

/-- Every interleaving keeps the accounts, and serves nothing invalidated, expired or failed. -/
theorem cache_safe (h : Reachable settings system) :
    (system.cache.bytesUsed = total Entry.size system.cache.entries ∧
        system.cache.bytesUsed ≤ settings.maxBytes ∧ system.cache.entries.length ≤ settings.maxEntries ∧
        ∀ entry ∈ system.cache.entries, system.cache.nextExpiry ≤ entry.2.expiry) ∧
      (∀ served ∈ system.returned, served.begun ≤ served.decided.step ∧ served.decided.time ≤ served.time ∧
        (∀ expiry ∈ served.expiry, served.decided.time < expiry) ∧
        (served.service ≠ .waiter → served.decided.time = served.time)) ∧
      (∀ served ∈ system.returned, FreshFor system served.key served.begun served.flight) ∧
      (∀ entry ∈ system.cache.entries, Fresh system entry.1 entry.2.flight) ∧
      ∀ flight error, (flight, .error error) ∈ system.ready → (∀ entry ∈ system.cache.flights, entry.2 ≠ flight) ∧
          ∀ entry ∈ system.cache.entries, entry.2.flight ≠ flight := by
  have htraced := traced_of_reachable h
  have hsound := htraced.sound
  refine ⟨⟨hsound.bytes, hsound.bytes_le, hsound.length_le, hsound.expiry⟩, fun served hserved ↦ ?_,
    fun served hserved ↦ (htraced.returned served hserved).fresh, fun entry hentry ↦ (htraced.entries entry hentry).2,
    fun flight error hready ↦ htraced.failed_gone hready⟩
  have hkept := htraced.returned served hserved
  exact ⟨hkept.begun_le, hkept.decided_le, hkept.unexpired, hkept.decided_eq⟩

/-- A run of actions. -/
def System.run (settings : Settings 𝕜) : System κ ν ε 𝕜 → List (Action κ ν ε 𝕜) → Option (System κ ν ε 𝕜)
  | system, [] => some system
  | system, action :: actions => (system.step settings action).bind fun next ↦ next.run settings actions

theorem reachable_run (h : Reachable settings system) {actions : List (Action κ ν ε 𝕜)}
    (hrun : system.run settings actions = some next) : Reachable settings next := by
  induction actions generalizing system with
  | nil =>
    obtain rfl := Option.some.inj hrun
    exact h
  | cons action actions ih =>
    obtain ⟨middle, hstep, hrest⟩ := Option.bind_eq_some_iff.mp hrun
    exact ih (h.step action hstep) hrest

namespace Sample

def second : Settings ℚ := ⟨1, 1, 1, by decide +kernel⟩

/-- One caller loads, another waits and wakes four seconds after the value expired. -/
def late : List (Action ℕ ℕ Unit ℚ) := [.call 3, .call 3, .loaded 0 7 1, .tick 5, .wake 1]

def start : System ℕ ℕ Unit ℚ := .init 0

theorem isSome_late : (start.run second late).isSome = true := by decide +kernel

theorem reachable_late : Reachable second ((start.run second late).get isSome_late) :=
  reachable_run (.init 0) (Option.some_get isSome_late).symm

end Sample

theorem cache_safe_late :
    ((Sample.start.run Sample.second Sample.late).get Sample.isSome_late).cache.bytesUsed = 1 ∧
      total Entry.size ((Sample.start.run Sample.second Sample.late).get Sample.isSome_late).cache.entries = 1 := by
  have hbytes := (cache_safe Sample.reachable_late).1.1
  have hone : ((Sample.start.run Sample.second Sample.late).get Sample.isSome_late).cache.bytesUsed = 1 := by
    decide +kernel
  exact ⟨hone, hbytes.symm.trans hone⟩

/-- A caller that waited returns a value after its expiry. -/
theorem waiter_returns_expired : ¬ ∀ system : System ℕ ℕ Unit ℚ, Reachable Sample.second system →
    ∀ served ∈ system.returned, ∀ expiry ∈ served.expiry, served.time < expiry := by
  intro h
  have hall := h _ Sample.reachable_late
  revert hall
  decide +kernel

end UniMem.RuntimeCache
