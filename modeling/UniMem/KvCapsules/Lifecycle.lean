import UniMem.KvCapsules.Capsules

/-!
# The lifecycle of a capsule

The journal keeps the active row of an evicted capsule, so a key is built once, and until another build names it its
last row tells whether its capsule can be read.
-/

namespace UniMem.KvCapsules

open Library FrontierProtocol

variable {deployment : Deployment} {environment : Environment} {state next : State}

/-! ## Conditions -/

/-- The key of a memory and a model. -/
def capsuleKey (deployment : Deployment) (memoryId model : String) : Py String := do
  let sourceHash ← source deployment memoryId
  tenantKey deployment sourceHash model

/-- No row has the key of a request. -/
def Fresh (deployment : Deployment) (state : State) (request : Request) : Prop :=
  ∀ row ∈ state.rows, capsuleKey deployment request.memoryId request.modelFingerprint ≠ .ok row.id

/-- The active rows of some memories. -/
def targets (rows : List Record) (identities : List String) : List Record :=
  rows.filter fun row ↦ row.memoryId ∈ identities && row.status = .active

/-- The index and the change stream accept what evictions of some memories append. -/
structure Room (environment : Environment) (state : State) (identities : List String) : Prop where
  accepts : ∀ rows row, environment.accepts rows row = true
  publishes : environment.publishes = true
  rows : state.rows.length + (targets state.rows identities).length ≤ maxRows

/-- The pools of a call work. -/
def Action.Working : Action → Prop
  | .build environment _ | .get environment _ _ | .evict environment _ _ | .evictSources environment _ =>
    ∀ name, environment.broken name = false

/-- A build names a new key, and an eviction is accepted. -/
def Unrepeated (deployment : Deployment) (state : State) : Action → Prop
  | .build _ request => Fresh deployment state request
  | .get _ _ _ => True
  | .evict environment memoryId _ => Room environment state [memoryId]
  | .evictSources environment identities => Room environment state identities

/-- What a compressor returns is decompressed to what it was given. -/
def Deployment.Lossless (deployment : Deployment) : Prop :=
  ∀ name compressor, deployment.compressors.lookup name = some compressor →
    ∀ value compressed, compressor.compress value = .ok compressed →
      compressor.decompress compressed = .ok value

/-! ## The invariant -/

/-- The bytes of a capsule are in every pool of the last row of its key. -/
structure Holds (deployment : Deployment) (state : State) (subject : Subject) (capsule : String)
    (row : Record) (bytes : Bytes) : Prop where
  model : model subject.modelFingerprint = .ok subject.modelFingerprint
  source : source deployment subject.memoryId = .ok row.memoryHash
  key : tenantKey deployment row.memoryHash subject.modelFingerprint = .ok capsule
  last : lastWith Record.id state.rows capsule = some row
  status : row.status = .active
  memoryId : row.memoryId = subject.memoryId
  fingerprint : row.modelFingerprint = subject.modelFingerprint
  tiers : row.tiers ≠ []
  stored : ∃ compressed compressor, deployment.runtime.sha256 compressed = row.kvDigest ∧
    deployment.compressors.lookup row.compressor = some compressor ∧
    compressor.decompress compressed = .ok bytes ∧
    ∀ name ∈ row.tiers, state.values.lookup ⟨name, capsule⟩ = some compressed

structure Tracked (deployment : Deployment) (state : State) : Prop where
  single : ∀ first ∈ state.rows, ∀ second ∈ state.rows, first.status = .active → second.status = .active →
    first.id = second.id → first = second
  built : ∀ subject bytes, state.built.lookup subject = some bytes →
    ∃ capsule row, Holds deployment state subject capsule row bytes
  complete : ∀ row, lastWith Record.id state.rows row.id = some row → row.status = .active →
    state.built.lookup ⟨row.memoryId, row.modelFingerprint⟩ ≠ none

/-! ## Pools -/

theorem putAll_of_working (hworking : ∀ name, environment.broken name = false) (key : String) (value : Bytes)
    (names completed : List String) (values : Values) :
    ∃ result, putAll environment key value names completed values = (.ok (), result) ∧
      (∀ name ∈ names, result.lookup ⟨name, key⟩ = some value) ∧
      (∀ name, values.lookup ⟨name, key⟩ = some value → result.lookup ⟨name, key⟩ = some value) ∧
      ∀ entry : Slot, entry.key ≠ key → result.lookup entry = values.lookup entry := by
  induction names generalizing completed values with
  | nil => exact ⟨values, rfl, by simp, fun _ h ↦ h, fun _ _ ↦ rfl⟩
  | cons first names ih =>
    obtain ⟨result, hresult, hall, hkept, hother⟩ :=
      ih (first :: completed) (assign ⟨first, key⟩ value values)
    have hfirst : result.lookup ⟨first, key⟩ = some value := by
      apply hkept
      rw [lookup_assign, if_pos rfl]
    refine ⟨result, ?_, ?_, ?_, ?_⟩
    · rw [putAll, hworking first]
      exact hresult
    · intro name hname
      obtain rfl | hname := List.mem_cons.mp hname
      · exact hfirst
      · exact hall name hname
    · intro name hname
      apply hkept
      rw [lookup_assign]
      split_ifs
      · rfl
      · exact hname
    · intro entry hentry
      rw [hother entry hentry, lookup_assign, if_neg]
      rintro rfl
      exact hentry rfl

theorem deleteAll_of_working (hworking : ∀ name, environment.broken name = false) (key : String)
    (tiers : List String) (values : Values) :
    ∃ result, deleteAll environment key tiers values = (result, []) ∧
      ∀ entry : Slot, entry.key ≠ key → result.lookup entry = values.lookup entry := by
  unfold deleteAll
  induction tiers generalizing values with
  | nil => exact ⟨values, rfl, fun _ _ ↦ rfl⟩
  | cons first tiers ih =>
    obtain ⟨result, hresult, hother⟩ := ih (discard ⟨first, key⟩ values)
    refine ⟨result, ?_, ?_⟩
    · rw [List.foldl_cons, hworking first]
      exact hresult
    · intro entry hentry
      rw [hother entry hentry, lookup_discard, if_neg]
      rintro rfl
      exact hentry rfl

/-! ## Building -/

variable {record : Record} {compressed : Bytes} {key : String} {subject : Subject} {identities : List String}
  {action : Action}

theorem append_eq_ok {rows : List Record} {row : Record} (h : append environment rows record = .ok row) :
    row = { record with chain := some ⟨rows.length, environment.tip, environment.now⟩ } := by
  obtain ⟨_, h⟩ := Py.of_rest h
  dsimp only at h
  obtain ⟨_, h⟩ := Py.of_rest h
  exact (Except.ok.inj h).symm

theorem append_of_accepts {rows : List Record} (haccepts : ∀ rows row, environment.accepts rows row = true)
    (record : Record) (hroom : rows.length + 1 ≤ maxRows) : ∃ row, append environment rows record = .ok row := by
  have hhigh : (rows.length : ℤ) ≤ (maxRows : ℤ) - 1 := by omega
  rw [append, count_of_mem _ (Int.natCast_nonneg _) hhigh, Py.bind_ok]
  dsimp only
  rw [haccepts]
  exact ⟨_, rfl⟩

/-- What the record of a request says. -/
structure Prepared (deployment : Deployment) (request : Request) (record : Record) (compressed : Bytes) :
    Prop where
  model : model request.modelFingerprint = .ok request.modelFingerprint
  source : source deployment request.memoryId = .ok record.memoryHash
  key : tenantKey deployment record.memoryHash request.modelFingerprint = .ok record.id
  memoryId : record.memoryId = request.memoryId
  fingerprint : record.modelFingerprint = request.modelFingerprint
  tiers : record.tiers ≠ []
  digest : record.kvDigest = deployment.runtime.sha256 compressed
  compressed : ∃ compressor, deployment.compressors.lookup record.compressor = some compressor ∧
    compressor.compress request.kvBytes = .ok compressed
  status : record.status = .active
  chain : record.chain = none

theorem model_eq_ok {value result : String} (h : model value = .ok result) : result = value := by
  obtain ⟨_, h⟩ := Py.of_rest h
  exact (Except.ok.inj h).symm

theorem prepared_of_prepare {request : Request} (h : prepare deployment request = .ok (record, compressed)) :
    Prepared deployment request record compressed := by
  obtain ⟨fingerprint, hmodel, h⟩ := Py.of_bind h
  obtain rfl := model_eq_ok hmodel
  obtain ⟨_, h⟩ := Py.of_rest h
  obtain ⟨_, h⟩ := Py.of_rest h
  obtain ⟨_, h⟩ := Py.of_rest h
  obtain ⟨_, h⟩ := Py.of_rest h
  obtain ⟨_, h⟩ := Py.of_rest h
  dsimp only at h
  obtain ⟨_, hcount, h⟩ := Py.of_bind h
  obtain ⟨_, h⟩ := Py.of_rest h
  cases hcompressor : deployment.compressors.lookup request.compressor with
  | none =>
    rw [hcompressor] at h
    cases h
  | some compressor =>
    rw [hcompressor] at h
    obtain ⟨sourceHash, hsource, h⟩ := Py.of_bind h
    obtain ⟨key, hkey, h⟩ := Py.of_bind h
    obtain ⟨bytes, hcompress, h⟩ := Py.of_bind h
    obtain ⟨_, h⟩ := Py.of_rest h
    obtain ⟨rfl, rfl⟩ := Prod.mk.inj (Except.ok.inj h)
    refine ⟨hmodel, hsource, hkey, rfl, rfl, ?_, rfl, ⟨compressor, hcompressor, hcompress⟩, rfl, rfl⟩
    intro hnil
    have hlow := (count_eq_ok_iff.mp hcount).1.1
    rw [show sortBy id request.tiers.dedup = [] from hnil] at hlow
    exact absurd hlow (by decide)

theorem Prepared.capsuleKey_eq {request : Request} (h : Prepared deployment request record compressed) :
    capsuleKey deployment request.memoryId request.modelFingerprint = .ok record.id := by
  rw [capsuleKey, h.source, Py.bind_ok, h.key]

theorem Tracked.of_values (h : Tracked deployment state) {values : Values}
    (hnew : ∀ row ∈ state.rows, row.id ≠ key)
    (hother : ∀ entry : Slot, entry.key ≠ key → values.lookup entry = state.values.lookup entry) :
    Tracked deployment { state with values } := by
  refine ⟨h.single, ?_, h.complete⟩
  intro subject bytes hbytes
  obtain ⟨found, row, hholds⟩ := h.built subject bytes hbytes
  obtain ⟨compressed, compressor, hdigest, hcompressor, hdecompress, hstored⟩ := hholds.stored
  have hne : found ≠ key := by
    rintro rfl
    obtain ⟨hmem, hid⟩ := key_of_lastWith hholds.last
    exact hnew row hmem hid
  refine ⟨found, row, { hholds with stored := ⟨compressed, compressor, hdigest, hcompressor, hdecompress, ?_⟩ }⟩
  intro name hname
  exact (hother ⟨name, found⟩ hne).trans (hstored name hname)

theorem lastWith_append_of_ne {rows : List Record} {row : Record} (h : row.id ≠ key) :
    lastWith Record.id (rows ++ [row]) key = lastWith Record.id rows key := by
  rw [lastWith_append]
  simp [lastWith, h]

theorem lastWith_append_self (rows : List Record) (row : Record) :
    lastWith Record.id (rows ++ [row]) row.id = some row := by
  rw [lastWith_append]
  simp [lastWith]

theorem tracked_of_build (hlossless : deployment.Lossless) (hworking : ∀ name, environment.broken name = false)
    {request : Request} (hfresh : Fresh deployment state request) (h : Tracked deployment state) :
    Tracked deployment (build deployment environment state request).2 := by
  unfold build
  cases hprepare : prepare deployment request with
  | error error => exact h
  | ok prepared =>
    obtain ⟨record, compressed⟩ := prepared
    have hprepared := prepared_of_prepare hprepare
    have hnew : ∀ row ∈ state.rows, row.id ≠ record.id := by
      intro row hrow heq
      exact hfresh row hrow (heq ▸ hprepared.capsuleKey_eq)
    have hprior : state.rows.filter (fun row ↦ row.id = record.id && row.status = .active) = [] := by
      rw [List.filter_eq_nil_iff]
      intro row hrow
      simp [hnew row hrow]
    obtain ⟨values, hvalues, hall, -, hother⟩ :=
      putAll_of_working hworking record.id compressed record.tiers [] state.values
    dsimp only
    rw [hprior, List.getLast?_nil]
    dsimp only
    rw [hvalues]
    dsimp only
    cases happend : append environment state.rows record with
    | error error => exact h.of_values hnew hother
    | ok row =>
      dsimp only
      have hrow := append_eq_ok happend
      have hid : row.id = record.id := by rw [hrow]
      have hvalued := h.of_values hnew hother
      refine ⟨?_, ?_, ?_⟩
      · rintro first hfirst second hsecond hactive hactive' heq
        obtain hfirst | hfirst := List.mem_append.mp hfirst
        · obtain hsecond | hsecond := List.mem_append.mp hsecond
          · exact h.single first hfirst second hsecond hactive hactive' heq
          · rw [List.mem_singleton.mp hsecond, hid] at heq
            exact absurd heq (hnew first hfirst)
        · obtain hsecond | hsecond := List.mem_append.mp hsecond
          · rw [List.mem_singleton.mp hfirst, hid] at heq
            exact absurd heq.symm (hnew second hsecond)
          · rw [List.mem_singleton.mp hfirst, List.mem_singleton.mp hsecond]
      · intro subject bytes hbytes
        rw [lookup_assign] at hbytes
        by_cases hsubject : subject = ⟨request.memoryId, request.modelFingerprint⟩
        · rw [if_pos hsubject] at hbytes
          obtain rfl := Option.some.inj hbytes
          subst hsubject
          obtain ⟨compressor, hcompressor, hcompress⟩ := hprepared.compressed
          refine ⟨record.id, row, ?_⟩
          subst hrow
          exact {
            model := hprepared.model
            source := hprepared.source
            key := hprepared.key
            last := lastWith_append_self _ _
            status := hprepared.status
            memoryId := hprepared.memoryId
            fingerprint := hprepared.fingerprint
            tiers := hprepared.tiers
            stored := ⟨compressed, compressor, hprepared.digest.symm, hcompressor,
              hlossless _ _ hcompressor _ _ hcompress, hall⟩ }
        · rw [if_neg hsubject] at hbytes
          obtain ⟨key, found, hholds⟩ := hvalued.built subject bytes hbytes
          have hne : row.id ≠ key := by
            rintro rfl
            obtain ⟨hmem, heq⟩ := key_of_lastWith hholds.last
            exact hnew found hmem (heq.trans hid)
          exact ⟨key, found, { hholds with last := (lastWith_append_of_ne hne).trans hholds.last }⟩
      · intro found hlast hactive
        rw [lookup_assign]
        split_ifs with hsubject
        · simp
        · by_cases heq : row.id = found.id
          · rw [← heq, lastWith_append_self, Option.some.injEq] at hlast
            subst hlast
            rw [hrow] at hsubject
            exact absurd (by rw [hprepared.memoryId, hprepared.fingerprint]) hsubject
          · rw [lastWith_append_of_ne heq] at hlast
            exact h.complete found hlast hactive

/-! ## Evictions -/

/-- What an eviction leaves: evicted rows of some ids, and the values of other keys. -/
structure Evicted (records : List Record) (state next : State) : Prop where
  rows : ∃ added, next.rows = state.rows ++ added ∧ added.map Record.id = records.map Record.id ∧
    ∀ row ∈ added, row.status = .evicted
  values : ∀ entry : Slot, entry.key ∉ records.map Record.id →
    next.values.lookup entry = state.values.lookup entry
  built : next.built = state.built

theorem evictRows_of_working (hworking : ∀ name, environment.broken name = false)
    (haccepts : ∀ rows row, environment.accepts rows row = true) (reason : String) (records : List Record)
    (failed : List String) (state : State) (hroom : state.rows.length + records.length ≤ maxRows) :
    ∃ next, evictRows environment reason records failed state = (.ok failed, next) ∧ Evicted records state next := by
  induction records generalizing state with
  | nil => exact ⟨state, rfl, ⟨[], by simp, rfl, by simp⟩, fun _ _ ↦ rfl, rfl⟩
  | cons record records ih =>
    obtain ⟨values, hvalues, hother⟩ := deleteAll_of_working hworking record.id record.tiers state.values
    rw [List.length_cons] at hroom
    obtain ⟨row, happend⟩ := append_of_accepts haccepts
      { record with status := .evicted, reason := some reason } (by omega : state.rows.length + 1 ≤ maxRows)
    have hrow := append_eq_ok happend
    have hid : row.id = record.id := by rw [hrow]
    have hstatus : row.status = .evicted := by rw [hrow]
    rw [evictRows, hvalues]
    dsimp only
    rw [List.isEmpty_nil, if_pos rfl, happend]
    dsimp only
    obtain ⟨next, hnext, ⟨added, hrows, hids, hall⟩, hkept, hbuilt⟩ :=
      ih { state with rows := state.rows ++ [row], values }
        (by rw [List.length_append, List.length_singleton]; omega)
    refine ⟨next, hnext, ⟨row :: added, ?_, ?_, ?_⟩, ?_, hbuilt⟩
    · rw [hrows, List.append_assoc]
      rfl
    · rw [List.map_cons, hids, hid, List.map_cons]
    · exact List.forall_mem_cons.mpr ⟨hstatus, hall⟩
    · intro entry hentry
      rw [List.map_cons, List.mem_cons, not_or] at hentry
      rw [hkept entry hentry.2]
      exact hother entry hentry.1

variable {memoryId reason : String}

theorem lookup_built_filter {built : List (Subject × Bytes)} :
    (built.filter (·.1.memoryId ≠ memoryId)).lookup subject =
      if subject.memoryId = memoryId then none else built.lookup subject := by
  rw [lookup_filter_fst (fun other : Subject ↦ decide (other.memoryId ≠ memoryId))]
  by_cases hmemory : subject.memoryId = memoryId
  · simp [hmemory]
  · simp [hmemory]

theorem tracked_of_evicted (h : Tracked deployment state)
    (hevicted : Evicted (matching state.rows memoryId) state next) :
    Tracked deployment { next with built := next.built.filter (·.1.memoryId ≠ memoryId) } := by
  obtain ⟨⟨added, hrows, hids, hstatus⟩, hvalues, hbuilt⟩ := hevicted
  have hactive : ∀ row ∈ next.rows, row.status = .active → row ∈ state.rows := by
    intro row hrow hactive
    rw [hrows] at hrow
    obtain hrow | hrow := List.mem_append.mp hrow
    · exact hrow
    · rw [hstatus row hrow] at hactive
      cases hactive
  -- The key of an active capsule is evicted exactly with its memory.
  have hmatching : ∀ row ∈ state.rows, row.status = .active →
      (row.id ∈ (matching state.rows memoryId).map Record.id ↔ row.memoryId = memoryId) := by
    intro row hrow hstatus
    constructor
    · intro hmem
      obtain ⟨other, hother, hid⟩ := List.mem_map.mp hmem
      obtain ⟨hother, hmatch⟩ := List.mem_filter.mp hother
      rw [Bool.and_eq_true, decide_eq_true_eq, decide_eq_true_eq] at hmatch
      rw [← h.single other hother row hrow hmatch.2 hstatus hid]
      exact hmatch.1
    · rintro rfl
      exact List.mem_map_of_mem (List.mem_filter.mpr ⟨hrow, by simp [hstatus]⟩)
  have hlast : ∀ key row, row.status = .active →
      (lastWith Record.id next.rows key = some row ↔
        lastWith Record.id state.rows key = some row ∧ row.memoryId ≠ memoryId) := by
    intro key row hrowStatus
    rw [hrows, lastWith_append]
    cases hadded : lastWith Record.id added key with
    | some other =>
      obtain ⟨hmem, hkey⟩ := key_of_lastWith hadded
      rw [Option.some_or, Option.some.injEq]
      constructor
      · rintro rfl
        rw [hstatus other hmem] at hrowStatus
        cases hrowStatus
      · rintro ⟨hstate, hne⟩
        obtain ⟨hrow, hid⟩ := key_of_lastWith hstate
        have hevicted : row.id ∈ (matching state.rows memoryId).map Record.id := by
          rw [← hids, hid, ← hkey]
          exact List.mem_map_of_mem hmem
        exact absurd ((hmatching row hrow hrowStatus).mp hevicted) hne
    | none =>
      rw [Option.none_or]
      refine ⟨fun hstate ↦ ⟨hstate, fun hmemory ↦ ?_⟩, And.left⟩
      obtain ⟨hrow, hid⟩ := key_of_lastWith hstate
      have hevicted := (hmatching row hrow hrowStatus).mpr hmemory
      rw [← hids, hid] at hevicted
      obtain ⟨other, hother, hkey⟩ := List.mem_map.mp hevicted
      have hnil := List.getLast?_eq_none_iff.mp hadded
      exact absurd (List.mem_filter.mpr ⟨hother, decide_eq_true hkey⟩) (hnil ▸ List.not_mem_nil)
  refine ⟨?_, ?_, ?_⟩
  · intro first hfirst second hsecond hstatus hstatus' heq
    exact h.single first (hactive first hfirst hstatus) second (hactive second hsecond hstatus') hstatus hstatus' heq
  · intro subject bytes hbytes
    rw [lookup_built_filter, hbuilt] at hbytes
    split_ifs at hbytes with hmemory
    obtain ⟨capsule, row, hholds⟩ := h.built subject bytes hbytes
    obtain ⟨compressed, compressor, hdigest, hcompressor, hdecompress, hstored⟩ := hholds.stored
    obtain ⟨hrow, hid⟩ := key_of_lastWith hholds.last
    have hother : row.memoryId ≠ memoryId := hholds.memoryId ▸ hmemory
    refine ⟨capsule, row, { hholds with last := (hlast capsule row hholds.status).mpr ⟨hholds.last, hother⟩,
                                        stored := ⟨compressed, compressor, hdigest, hcompressor, hdecompress, ?_⟩ }⟩
    intro name hname
    refine (hvalues ⟨name, capsule⟩ ?_).trans (hstored name hname)
    rw [← hid]
    exact fun hmem ↦ hother ((hmatching row hrow hholds.status).mp hmem)
  · intro row hrow hstatus
    obtain ⟨hstate, hother⟩ := (hlast row.id row hstatus).mp hrow
    rw [lookup_built_filter, if_neg hother, hbuilt]
    exact h.complete row hstate hstatus

theorem targets_singleton (rows : List Record) (memoryId : String) :
    targets rows [memoryId] = matching rows memoryId := by simp [targets, matching]

section

variable (hworking : ∀ name, environment.broken name = false)
include hworking

theorem evict_cases (reason : String)
    (hroom : Room environment state [memoryId]) :
    (∃ error, evict environment state memoryId reason = (.error error, state)) ∨
    ∃ receipt next, Evicted (matching state.rows memoryId) state next ∧ evict environment state memoryId reason =
        (.ok receipt, { next with built := next.built.filter (·.1.memoryId ≠ memoryId) }) := by
  unfold evict
  by_cases hreason : reason ∉ ["retract", "erase", "quarantine", "supersede"]
  · rw [if_pos hreason]
    exact Or.inl ⟨_, rfl⟩
  · rw [if_neg hreason]
    cases text memoryId "memory id" 512 with
    | error error => exact Or.inl ⟨error, rfl⟩
    | ok _ =>
      have hrows := hroom.rows
      rw [targets_singleton] at hrows
      obtain ⟨next, hnext, hevicted⟩ := evictRows_of_working hworking hroom.accepts reason
        (matching state.rows memoryId) [] state hrows
      dsimp only
      rw [hnext]
      dsimp only
      rw [if_pos hroom.publishes]
      exact Or.inr ⟨_, next, hevicted, rfl⟩

theorem tracked_of_evict
    (hroom : Room environment state [memoryId]) (h : Tracked deployment state) :
    Tracked deployment (evict environment state memoryId reason).2 := by
  obtain ⟨error, heq⟩ | ⟨receipt, next, hevicted, heq⟩ := evict_cases hworking reason hroom
  · rw [heq]
    exact h
  · rw [heq]
    exact tracked_of_evicted h hevicted

omit hworking in
theorem length_targets_cons {rows : List Record} {identity : String} (h : identity ∉ identities) :
    (targets rows (identity :: identities)).length =
      (matching rows identity).length + (targets rows identities).length := by
  induction rows with
  | nil => rfl
  | cons row rows ih =>
    simp only [targets, matching, List.mem_cons] at ih ⊢
    by_cases hactive : row.status = .active
    · by_cases hid : row.memoryId = identity
      · have hnot : row.memoryId ∉ identities := hid ▸ h
        simp only [List.filter_cons, hid, hactive, true_or, decide_true, Bool.true_and, if_true,
          h, decide_false, Bool.false_and, Bool.false_eq_true, if_false, List.length_cons]
        omega
      · by_cases hmem : row.memoryId ∈ identities
        · simp only [List.filter_cons, hid, hmem, hactive, or_true, decide_true, Bool.true_and,
            if_true, decide_false, Bool.false_and, Bool.false_eq_true, if_false, List.length_cons]
          omega
        · simp only [List.filter_cons, hid, hmem, or_self, decide_false, Bool.false_and, Bool.false_eq_true, if_false]
          exact ih
    · simp only [List.filter_cons, hactive, decide_false, Bool.and_false, Bool.false_eq_true, if_false]
      exact ih

theorem tracked_of_evictEach (hnodup : identities.Nodup)
    (hroom : Room environment state identities) (h : Tracked deployment state) :
    Tracked deployment (evictEach environment identities state).2 := by
  induction identities generalizing state with
  | nil => exact h
  | cons identity identities ih =>
    obtain ⟨hnot, hnodup⟩ := List.nodup_cons.mp hnodup
    have hlength := hroom.rows
    rw [length_targets_cons hnot] at hlength
    rw [evictEach]
    by_cases hempty : (matching state.rows identity).isEmpty = true
    · rw [if_pos hempty]
      exact ih hnodup ⟨hroom.accepts, hroom.publishes, by omega⟩ h
    · rw [if_neg hempty]
      have hhere : Room environment state [identity] := by
        refine ⟨hroom.accepts, hroom.publishes, ?_⟩
        rw [targets_singleton]
        omega
      obtain ⟨error, heq⟩ | ⟨receipt, next, hevicted, heq⟩ := evict_cases hworking "erase" hhere
      · rw [heq]
        exact h
      · rw [heq]
        obtain ⟨added, hrows, hids, hstatus⟩ := hevicted.rows
        have hadded : added.length = (matching state.rows identity).length := by
          rw [← List.length_map Record.id, hids, List.length_map]
        have hsame : targets next.rows identities = targets state.rows identities := by
          have hnone : targets added identities = [] := by
            rw [targets, List.filter_eq_nil_iff]
            intro row hrow
            simp [hstatus row hrow]
          rw [hrows, targets, List.filter_append]
          exact (congrArg (targets state.rows identities ++ ·) hnone).trans (List.append_nil _)
        have hnext : Tracked deployment
            (evictEach environment identities
              { next with built := next.built.filter (·.1.memoryId ≠ identity) }).2 := by
          refine ih hnodup ⟨hroom.accepts, hroom.publishes, ?_⟩ (tracked_of_evicted h hevicted)
          dsimp only
          rw [hsame, hrows, List.length_append, hadded]
          omega
        dsimp only at hnext ⊢
        generalize evictEach environment identities
          { next with built := next.built.filter (·.1.memoryId ≠ identity) } = outcome at hnext ⊢
        obtain ⟨result, last⟩ := outcome
        cases result with
        | error error => exact hnext
        | ok receipts => exact hnext

theorem tracked_of_evictSources
    (hroom : Room environment state identities) (h : Tracked deployment state) :
    Tracked deployment (evictSources environment state identities).2 := by
  have hmem : ∀ row ∈ state.rows,
      (row.memoryId ∈ sortBy id (identities.filter (· ∈ state.rows.map Record.memoryId)).dedup ↔
        row.memoryId ∈ identities) := by
    intro row hrow
    rw [mem_sortBy, List.mem_dedup, List.mem_filter, decide_eq_true_eq]
    exact and_iff_left (List.mem_map_of_mem hrow)
  have hsame : targets state.rows (sortBy id (identities.filter (· ∈ state.rows.map Record.memoryId)).dedup) =
      targets state.rows identities := by
    refine List.filter_congr fun row hrow ↦ ?_
    rw [decide_eq_decide.mpr (hmem row hrow)]
  refine tracked_of_evictEach hworking ?_ ⟨hroom.accepts, hroom.publishes, ?_⟩ h
  · exact (sortBy_perm id _).nodup_iff.mpr (List.nodup_dedup _)
  · rw [hsame]
    exact hroom.rows

/-! ## Reading -/

/-- The rows of the key of a capsule were built for its memory. -/
def Own (deployment : Deployment) (state : State) (subject : Subject) : Prop :=
  ∀ row ∈ state.rows, capsuleKey deployment subject.memoryId subject.modelFingerprint = .ok row.id →
    row.memoryId = subject.memoryId

theorem get_of_built {bytes : Bytes}
    (h : Tracked deployment state) (hbuilt : state.built.lookup subject = some bytes) :
    get deployment environment state subject.memoryId subject.modelFingerprint = .ok bytes := by
  obtain ⟨capsule, row, hholds⟩ := h.built subject bytes hbuilt
  obtain ⟨compressed, compressor, hdigest, hcompressor, hdecompress, hstored⟩ := hholds.stored
  have hlast : (state.rows.filter (·.id = capsule)).getLast? = some row := hholds.last
  obtain ⟨name, names, htiers⟩ := List.exists_cons_of_ne_nil hholds.tiers
  have hread : readTier deployment environment state.values row name = some bytes := by
    have hid := (key_of_lastWith hholds.last).2
    have hname := hstored name (htiers ▸ List.mem_cons_self)
    rw [readTier, hworking name, if_neg Bool.false_ne_true, hid, hname]
    simp only [Option.bind_eq_bind, Option.bind_some, hdigest, ne_eq, not_true_eq_false, if_false, hcompressor,
      hdecompress]
    rfl
  have hfound : row.tiers.findSome? (readTier deployment environment state.values row) = some bytes := by
    rw [htiers, List.findSome?_cons, hread]
  unfold get
  rw [hholds.model, Py.bind_ok, hholds.source, Py.bind_ok, hholds.key, Py.bind_ok, hlast]
  dsimp only
  rw [hholds.status, hholds.fingerprint, hfound]
  simp

end

theorem get_of_not_built (hown : Own deployment state subject) (h : Tracked deployment state)
    (hbuilt : state.built.lookup subject = none) :
    ∃ error, get deployment environment state subject.memoryId subject.modelFingerprint = .error error := by
  cases hget : get deployment environment state subject.memoryId subject.modelFingerprint with
  | error error => exact ⟨error, rfl⟩
  | ok bytes =>
    obtain ⟨fingerprint, hmodel, hget⟩ := Py.of_bind hget
    obtain rfl := model_eq_ok hmodel
    obtain ⟨sourceHash, hsource, hget⟩ := Py.of_bind hget
    obtain ⟨key, hkey, hget⟩ := Py.of_bind hget
    cases hlast : (state.rows.filter (·.id = key)).getLast? with
    | none =>
      rw [hlast] at hget
      cases hget
    | some row =>
      rw [hlast] at hget
      obtain ⟨_, hstatus, hget⟩ := Py.of_bind hget
      obtain ⟨_, hfresh, -⟩ := Py.of_bind hget
      rw [Py.require_eq_ok_iff, decide_eq_true_eq] at hstatus
      rw [Py.require_eq_ok_iff, Bool.and_eq_true, decide_eq_true_eq, decide_eq_true_eq] at hfresh
      have hlast' : lastWith Record.id state.rows key = some row := hlast
      obtain ⟨hrow, hid⟩ := key_of_lastWith hlast'
      have hcapsule : capsuleKey deployment subject.memoryId subject.modelFingerprint = .ok row.id := by
        rw [capsuleKey, hsource, Py.bind_ok, hkey, hid]
      have hcomplete := h.complete row (hid.symm ▸ hlast') hstatus
      rw [hown row hrow hcapsule, hfresh.2] at hcomplete
      exact absurd hbuilt hcomplete

/-! ## Builds that name an old key -/

/-- Every row was appended. -/
def Chained (state : State) : Prop := ∀ row ∈ state.rows, row.chain ≠ none

theorem chained_append {rows : List Record} {row : Record} (h : ∀ other ∈ rows, other.chain ≠ none)
    (happend : append environment rows record = .ok row) : ∀ other ∈ rows ++ [row], other.chain ≠ none := by
  rw [List.forall_mem_append, List.forall_mem_singleton]
  refine ⟨h, ?_⟩
  rw [append_eq_ok happend]
  exact Option.some_ne_none _

theorem chained_of_evictRows {records : List Record} {failed : List String} (h : Chained state) :
    Chained (evictRows environment reason records failed state).2 := by
  induction records generalizing state failed with
  | nil => exact h
  | cons record records ih =>
    rw [evictRows]
    dsimp only
    by_cases hfailed : (deleteAll environment record.id record.tiers state.values).2.isEmpty = true
    · rw [if_pos hfailed]
      cases happend : append environment state.rows
          { record with status := .evicted, reason := some reason } with
      | error error => exact h
      | ok row => exact ih (chained_append h happend)
    · rw [if_neg hfailed]
      exact ih h

theorem chained_of_evict (h : Chained state) :
    Chained (evict environment state memoryId reason).2 := by
  unfold evict
  by_cases hreason : reason ∉ ["retract", "erase", "quarantine", "supersede"]
  · rw [if_pos hreason]
    exact h
  · rw [if_neg hreason]
    cases text memoryId "memory id" 512 with
    | error error => exact h
    | ok _ =>
      have hrows : Chained (evictRows environment reason (matching state.rows memoryId) [] state).2 :=
        chained_of_evictRows h
      dsimp only
      cases houtcome : evictRows environment reason (matching state.rows memoryId) [] state with
      | mk result next =>
        rw [houtcome] at hrows
        cases result with
        | error error => exact hrows
        | ok failed =>
          dsimp only
          split_ifs
          · exact hrows
          · exact hrows
          · exact hrows

theorem chained_of_evictEach (h : Chained state) :
    Chained (evictEach environment identities state).2 := by
  induction identities generalizing state with
  | nil => exact h
  | cons identity identities ih =>
    rw [evictEach]
    split_ifs
    · exact ih h
    · have hevict : Chained (evict environment state identity "erase").2 := chained_of_evict h
      cases houtcome : evict environment state identity "erase" with
      | mk result next =>
        rw [houtcome] at hevict
        cases result with
        | error error => exact hevict
        | ok receipt =>
          have hrest := ih hevict
          dsimp only at hrest ⊢
          cases hlast : evictEach environment identities next with
          | mk results last =>
            rw [hlast] at hrest
            cases results with
            | error error => exact hrest
            | ok receipts => exact hrest

theorem chained_of_build {request : Request} (h : Chained state) :
    Chained (build deployment environment state request).2 := by
  unfold build
  cases prepare deployment request with
  | error error => exact h
  | ok prepared =>
    obtain ⟨record, compressed⟩ := prepared
    dsimp only
    split
    · split_ifs
      · exact h
      · exact h
    · split
      · exact h
      · rename_i values hvalues
        cases happend : append environment state.rows record with
        | error error => exact h
        | ok row => exact chained_append h happend

theorem chained_of_act (h : Chained state) (hnext : act deployment state action = .ok next) :
    Chained next := by
  cases action with
  | build environment request =>
    obtain rfl := Except.ok.inj hnext
    exact chained_of_build h
  | get environment memoryId fingerprint =>
    obtain rfl := Except.ok.inj hnext
    exact h
  | evict environment memoryId reason =>
    obtain rfl := Except.ok.inj hnext
    exact chained_of_evict h
  | evictSources environment identities =>
    obtain rfl := Except.ok.inj hnext
    exact chained_of_evictEach h

theorem build_of_active {request : Request} {row : Record} (h : Chained state) (hrow : row ∈ state.rows)
    (hactive : row.status = .active)
    (hkey : capsuleKey deployment request.memoryId request.modelFingerprint = .ok row.id) :
    ∃ error, build deployment environment state request = (.error error, state) := by
  unfold build
  cases hprepare : prepare deployment request with
  | error error => exact ⟨error, rfl⟩
  | ok prepared =>
    obtain ⟨record, compressed⟩ := prepared
    have hprepared := prepared_of_prepare hprepare
    have hid : row.id = record.id := Except.ok.inj (hkey.symm.trans hprepared.capsuleKey_eq)
    have hmem : row ∈ state.rows.filter fun row ↦ row.id = record.id && row.status = .active :=
      List.mem_filter.mpr ⟨hrow, by simp [hid, hactive]⟩
    dsimp only
    cases hprior : (state.rows.filter fun row ↦ row.id = record.id && row.status = .active).getLast? with
    | none =>
      rw [List.getLast?_eq_none_iff.mp hprior] at hmem
      cases hmem
    | some prior =>
      have hprior' := (List.mem_filter.mp (List.mem_of_getLast? hprior)).1
      have hne : prior ≠ record := by
        rintro rfl
        exact h prior hprior' hprepared.chain
      dsimp only
      rw [if_pos hne]
      exact ⟨_, rfl⟩

/-! ## Runs -/

/-- A store without capsules. -/
def State.empty : State := ⟨[], [], []⟩

theorem tracked_empty : Tracked deployment State.empty where
  single _ h := by cases h
  built _ _ h := by cases h
  complete _ h := by cases h

theorem tracked_of_act (hlossless : deployment.Lossless) (hworking : action.Working)
    (hcondition : Unrepeated deployment state action) (h : Tracked deployment state)
    (hnext : act deployment state action = .ok next) : Tracked deployment next := by
  cases action with
  | build environment request =>
    obtain rfl := Except.ok.inj hnext
    exact tracked_of_build hlossless hworking hcondition h
  | get environment memoryId fingerprint =>
    obtain rfl := Except.ok.inj hnext
    exact h
  | evict environment memoryId reason =>
    obtain rfl := Except.ok.inj hnext
    exact tracked_of_evict hworking hcondition h
  | evictSources environment identities =>
    obtain rfl := Except.ok.inj hnext
    exact tracked_of_evictSources hworking hcondition h

/-- When builds name new keys a capsule is read until it is evicted, and other builds raise. -/
theorem capsules_follow_builds (deployment : Deployment) (hlossless : deployment.Lossless) (actions : List Action)
    (hworking : ∀ action ∈ actions, action.Working) (state : State)
    (hstate : state = run (act deployment) State.empty actions) :
    (Along (act deployment) (Unrepeated deployment) State.empty actions →
      ∀ environment : Environment, (∀ name, environment.broken name = false) →
        ∀ subject, Own deployment state subject → (∀ bytes, state.built.lookup subject = some bytes →
            get deployment environment state subject.memoryId subject.modelFingerprint = .ok bytes) ∧
          (state.built.lookup subject = none →
            ∃ error, get deployment environment state subject.memoryId subject.modelFingerprint = .error error)) ∧
    ∀ environment request, (∃ row ∈ state.rows, row.status = .active ∧
        capsuleKey deployment request.memoryId request.modelFingerprint = .ok row.id) →
      ∃ error, build deployment environment state request = (.error error, state) := by
  subst hstate
  constructor
  · intro halong environment hhealthy subject hown
    have hstep : ∀ state action next, Tracked deployment state →
        (Unrepeated deployment state action ∧ action.Working) → act deployment state action = .ok next →
        Tracked deployment next :=
      fun _ _ _ h hcondition hnext ↦ tracked_of_act hlossless hcondition.2 hcondition.1 h hnext
    have htracked := run_invariant_along hstep tracked_empty (halong.and_of_forall hworking)
    exact ⟨fun bytes hbytes ↦ get_of_built hhealthy htracked hbytes, get_of_not_built hown htracked⟩
  · rintro environment request ⟨row, hrow, hactive, hkey⟩
    have hstep : ∀ state action next, Chained state → act deployment state action = .ok next → Chained next :=
      fun _ _ _ h hnext ↦ chained_of_act h hnext
    have hempty : Chained State.empty := fun _ h ↦ by cases h
    exact build_of_active (run_invariant hstep hempty actions) hrow hactive hkey

namespace Sample

def digest : String := String.ofList (List.replicate 64 'a')

def store : Deployment where
  runtime :=
    { sha256 := fun _ ↦ digest
      hmacSha256 := fun _ _ ↦ digest
      ed25519PublicBytes := id
      ed25519Sign := fun _ _ ↦ ""
      ed25519Verify := fun _ _ _ ↦ true
      jsonLoads := fun _ ↦ none
      retainedSize := fun _ ↦ 0 }
  secret := some []
  statements := [("note", [1])]
  pools := ["memory"]
  compressors := [("identity", ⟨.ok, .ok⟩)]

def healthy : Environment := ⟨fun _ ↦ false, fun _ _ ↦ true, true, "", ""⟩

def request : Request := ⟨"note", digest, [7], 1, 1, ["memory"], "identity"⟩

def row : Record where
  id := digest
  memoryId := "note"
  memoryHash := digest
  modelFingerprint := digest
  kvDigest := digest
  kvBytes := 1
  tiers := ["memory"]
  compressor := "identity"
  promotionScore := 1
  promotionThreshold := 1
  status := .active
  reason := none
  chain := some ⟨0, "", ""⟩

def built : State := ⟨[row], [(⟨"memory", digest⟩, [7])], [(⟨"note", digest⟩, [7])]⟩

def evicted : State :=
  ⟨[row, { row with status := .evicted, reason := some "retract", chain := some ⟨1, "", ""⟩ }], [], []⟩

theorem build_eq : build store healthy State.empty request = (.ok row, built) := by decide +kernel

theorem lossless : store.Lossless := by
  intro name compressor hcompressor value compressed hcompress
  obtain ⟨-, rfl⟩ : name = "identity" ∧ (⟨.ok, .ok⟩ : Compressor) = compressor := by
    by_cases hname : name = "identity"
    · subst hname
      exact ⟨rfl, Option.some.inj hcompressor⟩
    · have hnone : store.compressors.lookup name = none := by
        simp [store, List.lookup_cons, beq_eq_false_iff_ne.mpr hname]
      rw [hnone] at hcompressor
      cases hcompressor
  exact congrArg Except.ok (Except.ok.inj hcompress).symm

end Sample

/-- A build cannot be repeated, before or after its eviction. -/
theorem capsule_cannot_be_rebuilt :
    (build Sample.store Sample.healthy State.empty Sample.request).2 = Sample.built ∧
    (build Sample.store Sample.healthy Sample.built Sample.request).1 =
      .error (.valueError "capsule key already names different bytes or routing metadata") ∧
    evict Sample.healthy Sample.built "note" "retract" = (.ok ⟨"note", "retract", ["memory"], []⟩, Sample.evicted) ∧
    (build Sample.store Sample.healthy Sample.evicted Sample.request).1 =
      .error (.valueError "capsule key already names different bytes or routing metadata") := by
  decide +kernel

/-- A capsule that was built once is read. -/
theorem capsules_follow_builds_once :
    get Sample.store Sample.healthy Sample.built "note" Sample.digest = .ok [7] := by
  have hstate : Sample.built = run (act Sample.store) State.empty [.build Sample.healthy Sample.request] := by
    rw [run_cons, run_nil, perform, act, Sample.build_eq]
  have halong : Along (act Sample.store) (Unrepeated Sample.store) State.empty
      [.build Sample.healthy Sample.request] := ⟨fun _ h ↦ absurd h List.not_mem_nil, trivial⟩
  have hworking : ∀ action ∈ [Action.build Sample.healthy Sample.request], action.Working := by
    rw [List.forall_mem_singleton]
    exact fun _ ↦ rfl
  have hown : Own Sample.store Sample.built ⟨"note", Sample.digest⟩ := by
    intro row hrow _
    obtain rfl := List.mem_singleton.mp hrow
    rfl
  exact ((capsules_follow_builds Sample.store Sample.lossless _ hworking Sample.built hstate).1 halong
    Sample.healthy (fun _ ↦ rfl) ⟨"note", Sample.digest⟩ hown).1 [7] (by decide +kernel)

end UniMem.KvCapsules
