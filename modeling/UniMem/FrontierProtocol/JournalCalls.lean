import UniMem.FrontierProtocol.Journal

/-!
# What one journal call does to the store

`state` leaves the store as it is and raises, or adds the journal that it returns to the cache of its process.
`sign` at most creates the key; `append` and `rotate` also write their file.
-/

namespace UniMem.FrontierProtocol

open Library MemoryAuthority Procedure

variable {cache : Cache} {journal : Journal} {final : Store} {error : PyError} {tip previous : String}
  {out carry : List Row}

variable {entry : String × Journal} {path name : String} {store loaded keyed : Store} {process : ℕ}
  {runtime : Runtime} {record row signed : Row} {signing later earlier : Signing} {now : ℕ → String}
  {records : List Row}

theorem mem_evict (h : entry ∈ cache.evict) :
    entry ∈ cache := by
  induction cache with
  | nil => exact h
  | cons first cache ih =>
    rw [Cache.evict] at h
    split_ifs at h
    · exact List.mem_cons_of_mem _ (ih h)
    · exact h

theorem mem_pop :
    entry ∈ cache.pop path ↔ entry ∈ cache ∧ entry.1 ≠ path := by
  simp [Cache.pop]

theorem mem_put (h : entry ∈ cache.put path journal) :
    entry ∈ cache ∨ entry = (path, journal) := by
  rw [Cache.put, List.mem_append, List.mem_singleton, mem_pop] at h
  exact h.imp And.left id

theorem mem_remember (h : entry ∈ remember cache path journal) :
    entry ∈ cache ∨ entry = (path, journal) := mem_put (mem_evict h)

theorem caches_setCache (store : Store) (process : ℕ) (cache : Cache) :
    (store.setCache process cache).caches = Function.update store.caches process cache := rfl

theorem mem_setCache {other : ℕ} (h : entry ∈ (store.setCache process cache).caches other) :
    entry ∈ store.caches other ∨ entry ∈ cache := by
  rcases eq_or_ne other process with rfl | hne
  · rw [caches_setCache, Function.update_self] at h
    exact Or.inr h
  · rw [caches_setCache, Function.update_of_ne hne] at h
    exact Or.inl h

theorem filename_eq_ok_iff :
    filename name = .ok path ↔ filename name = .ok name ∧ path = name := by
  unfold filename
  split_ifs <;> simp [eq_comm]

/-- The journal that `_state` returns: the cached one, or the one that it reads. -/
inductive Loaded (runtime : Runtime) (process : ℕ) (name : String) (store : Store)
    (journal : Journal) : Prop
  | hit (hcached : (store.caches process).lookup name = some journal)
      (hstamp : journal.stamp = store.stamp name) (hpins : journal.pins = store.pins)
  | reloaded (hchanged : ∀ cached, (store.caches process).lookup name = some cached →
        ¬(cached.stamp = store.stamp name ∧ cached.pins = store.pins))
      (hreload : reload runtime store name name ((store.caches process).lookup name) = .ok journal)

theorem state_eq_ok (h : state runtime process name store = (.ok journal, final)) :
    filename name = .ok name ∧ Loaded runtime process name store journal ∧
      ∃ cache, final = store.setCache process cache ∧
        ∀ entry ∈ cache, entry ∈ store.caches process ∨ entry = (name, journal) := by
  unfold state at h
  cases hname : filename name with
  | error error => simp [hname] at h
  | ok path =>
    obtain ⟨hvalid, rfl⟩ := filename_eq_ok_iff.mp hname
    refine ⟨rfl, ?_⟩
    simp only [hname] at h
    split at h
    · rename_i cached hfilter
      rw [Option.filter_eq_some_iff, decide_eq_true_eq] at hfilter
      simp only [Prod.mk.injEq, Except.ok.injEq] at h
      obtain ⟨rfl, rfl⟩ := h
      exact ⟨.hit hfilter.1 hfilter.2.1 hfilter.2.2, _, rfl, fun entry ↦ mem_put⟩
    · rename_i hfilter
      split at h
      · cases h
      · rename_i loaded hreload
        simp only [Prod.mk.injEq, Except.ok.injEq] at h
        obtain ⟨rfl, rfl⟩ := h
        refine ⟨.reloaded (fun cached hcached ↦ ?_) hreload, _, rfl, fun entry ↦ mem_remember⟩
        rw [Option.filter_eq_none_iff] at hfilter
        have hne := hfilter cached hcached
        rwa [decide_eq_true_eq] at hne

theorem state_eq_error (h : state runtime process name store = (.error error, final)) :
    final = store := by
  unfold state at h
  split at h
  · exact (Prod.mk.inj h).2.symm
  · simp only at h
    split at h
    · cases h
    · split at h
      · exact (Prod.mk.inj h).2.symm
      · cases h

theorem state_of_reload {cached : Journal} (hname : filename name = .ok name)
    (hcached : (store.caches process).lookup name = some cached)
    (hchanged : ¬(cached.stamp = store.stamp name ∧ cached.pins = store.pins))
    (hreload : reload runtime store name name (some cached) = .ok journal) :
    state runtime process name store =
      (.ok journal, store.setCache process (remember (store.caches process) name journal)) := by
  unfold state
  simp only [hname, hcached, hreload, Option.filter_some, hchanged, decide_false, Bool.false_eq_true, if_false]

theorem reload_eq_ok_iff {cached : Option Journal} :
    reload runtime store name path cached = .ok journal ↔ rows runtime (store.content path) = .ok journal.signed ∧
      verifyChain runtime store.signing name 0 "" journal.signed = .ok journal.tip ∧
      checkRetained runtime cached journal.signed = .ok () ∧
      journal.stamp = store.stamp path ∧ journal.pins = store.pins ∧
      journal.weight = runtime.retainedSize (.arr (journal.signed.map .obj)) := by
  obtain ⟨stamp, pins, signed, tip, weight⟩ := journal
  unfold reload
  simp only [Py.bind_eq_ok_iff, Py.pure_eq_ok, Except.ok.injEq, Journal.mk.injEq]
  constructor
  · rintro ⟨found, hrows, previous, hchain, ⟨⟩, hretained, rfl, rfl, rfl, rfl, rfl⟩
    exact ⟨hrows, hchain, hretained, rfl, rfl, rfl⟩
  · rintro ⟨hrows, hchain, hretained, rfl, rfl, rfl⟩
    exact ⟨signed, hrows, tip, hchain, (), hretained, rfl, rfl, rfl, rfl, rfl⟩

/-- Keys are created and nothing else changes. -/
structure Keyed (runtime : Runtime) (store final : Store) : Prop where
  files : final.files = store.files
  caches : final.caches = store.caches
  clock_le : store.clock ≤ final.clock
  signing : final.signing.Extends store.signing
  pinned : store.signing.Pinned runtime → final.signing.Pinned runtime

theorem Keyed.refl (runtime : Runtime) (store : Store) : Keyed runtime store store :=
  ⟨rfl, rfl, le_rfl, Signing.Extends.refl _, fun h ↦ h⟩

theorem Keyed.trans {first second third : Store} (h : Keyed runtime first second)
    (h' : Keyed runtime second third) :
    Keyed runtime first third where
  files := h'.files.trans h.files
  caches := h'.caches.trans h.caches
  clock_le := h.clock_le.trans h'.clock_le
  signing := h'.signing.trans h.signing
  pinned hpinned := h'.pinned (h.pinned hpinned)

theorem keyed_prepareKey (runtime : Runtime) (store : Store) (writer : Writer) :
    Keyed runtime store (store.prepareKey writer) := by
  unfold Store.prepareKey
  split_ifs
  · exact ⟨rfl, rfl, Nat.le_succ _, extends_createKey _ _, fun h ↦ pinned_createKey h _⟩
  · exact Keyed.refl runtime store

theorem keyed_configure {algorithm : Origin.Algorithm} {entropy : Bytes} {outcome : Py Unit}
    (hpinned : store.signing.Pinned runtime) (h : configure runtime algorithm entropy store = (outcome, final)) :
    Keyed runtime store final := by
  unfold configure at h
  split at h
  · exact (Prod.mk.inj h).2 ▸ Keyed.refl runtime store
  · rename_i signing hsigning
    obtain ⟨-, rfl⟩ := Prod.mk.inj h
    have hconfigured := configureSigning_eq_ok hpinned hsigning
    exact ⟨rfl, rfl, Nat.le_succ _, hconfigured.1, fun _ ↦ hconfigured.2⟩

theorem sign_eq_ok {writer : Writer} (h : sign runtime writer record store = (.ok row, final)) :
    Wirable (.obj record) ∧ Keyed runtime store final ∧ bindWith runtime final.signing writer record = .ok row := by
  unfold sign at h
  obtain ⟨encoded, middle, hwire, h⟩ := bind_eq_ok_iff.mp h
  obtain ⟨hencoded, rfl⟩ := Prod.mk.inj hwire
  obtain ⟨_, middle, hupdate, h⟩ := bind_eq_ok_iff.mp h
  obtain ⟨-, rfl⟩ := Prod.mk.inj hupdate
  obtain ⟨signing, middle, hread, h⟩ := bind_eq_ok_iff.mp h
  obtain ⟨hsigning, rfl⟩ := Prod.mk.inj hread
  obtain ⟨hbind, rfl⟩ := Prod.mk.inj h
  obtain rfl := Except.ok.inj hsigning
  exact ⟨(wire_eq_ok_iff.mp hencoded).1, keyed_prepareKey runtime store writer, hbind⟩

theorem sign_of {writer : Writer} (hwirable : Wirable (.obj record))
    (hbind : bindWith runtime (store.prepareKey writer).signing writer record = .ok row) :
    sign runtime writer record store = (.ok row, store.prepareKey writer) := by
  rw [sign, bind_apply, lift, hwirable.wire_eq]
  exact congrArg (·, store.prepareKey writer) hbind

theorem sign_eq_error {writer : Writer} (h : sign runtime writer record store = (.error error, final)) :
    Keyed runtime store final := by
  -- Only the check of the record comes before the key is created.
  rw [sign, bind_apply] at h
  cases hwire : wire (.obj record) with
  | error raised =>
    rw [lift, hwire] at h
    exact (Prod.mk.inj h).2 ▸ Keyed.refl runtime store
  | ok encoded =>
    rw [lift, hwire] at h
    exact (Prod.mk.inj h).2 ▸ keyed_prepareKey runtime store writer

/-- What `append` and `rotate` check before they write a row. -/
structure Admitted (runtime : Runtime) (row : Row) (size : ℕ) (tip : String) : Prop where
  wirable : Wirable (.obj row)
  length_dumps_le : (dumps (.obj row)).length ≤ maxBytes
  size_le : size + (line row).length ≤ 64 * maxBytes
  digest_eq : digest runtime (.obj row) = .ok tip

theorem admit_eq_ok {size : ℕ} {full : String} (h : admitRow runtime row size full = .ok tip) :
    Admitted runtime row size tip := by
  obtain ⟨encoded, hwire, h⟩ := Py.of_bind h
  split_ifs at h with hlong hfull
  refine ⟨(wire_eq_ok_iff.mp hwire).1, not_lt.mp hlong, ?_, h⟩
  rw [line, List.length_append, List.length_singleton, ← Nat.add_assoc]
  exact not_lt.mp hfull

theorem Admitted.admit_eq {size : ℕ} (h : Admitted runtime row size tip) (full : String) :
    admitRow runtime row size full = .ok tip := by
  have hsize := h.size_le
  rw [line, List.length_append, List.length_singleton, ← Nat.add_assoc] at hsize
  rw [admitRow, h.wirable.wire_eq, Py.bind_ok, if_neg (not_lt.mpr h.length_dumps_le), if_neg (not_lt.mpr hsize)]
  exact h.digest_eq

theorem lookup_sequenced_sequence (record : Row) (index : ℕ) (previous now : String) :
    (sequenced record index previous now).lookup "sequence" = some (.int index) := by
  rw [sequenced, Json.lookup_setField_of_ne _ (by decide), Json.lookup_setField_of_ne _ (by decide),
    Json.lookup_setField_self]

theorem lookup_sequenced_previous (record : Row) (index : ℕ) (previous now : String) :
    (sequenced record index previous now).lookup "previous" = some (.str previous) := by
  rw [sequenced, Json.lookup_setField_of_ne _ (by decide), Json.lookup_setField_self]

theorem lookup_sequenced_of_ne (record : Row) (index : ℕ) (previous now key : String)
    (hsequence : key ≠ "sequence") (hprevious : key ≠ "previous") (hnow : key ≠ "recorded_at") :
    (sequenced record index previous now).lookup key = record.lookup key := by
  rw [sequenced, Json.lookup_setField_of_ne _ hnow, Json.lookup_setField_of_ne _ hprevious,
    Json.lookup_setField_of_ne _ hsequence]

theorem recordOf_bindWith {writer : Writer} (h : bindWith runtime signing writer record = .ok row) :
    recordOf row = .obj record := by
  obtain ⟨found, -, hbind⟩ := Py.of_bind h
  cases found with
  | none => cases hbind
  | some bytes =>
    obtain ⟨-, rfl⟩ := Origin.bind_eq_ok_iff.mp hbind
    simp [recordOf, Origin.body]

theorem rowValid_bindWith (hed : runtime.Ed25519Correct) (hpinned : signing.Pinned runtime) {writer : Writer}
    {index : ℕ} {now : String}
    (h : bindWith runtime signing writer (sequenced record index previous now) = .ok row) :
    rowValid runtime signing index previous row = .ok true := by
  rw [rowValid, verify_bindWith hed hpinned h, Py.bind_ok, recordOf_bindWith h]
  simp [lookup_sequenced_sequence, lookup_sequenced_previous, equalsInt, Origin.isText]

theorem rowValid_eq_ok_true_iff {index : ℕ} :
    rowValid runtime signing index previous row = .ok true ↔
      verify runtime signing row = .ok true ∧ ∃ record, recordOf row = .obj record ∧
        equalsInt (record.lookup "sequence") index = true ∧
        Origin.isText (record.lookup "previous") previous = true := by
  unfold rowValid
  rw [Py.bind_eq_ok_iff]
  constructor
  · rintro ⟨valid, hverify, h⟩
    cases valid with
    | false => cases h
    | true =>
      refine ⟨hverify, ?_⟩
      rw [if_pos rfl] at h
      split at h
      · rename_i record hrecord
        have hboth := Except.ok.inj h
        rw [Bool.and_eq_true] at hboth
        exact ⟨record, hrecord, hboth⟩
      · cases h
  · rintro ⟨hverify, record, hrecord, hsequence, hprevious⟩
    refine ⟨true, hverify, ?_⟩
    rw [if_pos rfl, hrecord]
    simp only [hsequence, hprevious]
    rfl

theorem verifyChain_cons_eq_ok_iff {index : ℕ} {rest : List Row} :
    verifyChain runtime signing name index previous (row :: rest) = .ok tip ↔
      rowValid runtime signing index previous row = .ok true ∧ ∃ middle, digest runtime (.obj row) = .ok middle ∧
        verifyChain runtime signing name (index + 1) middle rest = .ok tip := by
  rw [verifyChain, Py.bind_eq_ok_iff]
  constructor
  · rintro ⟨valid, hvalid, h⟩
    cases valid with
    | false => cases h
    | true => exact ⟨hvalid, Py.of_bind h⟩
  · rintro ⟨hvalid, h⟩
    exact ⟨true, hvalid, Py.bind_eq_ok_iff.mpr h⟩

theorem verifyChain_append_eq_ok_iff {index : ℕ} {first second : List Row} :
    verifyChain runtime signing name index previous (first ++ second) = .ok tip ↔
      ∃ middle, verifyChain runtime signing name index previous first = .ok middle ∧
        verifyChain runtime signing name (index + first.length) middle second = .ok tip := by
  induction first generalizing index previous with
  | nil => simp [verifyChain]
  | cons row first ih =>
    rw [List.cons_append, List.length_cons, ← Nat.succ_add_eq_add_succ]
    simp only [verifyChain_cons_eq_ok_iff, ih]
    constructor
    · rintro ⟨hvalid, digest, hdigest, middle, hfirst, hsecond⟩
      exact ⟨middle, ⟨hvalid, digest, hdigest, hfirst⟩, hsecond⟩
    · rintro ⟨middle, ⟨hvalid, digest, hdigest, hfirst⟩, hsecond⟩
      exact ⟨hvalid, digest, hdigest, middle, hfirst, hsecond⟩

theorem rowValid_of_extends (h : later.Extends earlier) {index : ℕ}
    (hvalid : rowValid runtime earlier index previous row = .ok true) :
    rowValid runtime later index previous row = .ok true := by
  rw [rowValid_eq_ok_true_iff] at hvalid ⊢
  exact ⟨verify_of_extends h hvalid.1, hvalid.2⟩

theorem verifyChain_of_extends (h : later.Extends earlier) {index : ℕ} {signedRows : List Row}
    (hchain : verifyChain runtime earlier name index previous signedRows = .ok tip) :
    verifyChain runtime later name index previous signedRows = .ok tip := by
  induction signedRows generalizing index previous with
  | nil => exact hchain
  | cons row rest ih =>
    rw [verifyChain_cons_eq_ok_iff] at hchain ⊢
    obtain ⟨hvalid, middle, hdigest, hrest⟩ := hchain
    exact ⟨rowValid_of_extends h hvalid, middle, hdigest, ih hrest⟩

theorem appendHeld_eq_ok {writer : Writer} {now : String} {held : Journal}
    (h : appendHeld runtime process writer name record now store = (.ok (signed, held), final)) :
    ∃ journal loaded keyed, state runtime process name store = (.ok journal, loaded) ∧ Keyed runtime loaded keyed ∧
      journal.signed.length < maxRows ∧ bindWith runtime keyed.signing writer
        (sequenced record journal.signed.length journal.tip now) = .ok signed ∧
      Admitted runtime signed ((journal.stamp.map Stamp.size).getD 0) held.tip ∧
      held.signed = journal.signed ++ [signed] ∧
      held.stamp = (keyed.write name (keyed.content name ++ line signed)).stamp name ∧
      final = (keyed.write name (keyed.content name ++ line signed)).setCache process
        (remember (keyed.caches process) name held) := by
  unfold appendHeld at h
  obtain ⟨path, start, hpath, h⟩ := bind_eq_ok_iff.mp h
  obtain ⟨hname, rfl⟩ := Prod.mk.inj hpath
  obtain ⟨-, rfl⟩ := filename_eq_ok_iff.mp hname
  obtain ⟨journal, loaded, hstate, h⟩ := bind_eq_ok_iff.mp h
  obtain ⟨length, middle, hcount, h⟩ := bind_eq_ok_iff.mp h
  obtain ⟨hlength, rfl⟩ := Prod.mk.inj hcount
  obtain ⟨row, keyed, hsign, h⟩ := bind_eq_ok_iff.mp h
  obtain ⟨tip, middle, hadmit, h⟩ := bind_eq_ok_iff.mp h
  obtain ⟨hadmitted, rfl⟩ := Prod.mk.inj hadmit
  obtain ⟨result, rfl⟩ := Prod.mk.inj h
  obtain ⟨rfl, rfl⟩ := Prod.mk.inj (Except.ok.inj result)
  obtain ⟨-, hkeyed, hbind⟩ := sign_eq_ok hsign
  have hbound := (count_eq_ok_iff.mp hlength).1.2
  have hrows : journal.signed.length < maxRows := by
    rw [Int.le_sub_one_iff] at hbound
    exact_mod_cast hbound
  exact ⟨journal, loaded, keyed, hstate, hkeyed, hrows, hbind, admit_eq_ok hadmitted, rfl, rfl, rfl⟩

/-- The journal that a process holds after `append`. -/
def heldAfter (runtime : Runtime) (name : String) (journal : Journal) (signed : Row) (tip : String)
    (written : Store) : Journal :=
  ⟨written.stamp name, written.pins, journal.signed ++ [signed], tip,
    journal.weight + runtime.retainedSize (.obj signed) + 64⟩

theorem appendHeld_of {writer : Writer} {now : String} (hname : filename name = .ok name)
    (hstate : state runtime process name store = (.ok journal, loaded))
    (hlength : journal.signed.length < maxRows)
    (hsign : sign runtime writer (sequenced record journal.signed.length journal.tip now) loaded =
      (.ok signed, keyed))
    (hadmitted : Admitted runtime signed ((journal.stamp.map Stamp.size).getD 0) tip) :
    appendHeld runtime process writer name record now store = (.ok (signed, heldAfter runtime name journal signed tip
          (keyed.write name (keyed.content name ++ line signed))),
        (keyed.write name (keyed.content name ++ line signed)).setCache process
          (remember (keyed.caches process) name (heldAfter runtime name journal signed tip
            (keyed.write name (keyed.content name ++ line signed))))) := by
  have hcount : count journal.signed.length 0 (maxRows - 1) "count" =
      .ok (journal.signed.length : ℤ) := by
    apply count_of_mem _ (Int.natCast_nonneg _)
    rw [Int.le_sub_one_iff]
    exact_mod_cast hlength
  unfold appendHeld
  rw [hname, bind_apply, lift]
  simp only
  rw [bind_apply, hstate]
  simp only
  rw [bind_apply, lift, hcount]
  simp only
  rw [bind_apply, hsign]
  simp only
  rw [bind_apply, lift, hadmitted.admit_eq]
  rfl

theorem appendHeld_eq_error {writer : Writer} {now : String}
    (h : appendHeld runtime process writer name record now store = (.error error, final)) :
    final = store ∨ ∃ journal loaded,
      state runtime process name store = (.ok journal, loaded) ∧ Keyed runtime loaded final := by
  unfold appendHeld at h
  rcases bind_eq_error_iff.mp h with hpath | ⟨path, start, hpath, h⟩
  · exact Or.inl (Prod.mk.inj hpath).2.symm
  obtain ⟨hname, rfl⟩ := Prod.mk.inj hpath
  rcases bind_eq_error_iff.mp h with hstate | ⟨journal, loaded, hstate, h⟩
  · exact Or.inl (state_eq_error hstate)
  refine Or.inr ⟨journal, loaded, hstate, ?_⟩
  rcases bind_eq_error_iff.mp h with hcount | ⟨length, middle, hcount, h⟩
  · exact (Prod.mk.inj hcount).2 ▸ Keyed.refl runtime loaded
  obtain ⟨-, rfl⟩ := Prod.mk.inj hcount
  rcases bind_eq_error_iff.mp h with hsign | ⟨row, keyed, hsign, h⟩
  · exact sign_eq_error hsign
  rcases bind_eq_error_iff.mp h with hadmit | ⟨tip, middle, hadmit, h⟩
  · exact (Prod.mk.inj hadmit).2 ▸ (sign_eq_ok hsign).2.1
  · cases (Prod.mk.inj h).1

/-- The rows that `rotate` signs for a list of records, each admitted where it stands. -/
inductive SignedRows (runtime : Runtime) (now : ℕ → String) :
    ℕ → String → ℕ → List Row → List Row → String → Prop
  | nil (index : ℕ) (previous : String) (total : ℕ) :
      SignedRows runtime now index previous total [] [] previous
  | cons {index total : ℕ} {previous middle tip : String} {record row : Row}
      {records rest : List Row}
      (hrecord : recordOf row = .obj (sequenced record index previous (now index)))
      (hadmitted : Admitted runtime row total middle)
      (hrest : SignedRows runtime now (index + 1) middle (total + (line row).length) records rest tip) :
      SignedRows runtime now index previous total (record :: records) (row :: rest) tip

theorem signRows_eq_ok {writer : Writer} {index : ℕ} {total : ℕ}
    (h : signRows runtime writer now index previous total records store = (.ok (out, tip), final)) :
    Keyed runtime store final ∧ SignedRows runtime now index previous total records out tip := by
  induction records generalizing index previous total out store with
  | nil =>
    obtain ⟨hresult, rfl⟩ := Prod.mk.inj h
    obtain ⟨rfl, rfl⟩ := Prod.mk.inj (Except.ok.inj hresult)
    exact ⟨Keyed.refl runtime store, .nil index previous total⟩
  | cons record records ih =>
    obtain ⟨row, keyed, hsign, h⟩ := bind_eq_ok_iff.mp h
    obtain ⟨middle, start, hadmit, h⟩ := bind_eq_ok_iff.mp h
    obtain ⟨hadmitted, rfl⟩ := Prod.mk.inj hadmit
    obtain ⟨⟨rest, last⟩, stop, hloop, h⟩ := bind_eq_ok_iff.mp h
    obtain ⟨hresult, rfl⟩ := Prod.mk.inj h
    obtain ⟨rfl, rfl⟩ := Prod.mk.inj (Except.ok.inj hresult)
    obtain ⟨-, hkeyed, hbind⟩ := sign_eq_ok hsign
    obtain ⟨hkeyed', hrest⟩ := ih hloop
    exact ⟨hkeyed.trans hkeyed', .cons (recordOf_bindWith hbind) (admit_eq_ok hadmitted) hrest⟩

theorem signRows_cons_of {writer : Writer} {index : ℕ} {middle : String} {total : ℕ}
    (hsign : sign runtime writer (sequenced record index previous (now index)) store = (.ok row, keyed))
    (hadmitted : Admitted runtime row total middle)
    (hrest : signRows runtime writer now (index + 1) middle (total + (line row).length) records keyed =
      (.ok (out, tip), final)) :
    signRows runtime writer now index previous total (record :: records) store = (.ok (row :: out, tip), final) := by
  rw [signRows, bind_apply, hsign]
  simp only
  rw [bind_apply, lift, hadmitted.admit_eq]
  simp only
  rw [bind_apply, hrest]
  rfl

theorem signRows_eq_error {writer : Writer} {index : ℕ} {total : ℕ}
    (h : signRows runtime writer now index previous total records store = (.error error, final)) :
    Keyed runtime store final := by
  induction records generalizing index previous total store with
  | nil => cases (Prod.mk.inj h).1
  | cons record records ih =>
    rcases bind_eq_error_iff.mp h with hsign | ⟨row, keyed, hsign, h⟩
    · exact sign_eq_error hsign
    have hkeyed := (sign_eq_ok hsign).2.1
    rcases bind_eq_error_iff.mp h with hadmit | ⟨middle, start, hadmit, h⟩
    · exact (Prod.mk.inj hadmit).2 ▸ hkeyed
    obtain ⟨-, rfl⟩ := Prod.mk.inj hadmit
    rcases bind_eq_error_iff.mp h with hloop | ⟨rest, stop, hloop, h⟩
    · exact hkeyed.trans (ih hloop)
    · cases (Prod.mk.inj h).1

theorem verifyChain_signRows (hed : runtime.Ed25519Correct) (name : String) {writer : Writer} {index : ℕ}
    {total : ℕ} (hpinned : store.signing.Pinned runtime)
    (h : signRows runtime writer now index previous total records store = (.ok (out, tip), final)) :
    verifyChain runtime final.signing name index previous out = .ok tip := by
  induction records generalizing index previous total out store with
  | nil =>
    obtain ⟨hresult, rfl⟩ := Prod.mk.inj h
    obtain ⟨rfl, rfl⟩ := Prod.mk.inj (Except.ok.inj hresult)
    rfl
  | cons record records ih =>
    obtain ⟨row, keyed, hsign, h⟩ := bind_eq_ok_iff.mp h
    obtain ⟨middle, start, hadmit, h⟩ := bind_eq_ok_iff.mp h
    obtain ⟨hadmitted, rfl⟩ := Prod.mk.inj hadmit
    obtain ⟨⟨rest, last⟩, stop, hloop, h⟩ := bind_eq_ok_iff.mp h
    obtain ⟨hresult, rfl⟩ := Prod.mk.inj h
    obtain ⟨rfl, rfl⟩ := Prod.mk.inj (Except.ok.inj hresult)
    obtain ⟨-, hkeyed, hbind⟩ := sign_eq_ok hsign
    have hpinned' := hkeyed.pinned hpinned
    have hvalid := rowValid_bindWith hed hpinned' hbind
    have hlater := (signRows_eq_ok hloop).1.signing
    rw [verifyChain_cons_eq_ok_iff]
    exact ⟨rowValid_of_extends hlater hvalid, middle, (admit_eq_ok hadmitted).digest_eq, ih hpinned' hloop⟩

theorem rotateHeld_eq_ok {writer : Writer}
    (h : rotateHeld runtime process writer name carry now store = (.ok (journal, out, tip), final)) :
    ∃ loaded keyed, state runtime process name store = (.ok journal, loaded) ∧ carry.length < maxRows ∧
      signRows runtime writer now 0 "" 0 (linkRecord journal :: carry) loaded = (.ok (out, tip), keyed) ∧
      final = (keyed.write name (out.flatMap line)).setCache process (Cache.pop (keyed.caches process) name) := by
  unfold rotateHeld at h
  obtain ⟨length, middle, hcount, h⟩ := bind_eq_ok_iff.mp h
  obtain ⟨hlength, rfl⟩ := Prod.mk.inj hcount
  obtain ⟨path, start, hpath, h⟩ := bind_eq_ok_iff.mp h
  obtain ⟨hname, rfl⟩ := Prod.mk.inj hpath
  obtain ⟨-, rfl⟩ := filename_eq_ok_iff.mp hname
  obtain ⟨loadedJournal, loaded, hstate, h⟩ := bind_eq_ok_iff.mp h
  obtain ⟨signed, keyed, hloop, h⟩ := bind_eq_ok_iff.mp h
  obtain ⟨result, rfl⟩ := Prod.mk.inj h
  obtain ⟨rfl, rfl⟩ := Prod.mk.inj (Except.ok.inj result)
  have hbound := (count_eq_ok_iff.mp hlength).1.2
  rw [Int.le_sub_one_iff] at hbound
  exact ⟨loaded, keyed, hstate, by exact_mod_cast hbound, hloop, rfl⟩

theorem rotateHeld_of {writer : Writer} (hname : filename name = .ok name) (hcarry : carry.length < maxRows)
    (hstate : state runtime process name store = (.ok journal, loaded))
    (hloop : signRows runtime writer now 0 "" 0 (linkRecord journal :: carry) loaded = (.ok (out, tip), keyed)) :
    rotateHeld runtime process writer name carry now store =
      (.ok (journal, out, tip), (keyed.write name (out.flatMap line)).setCache process
        (Cache.pop (keyed.caches process) name)) := by
  have hcount : count carry.length 0 (maxRows - 1) "rotation carry rows" =
      .ok (carry.length : ℤ) := by
    apply count_of_mem _ (Int.natCast_nonneg _)
    rw [Int.le_sub_one_iff]
    exact_mod_cast hcarry
  unfold rotateHeld
  rw [hcount, bind_apply, lift]
  simp only
  rw [hname, bind_apply, lift]
  simp only
  rw [bind_apply, hstate]
  simp only
  rw [bind_apply, hloop]
  rfl

theorem rotateHeld_eq_error {writer : Writer}
    (h : rotateHeld runtime process writer name carry now store = (.error error, final)) :
    final = store ∨ ∃ journal loaded,
      state runtime process name store = (.ok journal, loaded) ∧ Keyed runtime loaded final := by
  unfold rotateHeld at h
  rcases bind_eq_error_iff.mp h with hcount | ⟨length, middle, hcount, h⟩
  · exact Or.inl (Prod.mk.inj hcount).2.symm
  obtain ⟨-, rfl⟩ := Prod.mk.inj hcount
  rcases bind_eq_error_iff.mp h with hpath | ⟨path, start, hpath, h⟩
  · exact Or.inl (Prod.mk.inj hpath).2.symm
  obtain ⟨hname, rfl⟩ := Prod.mk.inj hpath
  rcases bind_eq_error_iff.mp h with hstate | ⟨journal, loaded, hstate, h⟩
  · exact Or.inl (state_eq_error hstate)
  refine Or.inr ⟨journal, loaded, hstate, ?_⟩
  rcases bind_eq_error_iff.mp h with hloop | ⟨signed, keyed, hloop, h⟩
  · exact signRows_eq_error hloop
  · cases (Prod.mk.inj h).1

end UniMem.FrontierProtocol
