import UniMem.FrontierProtocol.JournalCalls

/-!
# Reading back a journal that was written

`append` and `rotate` bound a line without its newline and `loads` bounds it with it. A journal reads back in a
fresh process exactly when none of its rows has that size (`reload_held_iff`).
-/

namespace UniMem.FrontierProtocol

open Library MemoryAuthority

theorem readline_append_newline (text rest : Bytes) (hplain : (0x0a : UInt8) ∉ text) {limit : ℕ}
    (hlimit : text.length < limit) :
    readline limit (text ++ 0x0a :: rest) = (text ++ [0x0a], rest) := by
  induction text generalizing limit with
  | nil =>
    obtain ⟨limit, rfl⟩ := Nat.exists_eq_succ_of_ne_zero (Nat.ne_zero_of_lt hlimit)
    simp [readline]
  | cons byte text ih =>
    rw [List.mem_cons, not_or] at hplain
    obtain ⟨limit, rfl⟩ := Nat.exists_eq_succ_of_ne_zero (Nat.ne_zero_of_lt hlimit)
    rw [List.cons_append, readline, if_neg (Ne.symm hplain.1), ih hplain.2 (Nat.lt_of_succ_lt_succ hlimit)]
    rfl

theorem length_line (row : Row) : (line row).length = (dumps (.obj row)).length + 1 := by
  rw [line, List.length_append, List.length_singleton]

/-- A row as the writers leave it: it is checked, and `json.loads` inverts `json.dumps` on it. -/
structure Stored (runtime : Runtime) (row : Row) : Prop where
  wirable : Wirable (.obj row)
  length_dumps_le : (dumps (.obj row)).length ≤ maxBytes
  loads_line : runtime.jsonLoads (line row) = some (.obj row)

theorem readline_line {row : Row} (h : (dumps (.obj row)).length ≤ maxBytes) (rest : Bytes) :
    readline (maxBytes + 2) (line row ++ rest) = (line row, rest) := by
  have hplain : (0x0a : UInt8) ∉ dumps (.obj row) := Json.newline_notMem_encode_spaced (.obj row)
  rw [line, List.append_assoc, List.singleton_append]
  exact readline_append_newline _ rest hplain (by omega)

theorem loads_line_eq {runtime : Runtime} {row : Row} (h : Stored runtime row) :
    loads runtime (line row) =
      if (dumps (.obj row)).length = maxBytes then .error exceedsSize else .ok (.obj row) := by
  have hle := h.length_dumps_le
  split_ifs with hfull
  · rw [loads, if_pos (by rw [length_line]; omega)]
  · rw [loads_eq_ok_iff]
    exact ⟨by rw [length_line]; omega, h.loads_line, h.wirable.bounded⟩

/-- The error of a row that `loads` rejects. -/
def unreadable : PyError := .valueError "journal contains invalid or excessively nested JSON"

variable {result : List Row} {process : ℕ}

theorem rowsLoop_line {runtime : Runtime} {row : Row} (h : Stored runtime row) {rest : Bytes} {total : ℕ}
    (htotal : total + (line row).length ≤ 64 * maxBytes) (hresult : result.length < maxRows) :
    rowsLoop runtime (line row ++ rest) total result = if (dumps (.obj row)).length = maxBytes then .error unreadable
      else rowsLoop runtime rest (total + (line row).length) (result ++ [row]) := by
  have hle := h.length_dumps_le
  have hlength := length_line row
  have hread := readline_line hle rest
  have hlast : (line row).getLast? = some 0x0a := by rw [line, List.getLast?_concat]
  cases hbytes : line row ++ rest with
  | nil =>
    have hzero := congrArg List.length hbytes
    rw [List.length_append, List.length_nil] at hzero
    omega
  | cons byte stream =>
    rw [hbytes] at hread
    rw [rowsLoop, hread]
    simp only [hlast, ne_eq, not_true_eq_false, or_false]
    rw [if_neg (by omega), if_neg (by omega), loads_line_eq h]
    split_ifs with hfull
    · rfl
    · simp only [h.wirable.wire_eq, Py.bind_ok]

theorem rowsLoop_lines {runtime : Runtime} {signedRows : List Row} (h : ∀ row ∈ signedRows, Stored runtime row)
    {total : ℕ} (htotal : total + (signedRows.flatMap line).length ≤ 64 * maxBytes)
    (hresult : result.length + signedRows.length ≤ maxRows) :
    rowsLoop runtime (signedRows.flatMap line) total result =
      if ∀ row ∈ signedRows, (dumps (.obj row)).length ≠ maxBytes then .ok (result ++ signedRows)
      else .error unreadable := by
  induction signedRows generalizing total result with
  | nil => simp [rowsLoop]
  | cons row rest ih =>
    rw [List.flatMap_cons, List.length_append] at htotal
    rw [List.length_cons] at hresult
    rw [List.flatMap_cons, rowsLoop_line (h row List.mem_cons_self) (by omega) (by omega)]
    by_cases hfull : (dumps (.obj row)).length = maxBytes
    · rw [if_pos hfull, if_neg]
      intro hall
      exact hall row List.mem_cons_self hfull
    · rw [if_neg hfull, ih (fun other hother ↦ h other (List.mem_cons_of_mem _ hother))
        (by omega) (by rw [List.length_append, List.length_singleton]; omega), List.append_assoc,
        List.singleton_append]
      simp only [List.forall_mem_cons, ne_eq, hfull, not_false_eq_true, true_and]

/-- The journal holds the rows with their tip, and so does every cache entry whose stamp is current. -/
structure Holds (runtime : Runtime) (name : String) (signedRows : List Row) (tip : String)
    (store : Store) : Prop where
  content : store.content name = signedRows.flatMap line
  chain : verifyChain runtime store.signing name 0 "" signedRows = .ok tip
  stored : ∀ row ∈ signedRows, Stored runtime row
  length_le : signedRows.length ≤ maxRows
  size_le : (signedRows.flatMap line).length ≤ 64 * maxBytes
  cached : ∀ process journal, (name, journal) ∈ store.caches process →
    journal.stamp = store.stamp name → journal.signed = signedRows ∧ journal.tip = tip
  version_lt : ∀ stamp, store.stamp name = some stamp → stamp.version < store.clock
  cached_lt : ∀ process journal stamp, (name, journal) ∈ store.caches process →
    journal.stamp = some stamp → stamp.version < store.clock
  pinned : store.signing.Pinned runtime

namespace Holds

variable {runtime : Runtime} {name : String} {signedRows : List Row} {tip : String}
  {store final : Store}

theorem stamp_eq_of_files (h : final.files = store.files) (path : String) :
    final.stamp path = store.stamp path := by rw [Store.stamp, h, Store.stamp]

theorem content_eq_of_files (h : final.files = store.files) (path : String) :
    final.content path = store.content path := by rw [Store.content, h, Store.content]

section

variable (h : Holds runtime name signedRows tip store)
include h

theorem keyed (hkeyed : Keyed runtime store final) :
    Holds runtime name signedRows tip final where
  content := (content_eq_of_files hkeyed.files name).trans h.content
  chain := verifyChain_of_extends hkeyed.signing h.chain
  stored := h.stored
  length_le := h.length_le
  size_le := h.size_le
  cached process journal := by
    rw [hkeyed.caches, stamp_eq_of_files hkeyed.files]
    exact h.cached process journal
  version_lt stamp := by
    rw [stamp_eq_of_files hkeyed.files]
    exact fun hstamp ↦ (h.version_lt stamp hstamp).trans_le hkeyed.clock_le
  cached_lt process journal stamp := by
    rw [hkeyed.caches]
    exact fun hmem hstamp ↦ (h.cached_lt process journal stamp hmem hstamp).trans_le hkeyed.clock_le
  pinned := hkeyed.pinned h.pinned

theorem setCache {process : ℕ} {cache : Cache}
    (hcache : ∀ journal, (name, journal) ∈ cache → (name, journal) ∈ store.caches process ∨
      (journal.stamp = store.stamp name ∧ journal.signed = signedRows ∧ journal.tip = tip)) :
    Holds runtime name signedRows tip (store.setCache process cache) where
  content := h.content
  chain := h.chain
  stored := h.stored
  length_le := h.length_le
  size_le := h.size_le
  cached other journal hmem hstamp := by
    rcases mem_setCache hmem with hold | hnew
    · exact h.cached other journal hold hstamp
    · rcases hcache journal hnew with hold | hcurrent
      · exact h.cached process journal hold hstamp
      · exact hcurrent.2
  version_lt := h.version_lt
  cached_lt other journal stamp hmem hstamp := by
    rcases mem_setCache hmem with hold | hnew
    · exact h.cached_lt other journal stamp hold hstamp
    · rcases hcache journal hnew with hold | hcurrent
      · exact h.cached_lt process journal stamp hold hstamp
      · exact h.version_lt stamp (hcurrent.1.symm.trans hstamp)
  pinned := h.pinned

theorem rows_content :
    rows runtime (store.content name) =
      if ∀ row ∈ signedRows, (dumps (.obj row)).length ≠ maxBytes then .ok signedRows else .error unreadable := by
  rw [rows, h.content, rowsLoop_lines h.stored (by rw [Nat.zero_add]; exact h.size_le)
    (by rw [List.length_nil, Nat.zero_add]; exact h.length_le), List.nil_append]

variable {journal : Journal} {other : String}

theorem loaded {process : ℕ}
    (hload : Loaded runtime process name store journal) :
    journal.stamp = store.stamp name ∧ journal.signed = signedRows ∧ journal.tip = tip := by
  cases hload with
  | hit hcached hstamp hpins =>
    exact ⟨hstamp, h.cached process journal (mem_of_lookup hcached) hstamp⟩
  | reloaded hchanged hreload =>
    obtain ⟨hrows, hchain, -, hstamp, -⟩ := reload_eq_ok_iff.mp hreload
    rw [h.rows_content] at hrows
    split_ifs at hrows
    obtain hsigned := Except.ok.inj hrows
    rw [← hsigned, h.chain] at hchain
    exact ⟨hstamp, hsigned.symm, (Except.ok.inj hchain).symm⟩

theorem state {process : ℕ} {journal : Journal}
    (hstate : state runtime process name store = (.ok journal, final)) :
    Holds runtime name signedRows tip final ∧
      journal.stamp = final.stamp name ∧ journal.signed = signedRows ∧ journal.tip = tip := by
  obtain ⟨-, hload, cache, rfl, hcache⟩ := state_eq_ok hstate
  have hcurrent := h.loaded hload
  refine ⟨h.setCache fun entry hentry ↦ ?_, hcurrent⟩
  rcases hcache _ hentry with hold | hnew
  · exact Or.inl hold
  · obtain ⟨-, rfl⟩ := Prod.mk.inj hnew
    exact Or.inr hcurrent

theorem state_other {process : ℕ} (hother : other ≠ name)
    (hstate : FrontierProtocol.state runtime process other store = (.ok journal, final)) :
    Holds runtime name signedRows tip final := by
  obtain ⟨-, -, cache, rfl, hcache⟩ := state_eq_ok hstate
  refine h.setCache fun entry hentry ↦ ?_
  rcases hcache _ hentry with hold | hnew
  · exact Or.inl hold
  · exact absurd (Prod.mk.inj hnew).1.symm hother

theorem write_other (hother : other ≠ name) (bytes : Bytes) :
    Holds runtime name signedRows tip (store.write other bytes) := by
  have hfiles : (store.write other bytes).files name = store.files name :=
    Function.update_of_ne hother.symm _ _
  have hstamp : (store.write other bytes).stamp name = store.stamp name := by
    rw [Store.stamp, hfiles, Store.stamp]
  refine ⟨?_, h.chain, h.stored, h.length_le, h.size_le, ?_, ?_, ?_, h.pinned⟩
  · rw [Store.content, hfiles]
    exact h.content
  · rw [hstamp]
    exact h.cached
  · rw [hstamp]
    exact fun stamp hcurrent ↦ Nat.lt_succ_of_lt (h.version_lt stamp hcurrent)
  · exact fun process journal stamp hmem hcurrent ↦
      Nat.lt_succ_of_lt (h.cached_lt process journal stamp hmem hcurrent)

theorem write {newRows : List Row} {newTip : String}
    (hchain : verifyChain runtime store.signing name 0 "" newRows = .ok newTip)
    (hstored : ∀ row ∈ newRows, Stored runtime row) (hlength : newRows.length ≤ maxRows)
    (hsize : (newRows.flatMap line).length ≤ 64 * maxBytes) :
    Holds runtime name newRows newTip (store.write name (newRows.flatMap line)) := by
  have hfile : (store.write name (newRows.flatMap line)).files name =
      some ⟨newRows.flatMap line, store.clock⟩ := Function.update_self _ _ _
  have hstamp : (store.write name (newRows.flatMap line)).stamp name =
      some ⟨store.clock, (newRows.flatMap line).length⟩ := by
    rw [Store.stamp, hfile]
    rfl
  refine ⟨?_, hchain, hstored, hlength, hsize, ?_, ?_, ?_, h.pinned⟩
  · rw [Store.content, hfile]
    rfl
  · intro process journal hmem hcurrent
    rw [hstamp] at hcurrent
    exact absurd (h.cached_lt process journal _ hmem hcurrent) (lt_irrefl _)
  · intro stamp hcurrent
    rw [hstamp] at hcurrent
    obtain rfl := Option.some.inj hcurrent
    exact Nat.lt_succ_self _
  · exact fun process journal stamp hmem hcurrent ↦
      Nat.lt_succ_of_lt (h.cached_lt process journal stamp hmem hcurrent)

end

theorem append (hed : runtime.Ed25519Correct) (h : Holds runtime name signedRows tip store)
    {process : ℕ} {writer : Writer} {record signed : Row} {now : String} {held : Journal}
    (happend : appendHeld runtime process writer name record now store = (.ok (signed, held), final))
    (hloads : runtime.jsonLoads (line signed) = some (.obj signed)) :
    Holds runtime name held.signed held.tip final := by
  obtain ⟨journal, loaded, keys, hstate, hkeyed, hlength, hbind, hadmitted, hsigned, hstamp, rfl⟩ :=
    appendHeld_eq_ok happend
  obtain ⟨hloaded, hcurrent, rfl, rfl⟩ := h.state hstate
  have hkeys := hloaded.keyed hkeyed
  have hlines : keys.content name ++ line signed = held.signed.flatMap line := by
    rw [hkeys.content, hsigned, List.flatMap_append, List.flatMap_singleton]
  have hsize : (journal.stamp.map Stamp.size).getD 0 = (keys.content name).length := by
    rw [hcurrent, ← stamp_eq_of_files hkeyed.files, Store.stamp, Store.content]
    cases keys.files name <;> rfl
  rw [hlines] at hstamp ⊢
  refine (hkeys.write ?_ ?_ ?_ ?_).setCache fun other hother ↦ ?_
  · rw [hsigned, verifyChain_append_eq_ok_iff]
    refine ⟨journal.tip, hkeys.chain, verifyChain_cons_eq_ok_iff.mpr ⟨?_, held.tip, ?_, rfl⟩⟩
    · rw [Nat.zero_add]
      exact rowValid_bindWith hed hkeys.pinned hbind
    · exact hadmitted.digest_eq
  · intro row hrow
    rw [hsigned, List.mem_append, List.mem_singleton] at hrow
    rcases hrow with hold | rfl
    · exact hkeys.stored row hold
    · exact ⟨hadmitted.wirable, hadmitted.length_dumps_le, hloads⟩
  · rw [hsigned, List.length_append, List.length_singleton]
    exact hlength
  · rw [← hlines, List.length_append, ← hsize]
    exact hadmitted.size_le
  · rcases mem_remember hother with hold | hnew
    · exact Or.inl hold
    · obtain ⟨-, rfl⟩ := Prod.mk.inj hnew
      exact Or.inr ⟨hstamp, rfl, rfl⟩

theorem size_signedRows {now : ℕ → String} {index : ℕ} {previous : String} {total : ℕ}
    {records out : List Row} (h : SignedRows runtime now index previous total records out tip)
    (htotal : total ≤ 64 * maxBytes) :
    out.length = records.length ∧ total + (out.flatMap line).length ≤ 64 * maxBytes ∧
      ∀ row ∈ out, Wirable (.obj row) ∧ (dumps (.obj row)).length ≤ maxBytes := by
  induction h with
  | nil index previous total => exact ⟨rfl, htotal, fun row hrow ↦ absurd hrow List.not_mem_nil⟩
  | cons hrecord hadmitted hrest ih =>
    obtain ⟨hlength, hsize, hrows⟩ := ih hadmitted.size_le
    refine ⟨congrArg Nat.succ hlength, ?_, ?_⟩
    · rw [List.flatMap_cons, List.length_append, ← Nat.add_assoc]
      exact hsize
    · rw [List.forall_mem_cons]
      exact ⟨⟨hadmitted.wirable, hadmitted.length_dumps_le⟩, hrows⟩

theorem rotate (hed : runtime.Ed25519Correct) (h : Holds runtime name signedRows tip store)
    {process : ℕ} {writer : Writer} {carry out : List Row} {now : ℕ → String} {journal : Journal} {newTip : String}
    (hrotate : rotateHeld runtime process writer name carry now store = (.ok (journal, out, newTip), final))
    (hloads : ∀ row ∈ out, runtime.jsonLoads (line row) = some (.obj row)) :
    Holds runtime name out newTip final := by
  obtain ⟨loaded, keys, hstate, hcarry, hloop, rfl⟩ := rotateHeld_eq_ok hrotate
  have hloaded := (h.state hstate).1
  obtain ⟨hkeyed, hsignedRows⟩ := signRows_eq_ok hloop
  obtain ⟨hlength, hsize, hrows⟩ := size_signedRows hsignedRows (Nat.zero_le _)
  refine ((hloaded.keyed hkeyed).write ?_ ?_ ?_ ?_).setCache fun other hother ↦ ?_
  · exact verifyChain_signRows hed name hloaded.pinned hloop
  · intro row hrow
    exact ⟨(hrows row hrow).1, (hrows row hrow).2, hloads row hrow⟩
  · rw [hlength, List.length_cons]
    exact hcarry
  · rw [← Nat.zero_add (List.length _)]
    exact hsize
  · exact Or.inl (mem_pop.mp hother).1

end Holds

/-- The steps that do not write the journal, with forks, restarts and new keys. -/
inductive Quiet (runtime : Runtime) (name : String) (store final : Store) : Prop
  | state {process : ℕ} {any : String} {outcome : Py Journal}
      (h : state runtime process any store = (outcome, final))
  | appendRaised {process : ℕ} {writer : Writer} {any : String} {record : Row} {now : String}
      {error : PyError}
      (h : appendHeld runtime process writer any record now store = (.error error, final))
  | rotateRaised {process : ℕ} {writer : Writer} {any : String} {carry : List Row}
      {now : ℕ → String} {error : PyError}
      (h : rotateHeld runtime process writer any carry now store = (.error error, final))
  | appendOther {process : ℕ} {writer : Writer} {other : String} {record : Row} {now : String}
      {result : Row × Journal} (hother : other ≠ name)
      (h : appendHeld runtime process writer other record now store = (.ok result, final))
  | rotateOther {process : ℕ} {writer : Writer} {other : String} {carry : List Row}
      {now : ℕ → String} {result : Journal × List Row × String} (hother : other ≠ name)
      (h : rotateHeld runtime process writer other carry now store = (.ok result, final))
  | restart {process : ℕ} (h : final = store.setCache process [])
  | configure {algorithm : Origin.Algorithm} {entropy : Bytes} {outcome : Py Unit}
      (h : configure runtime algorithm entropy store = (outcome, final))

/-- A store in which the last writer left these rows, after any calls of any processes. -/
inductive Run (runtime : Runtime) (name : String) : Store → List Row → String → Prop
  | start {store : Store} (hfile : store.files name = none)
      (hcaches : ∀ process, store.caches process = [])
      (hpinned : store.signing.Pinned runtime) : Run runtime name store [] ""
  | append {store final : Store} {signedRows : List Row} {tip : String} {process : ℕ}
      {writer : Writer} {record signed : Row} {now : String} {held : Journal}
      (hrun : Run runtime name store signedRows tip)
      (h : appendHeld runtime process writer name record now store = (.ok (signed, held), final))
      (hloads : runtime.jsonLoads (line signed) = some (.obj signed)) :
      Run runtime name final held.signed held.tip
  | rotate {store final : Store} {signedRows : List Row} {tip : String} {process : ℕ}
      {writer : Writer} {carry : List Row} {now : ℕ → String} {retired : Journal}
      {out : List Row} {newTip : String} (hrun : Run runtime name store signedRows tip)
      (h : rotateHeld runtime process writer name carry now store = (.ok (retired, out, newTip), final))
      (hloads : ∀ row ∈ out, runtime.jsonLoads (line row) = some (.obj row)) :
      Run runtime name final out newTip
  | quiet {store final : Store} {signedRows : List Row} {tip : String}
      (hrun : Run runtime name store signedRows tip) (h : Quiet runtime name store final) :
      Run runtime name final signedRows tip

/-- The journal that a fresh process reads. -/
def freshJournal (runtime : Runtime) (name : String) (store : Store) (signedRows : List Row)
    (tip : String) : Journal :=
  ⟨store.stamp name, store.pins, signedRows, tip, runtime.retainedSize (.arr (signedRows.map .obj))⟩

theorem state_of_fresh {runtime : Runtime} {name : String} {store : Store} (hname : filename name = .ok name)
    (hfresh : store.caches process = []) :
    state runtime process name store =
      match reload runtime store name name none with
      | .error error => (.error error, store)
      | .ok journal => (.ok journal, store.setCache process (remember [] name journal)) := by
  rw [state, hname, hfresh]
  rfl

namespace Holds

variable {runtime : Runtime} {name : String} {signedRows : List Row} {tip : String}
  {store final : Store}

theorem start (hfile : store.files name = none) (hcaches : ∀ process, store.caches process = [])
    (hpinned : store.signing.Pinned runtime) : Holds runtime name [] "" store := by
  have hstamp : store.stamp name = none := by rw [Store.stamp, hfile]; rfl
  have hempty : ∀ process (journal : Journal), (name, journal) ∉ store.caches process := by
    intro process journal
    rw [hcaches process]
    exact List.not_mem_nil
  refine ⟨?_, rfl, ?_, Nat.zero_le _, Nat.zero_le _, ?_, ?_, ?_, hpinned⟩
  · rw [Store.content, hfile]
    rfl
  · exact fun row hrow ↦ absurd hrow List.not_mem_nil
  · exact fun process journal hmem ↦ absurd hmem (hempty process journal)
  · exact fun stamp hcurrent ↦ absurd (hstamp.symm.trans hcurrent) (by simp)
  · exact fun process journal stamp hmem ↦ absurd hmem (hempty process journal)

variable {any : String}

section

variable (h : Holds runtime name signedRows tip store)
include h

theorem state_any {journal : Journal}
    (hstate : FrontierProtocol.state runtime process any store = (.ok journal, final)) :
    Holds runtime name signedRows tip final := by
  rcases eq_or_ne any name with rfl | hne
  · exact (h.state hstate).1
  · exact h.state_other hne hstate

theorem raised
    (hraised : final = store ∨ ∃ journal loaded,
      FrontierProtocol.state runtime process any store = (.ok journal, loaded) ∧ Keyed runtime loaded final) :
    Holds runtime name signedRows tip final := by
  rcases hraised with rfl | ⟨journal, loaded, hstate, hkeyed⟩
  · exact h
  · exact (h.state_any hstate).keyed hkeyed

theorem quiet
    (hquiet : Quiet runtime name store final) : Holds runtime name signedRows tip final := by
  cases hquiet with
  | @state process any outcome hstate =>
    cases outcome with
    | error error => exact state_eq_error hstate ▸ h
    | ok journal => exact h.state_any hstate
  | appendRaised hraised => exact h.raised (appendHeld_eq_error hraised)
  | rotateRaised hraised => exact h.raised (rotateHeld_eq_error hraised)
  | @appendOther process writer other record now result hother happend =>
    obtain ⟨journal, loaded, keys, hstate, hkeyed, -, -, -, -, -, rfl⟩ := appendHeld_eq_ok happend
    refine (((h.state_any hstate).keyed hkeyed).write_other hother _).setCache fun entry hentry ↦ ?_
    rcases mem_remember hentry with hold | hnew
    · exact Or.inl hold
    · exact absurd (Prod.mk.inj hnew).1.symm hother
  | @rotateOther process writer other carry now result hother hrotate =>
    obtain ⟨loaded, keys, hstate, -, hloop, rfl⟩ := rotateHeld_eq_ok hrotate
    have hkeyed := (signRows_eq_ok hloop).1
    refine (((h.state_any hstate).keyed hkeyed).write_other hother _).setCache fun entry hentry ↦ ?_
    exact Or.inl (mem_pop.mp hentry).1
  | restart hrestart =>
    subst hrestart
    exact h.setCache fun entry hentry ↦ absurd hentry List.not_mem_nil
  | configure hconfigure => exact h.keyed (keyed_configure h.pinned hconfigure)

omit h in
theorem of_run (hed : runtime.Ed25519Correct) (hrun : Run runtime name store signedRows tip) :
    Holds runtime name signedRows tip store := by
  induction hrun with
  | start hfile hcaches hpinned => exact start hfile hcaches hpinned
  | append hrun happend hloads ih => exact ih.append hed happend hloads
  | rotate hrun hrotate hloads ih => exact ih.rotate hed hrotate hloads
  | quiet hrun hquiet ih => exact ih.quiet hquiet

theorem state_fresh (hname : filename name = .ok name)
    (hfresh : store.caches process = []) (hsizes : ∀ row ∈ signedRows, (dumps (.obj row)).length ≠ maxBytes) :
    FrontierProtocol.state runtime process name store =
      (.ok (freshJournal runtime name store signedRows tip), store.setCache process
        (remember [] name (freshJournal runtime name store signedRows tip))) := by
  have hrows := h.rows_content
  rw [if_pos hsizes] at hrows
  have hreload : reload runtime store name name none =
      .ok (freshJournal runtime name store signedRows tip) :=
    reload_eq_ok_iff.mpr ⟨hrows, h.chain, rfl, rfl, rfl, rfl⟩
  rw [state_of_fresh hname hfresh, hreload]

theorem length_ne_of_fresh (hfresh : store.caches process = [])
    {journal : Journal} (hstate : FrontierProtocol.state runtime process name store = (.ok journal, final)) :
    ∀ row ∈ signedRows, (dumps (.obj row)).length ≠ maxBytes := by
  obtain ⟨-, hload, -⟩ := state_eq_ok hstate
  cases hload with
  | hit hcached => simp [hfresh] at hcached
  | reloaded hchanged hreload =>
    have hrows := h.rows_content
    rw [(reload_eq_ok_iff.mp hreload).1] at hrows
    by_contra hfull
    rw [if_neg hfull] at hrows
    cases hrows

end

end Holds

/-- A fresh process reads back what was held exactly when no row takes `MAX_BYTES` bytes. -/
theorem reload_held_iff {runtime : Runtime} (hed : runtime.Ed25519Correct) {name : String}
    (hname : filename name = .ok name) {store : Store} {signedRows : List Row} {tip : String}
    (hrun : Run runtime name store signedRows tip) {process : ℕ} (hfresh : store.caches process = []) :
    (∃ journal final, state runtime process name store = (.ok journal, final) ∧
        journal.signed = signedRows ∧ journal.tip = tip) ↔
      ∀ row ∈ signedRows, (dumps (.obj row)).length ≠ maxBytes := by
  have hholds := Holds.of_run hed hrun
  constructor
  · rintro ⟨journal, final, hstate, -⟩
    exact hholds.length_ne_of_fresh hfresh hstate
  · intro hsizes
    exact ⟨_, _, hholds.state_fresh hname hfresh hsizes, rfl, rfl⟩

/-! ## Rows up to the limit

One append of a record that holds a text of `n` letters, for every `n`. The digests are stand-ins
of the usual length, so the sizes are those of the source. -/

namespace Sample

def digestText : String := "0000000000000000000000000000000000000000000000000000000000000000"

def letters (n : ℕ) : String := String.ofList (List.replicate n 'a')

def now : String := "2026-01-01T00:00:00+00:00"

def record (text : String) : Row :=
  [("data", .str text), ("sequence", .int 0), ("previous", .str ""), ("recorded_at", .str now)]

def row (text : String) : Row :=
  [("record", .obj (record text)), ("principal", .str "local"),
    ("organization", .str "local-store"), ("authority", .str "operator"),
    ("digest", .str digestText), ("signature", .str digestText)]

def runtime (text : String) : Runtime where
  sha256 _ := digestText
  hmacSha256 _ _ := digestText
  ed25519PublicBytes key := key
  ed25519Sign _ _ := digestText
  ed25519Verify _ _ _ := true
  jsonLoads bytes := if bytes = line (row text) then some (.obj (row text)) else none
  retainedSize _ := 0

def writer : Writer := ⟨"local", .operator, List.replicate 32 0, length_zeros⟩

def store : Store where
  clock := 0
  files _ := none
  signing := ⟨.hmacSha256, none, none, none⟩
  pins := 0
  caches _ := []

theorem length_quote_letters (n : ℕ) : (Json.quote (letters n)).length = n + 2 := by
  have hflat : ((letters n).toList.flatMap Json.escape).length = n := by
    rw [letters, String.toList_ofList]
    induction n with
    | zero => rfl
    | succ n ih =>
      rw [List.replicate_succ, List.flatMap_cons, List.length_append, ih,
        show (Json.escape 'a').length = 1 from rfl, Nat.add_comm]
  rw [Json.quote, List.length_cons, List.length_append, hflat, List.length_singleton]

theorem length_dumps_row (n : ℕ) :
    (dumps (.obj (row (letters n)))).length = (dumps (.obj (row ""))).length + n := by
  simp only [dumps, row, record, Json.encode, Json.encodeFields, List.length_append,
    List.length_cons, length_quote_letters, show (Json.quote "").length = 2 from rfl]
  omega

theorem length_letters (n : ℕ) : (letters n).length = n := by
  rw [letters, String.length_ofList, List.length_replicate]

theorem minimumBytes_row (n : ℕ) :
    minimumBytes (.obj (row (letters n))) = minimumBytes (.obj (row "")) + n := by
  simp only [minimumBytes, row, record, Json.total, Json.totalFields, scalarBytes, keyBytes,
    List.map_cons, List.sum_cons, length_letters, show "".length = 0 from rfl]
  omega

variable {n : ℕ}

theorem wirable_row (h : (dumps (.obj (row (letters n)))).length ≤ maxBytes) :
    Wirable (.obj (row (letters n))) := by
  refine wirable_of_dumps ⟨?_, ?_, ?_⟩ ?_ h
  · have hnodes : nodes (.obj (row (letters n))) = 11 := rfl
    rw [hnodes]
    decide
  · have hbase : minimumBytes (.obj (row "")) ≤ (dumps (.obj (row ""))).length := by
      decide +kernel
    rw [length_dumps_row] at h
    rw [minimumBytes_row]
    omega
  · simp [Json.Everywhere, Json.EverywhereFields, row, record, NodeAdmissible]
  · simp [convertible, Json.total, Json.totalFields, row, record]

theorem wirable_record (h : (dumps (.obj (row (letters n)))).length ≤ maxBytes) :
    Wirable (.obj (record (letters n))) := by
  refine wirable_of_dumps ⟨?_, ?_, ?_⟩ ?_ (le_trans ?_ h)
  · have hnodes : nodes (.obj (record (letters n))) = 5 := rfl
    rw [hnodes]
    decide
  · refine le_trans ?_ (wirable_row h).bounded.minimumBytes_le
    simp only [minimumBytes, row, Json.total, Json.totalFields]
    omega
  · simp [Json.Everywhere, Json.EverywhereFields, record, NodeAdmissible]
  · simp [convertible, Json.total, Json.totalFields, record]
  · simp only [dumps, row, Json.encode, Json.encodeFields, List.length_append, List.length_cons]
    omega

theorem filename_events : filename "events.jsonl" = .ok "events.jsonl" := rfl

theorem state_store (text : String) (process : ℕ) :
    state (runtime text) process "events.jsonl" store =
      (.ok ⟨none, 0, [], "", 0⟩, store.setCache process [("events.jsonl", ⟨none, 0, [], "", 0⟩)]) := by
  have hreload : reload (runtime text) store "events.jsonl" "events.jsonl" none =
      .ok ⟨none, 0, [], "", 0⟩ := by
    refine reload_eq_ok_iff.mpr ⟨?_, rfl, rfl, rfl, rfl, rfl⟩
    simp [rows, rowsLoop, Store.content, store]
  rw [state_of_fresh filename_events rfl, hreload]
  rfl

theorem run_append (h : (dumps (.obj (row (letters n)))).length ≤ maxBytes) :
    ∃ final tip, Run (runtime (letters n)) "events.jsonl" final [row (letters n)] tip ∧ final.caches 1 = [] := by
  have hadmitted : Admitted (runtime (letters n)) (row (letters n)) 0 digestText := by
    refine ⟨wirable_row h, h, ?_, digest_eq_ok_iff.mpr ⟨wirable_row h, rfl⟩⟩
    rw [length_line, Nat.zero_add]
    have hmax : maxBytes + 1 ≤ 64 * maxBytes := by decide
    omega
  have hsign : sign (runtime (letters n)) writer
      (sequenced [("data", .str (letters n))] 0 "" now)
      (store.setCache 0 [("events.jsonl", ⟨none, 0, [], "", 0⟩)]) =
      (.ok (row (letters n)),
        (store.setCache 0 [("events.jsonl", ⟨none, 0, [], "", 0⟩)]).prepareKey writer) :=
    sign_of (wirable_record h) rfl
  have happend := appendHeld_of filename_events (state_store (letters n) 0) (by decide) hsign
    hadmitted
  have hstart : Run (runtime (letters n)) "events.jsonl" store [] "" :=
    .start rfl (fun _ ↦ rfl) fun bytes hbytes ↦ by cases hbytes
  exact ⟨_, _, hstart.append happend (if_pos rfl), rfl⟩

end Sample

/-- A journal of one short row reads back. -/
theorem reload_held_short_row :
    ∃ store tip journal final, Run (Sample.runtime (Sample.letters 5)) "events.jsonl" store
        [Sample.row (Sample.letters 5)] tip ∧
      state (Sample.runtime (Sample.letters 5)) 1 "events.jsonl" store = (.ok journal, final) ∧
      journal.signed = [Sample.row (Sample.letters 5)] ∧ journal.tip = tip := by
  have hlength : (dumps (.obj (Sample.row (Sample.letters 5)))).length < maxBytes := by
    decide +kernel
  obtain ⟨store, tip, hrun, hfresh⟩ := Sample.run_append hlength.le
  have hback := (reload_held_iff (fun _ _ ↦ rfl) Sample.filename_events hrun hfresh).mpr
    fun row hrow ↦ List.mem_singleton.mp hrow ▸ hlength.ne
  obtain ⟨journal, final, hstate, hsigned, htip⟩ := hback
  exact ⟨store, tip, journal, final, hrun, hstate, hsigned, htip⟩

/-- A journal of one row of exactly `MAX_BYTES` bytes is written and does not read back. -/
theorem reload_rejects_full_row :
    ∃ n store tip, Run (Sample.runtime (Sample.letters n)) "events.jsonl" store [Sample.row (Sample.letters n)] tip ∧
      store.caches 1 = [] ∧ ¬∃ journal final, state (Sample.runtime (Sample.letters n)) 1 "events.jsonl" store =
        (.ok journal, final) := by
  have hbase : (dumps (.obj (Sample.row ""))).length ≤ maxBytes := by decide +kernel
  have hfull : (dumps (.obj (Sample.row (Sample.letters
      (maxBytes - (dumps (.obj (Sample.row ""))).length))))).length = maxBytes := by
    rw [Sample.length_dumps_row]
    omega
  obtain ⟨store, tip, hrun, hfresh⟩ := Sample.run_append hfull.le
  refine ⟨_, store, tip, hrun, hfresh, ?_⟩
  rintro ⟨journal, final, hstate⟩
  have hholds := Holds.of_run (fun _ _ ↦ rfl) hrun
  exact hholds.length_ne_of_fresh hfresh hstate _ List.mem_cons_self hfull

end UniMem.FrontierProtocol
