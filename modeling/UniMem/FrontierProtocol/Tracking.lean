import UniMem.FrontierProtocol.History

/-!
# What every clean step keeps

The chains that the history records are linked by counted links. A cache entry is a chain of rows that were once
signed, and a current one holds what the file or the history says.
-/

namespace UniMem.FrontierProtocol

open Library Library.RotatingLog MemoryAuthority

variable {runtime : Runtime} {name : String} {past : List Event} {store final : Store}

/-- What the history tells of the chains of a journal. -/
structure Recorded (runtime : Runtime) (name : String) (past : List Event) : Prop where
  succession : Succession (RetiredBy past name) canonCount ((chainsOf name past).all.map canonRows)
  linked : ∀ chain ∈ (chainsOf name past).all, ChainLinked runtime chain
  signed : ∀ chain ∈ (chainsOf name past).all, ∀ row ∈ chain, row ∈ signedRows past

theorem signedRows_append_singleton (past : List Event) (event : Event) :
    signedRows (past ++ [event]) = signedRows past ++ event.rows := by
  rw [signedRows, List.flatMap_append, List.flatMap_singleton, signedRows]

variable {row : Row}

theorem mem_signedRows_append (h : row ∈ signedRows past) (event : Event) :
    row ∈ signedRows (past ++ [event]) := by
  rw [signedRows_append_singleton]
  exact List.mem_append_left _ h

theorem Once.append {row : Row} (h : Once past row) (event : Event) :
    Once (past ++ [event]) row := by
  obtain ⟨other, hother, heq⟩ := h
  exact ⟨other, mem_signedRows_append hother event, heq⟩

theorem RetiredBy.append {link : Json} {old : List Json} (h : RetiredBy past name link old)
    (event : Event) : RetiredBy (past ++ [event]) name link old := by
  obtain ⟨retired, out, hmem, hrest⟩ := h
  exact ⟨retired, out, List.mem_append_left _ hmem, hrest⟩

namespace Recorded

theorem start (runtime : Runtime) (name : String) : Recorded runtime name [] := by
  refine ⟨.first ?_, ?_, ?_⟩
  · simp [canonRows, chainsOf]
  · intro chain hchain
    rw [List.mem_singleton.mp hchain]
    trivial
  · intro chain hchain row hrow
    rw [List.mem_singleton.mp hchain] at hrow
    exact absurd hrow List.not_mem_nil

theorem other (h : Recorded runtime name past) {event : Event}
    (hevent : chainsOf name (past ++ [event]) = chainsOf name past) :
    Recorded runtime name (past ++ [event]) := by
  refine ⟨?_, ?_, ?_⟩
  · rw [hevent]
    exact h.succession.mono fun link old hretired ↦ hretired.append event
  · rw [hevent]
    exact h.linked
  · rw [hevent]
    exact fun chain hchain row hrow ↦ mem_signedRows_append (h.signed chain hchain row hrow) event

theorem chainsOf_appended (name : String) (past : List Event) (row : Row) :
    chainsOf name (past ++ [.appended name row]) =
      ⟨(chainsOf name past).current ++ [row], (chainsOf name past).older⟩ := by
  rw [chainsOf_append_singleton, Chains.after, if_pos rfl]

theorem chainsOf_rotated (name : String) (past : List Event) (retired out : List Row) :
    chainsOf name (past ++ [.rotated name retired out]) = ⟨out, (chainsOf name past).all⟩ := by
  rw [chainsOf_append_singleton, Chains.after, if_pos rfl]

theorem appended (h : Recorded runtime name past)
    (hat : At (canon row) (canonRows (chainsOf name past).current).length)
    (hnames : Names (canon row) (chainTip runtime (chainsOf name past).current))
    (hlink : (chainsOf name past).current = [] → linkCount row = none) :
    Recorded runtime name (past ++ [.appended name row]) := by
  have hsuccession := h.succession
  rw [Chains.all, List.map_cons] at hsuccession
  refine ⟨?_, ?_, ?_⟩
  · rw [chainsOf_appended, Chains.all, List.map_cons, canonRows_append]
    refine (hsuccession.mono fun link old hretired ↦ hretired.append _).concat fun hnil ↦ ?_
    rw [canonCount_canon]
    exact hlink (List.map_eq_nil_iff.mp hnil)
  · rw [chainsOf_appended, Chains.all, List.forall_mem_cons]
    refine ⟨?_, fun chain hchain ↦ h.linked chain (List.mem_cons_of_mem _ hchain)⟩
    rw [ChainLinked, canonRows_append]
    refine linked_concat.mpr ⟨h.linked _ List.mem_cons_self, ?_, hnames⟩
    rw [Nat.zero_add]
    exact hat
  · rw [chainsOf_appended, Chains.all, List.forall_mem_cons, signedRows_append_singleton]
    refine ⟨fun other hother ↦ ?_, fun chain hchain other hother ↦ ?_⟩
    · rcases List.mem_append.mp hother with hold | hnew
      · exact List.mem_append_left _ (h.signed _ List.mem_cons_self other hold)
      · exact List.mem_append_right _ hnew
    · exact List.mem_append_left _ (h.signed chain (List.mem_cons_of_mem _ hchain) other hother)

theorem rotated (h : Recorded runtime name past) {retired rest : List Row} {link : Row}
    (hretired : canonRows retired = canonRows (chainsOf name past).current)
    (hlinked : ChainLinked runtime (link :: rest)) (hcount : linkCount link = some (retiredCount retired)) :
    Recorded runtime name (past ++ [.rotated name retired (link :: rest)]) := by
  have hown : retiredCount retired = (canonRows (chainsOf name past).current).length +
      ownCount canonCount (canonRows (chainsOf name past).current) := by
    rw [← hretired]
    cases retired with
    | nil => rfl
    | cons row rows =>
      rw [canonRows, List.map_cons, ownCount_cons, canonCount_canon, List.length_cons, List.length_map]
      rfl
  refine ⟨?_, ?_, ?_⟩
  · rw [chainsOf_rotated, Chains.all, List.map_cons]
    refine .next (h.succession.mono fun link old hold ↦ hold.append _) ?_ ?_
    · exact ⟨retired, link :: rest, by simp, hretired, rfl⟩
    · rw [canonCount_canon, hcount, hown]
  · rw [chainsOf_rotated, Chains.all, List.forall_mem_cons]
    exact ⟨hlinked, h.linked⟩
  · rw [chainsOf_rotated, Chains.all, List.forall_mem_cons, signedRows_append_singleton]
    exact ⟨fun row hrow ↦ List.mem_append_right _ hrow,
      fun chain hchain row hrow ↦ List.mem_append_left _ (h.signed chain hchain row hrow)⟩

end Recorded

/-- A journal that some process has verified. -/
structure Verified (runtime : Runtime) (past : List Event) (journal : Journal) : Prop where
  linked : ChainLinked runtime journal.signed
  tip_eq : journal.tip = chainTip runtime journal.signed
  once : ∀ row ∈ journal.signed, Once past row
  absent : journal.stamp = none → journal.signed = []

/-- An entry whose stamp is current holds what the file parses to, or the history's chain. -/
def CurrentIn (runtime : Runtime) (name : String) (past : List Event) (store : Store)
    (journal : Journal) : Prop :=
  journal.stamp = store.stamp name →
    rows runtime (store.content name) = .ok journal.signed ∨
      canonRows journal.signed = canonRows (chainsOf name past).current

/-- What the history and the store tell of the caches. -/
structure Tracked (runtime : Runtime) (name : String) (past : List Event) (store : Store) :
    Prop where
  recorded : Recorded runtime name past
  verified : ∀ process journal, (name, journal) ∈ store.caches process →
    Verified runtime past journal
  current : ∀ process journal, (name, journal) ∈ store.caches process →
    CurrentIn runtime name past store journal
  version_lt : ∀ stamp, store.stamp name = some stamp → stamp.version < store.clock
  cached_lt : ∀ process journal stamp, (name, journal) ∈ store.caches process →
    journal.stamp = some stamp → stamp.version < store.clock

namespace Tracked

theorem start (hfiles : ∀ path, store.files path = none)
    (hcaches : ∀ process, store.caches process = []) : Tracked runtime name [] store := by
  have hempty : ∀ process (journal : Journal), (name, journal) ∉ store.caches process := by
    intro process journal
    rw [hcaches process]
    exact List.not_mem_nil
  refine ⟨Recorded.start runtime name, ?_, ?_, ?_, ?_⟩
  · exact fun process journal hmem ↦ absurd hmem (hempty process journal)
  · exact fun process journal hmem ↦ absurd hmem (hempty process journal)
  · intro stamp hstamp
    rw [Store.stamp, hfiles] at hstamp
    cases hstamp
  · exact fun process journal stamp hmem ↦ absurd hmem (hempty process journal)

theorem rows_nil (runtime : Runtime) : rows runtime [] = .ok [] := by rw [rows, rowsLoop]

variable {process : ℕ} {path previous now : String} {journal : Journal}

theorem setCache (h : Tracked runtime name past store) {cache : Cache}
    (hcache : ∀ journal, (name, journal) ∈ cache → (name, journal) ∈ store.caches process ∨
      (Verified runtime past journal ∧ CurrentIn runtime name past store journal ∧
        journal.stamp = store.stamp name)) :
    Tracked runtime name past (store.setCache process cache) := by
  have hmem : ∀ other journal, (name, journal) ∈ (store.setCache process cache).caches other →
      (∃ owner, (name, journal) ∈ store.caches owner) ∨ (Verified runtime past journal ∧
        CurrentIn runtime name past store journal ∧ journal.stamp = store.stamp name) := by
    intro other journal hentry
    rcases mem_setCache hentry with hold | hnew
    · exact Or.inl ⟨other, hold⟩
    · exact (hcache journal hnew).imp (fun hold ↦ ⟨process, hold⟩) id
  refine ⟨h.recorded, ?_, ?_, h.version_lt, ?_⟩
  · intro other journal hentry
    rcases hmem other journal hentry with ⟨owner, hold⟩ | hnew
    · exact h.verified owner journal hold
    · exact hnew.1
  · intro other journal hentry
    rcases hmem other journal hentry with ⟨owner, hold⟩ | hnew
    · exact h.current owner journal hold
    · exact hnew.2.1
  · intro other journal stamp hentry hstamp
    rcases hmem other journal hentry with ⟨owner, hold⟩ | hnew
    · exact h.cached_lt owner journal stamp hold hstamp
    · exact h.version_lt stamp (hnew.2.2.symm.trans hstamp)

theorem verified_of_reload (hideal : Ideal runtime past store) {cached : Option Journal}
    (hreload : reload runtime store path path cached = .ok journal) :
    Verified runtime past journal ∧ journal.stamp = store.stamp path ∧
      rows runtime (store.content path) = .ok journal.signed := by
  obtain ⟨hrows, hchain, -, hstamp, -⟩ := reload_eq_ok_iff.mp hreload
  obtain ⟨hlinked, htip, hverify⟩ := linked_of_verifyChain hchain
  refine ⟨⟨hlinked, htip, ?_, ?_⟩, hstamp, hrows⟩
  · exact fun row hrow ↦ hideal.unforgeable path _ hrows row hrow (hverify row hrow)
  · intro habsent
    rw [hstamp, Store.stamp, Option.map_eq_none_iff] at habsent
    rw [Store.content, habsent, Option.elim_none, rows_nil] at hrows
    exact (Except.ok.inj hrows).symm

section

variable (h : Tracked runtime name past store)
include h

theorem loaded (hideal : Ideal runtime past store)
    (hload : Loaded runtime process name store journal) :
    Verified runtime past journal ∧ CurrentIn runtime name past store journal ∧ journal.stamp = store.stamp name := by
  cases hload with
  | hit hcached hstamp hpins =>
    have hmem := mem_of_lookup hcached
    exact ⟨h.verified process journal hmem, h.current process journal hmem, hstamp⟩
  | reloaded hchanged hreload =>
    obtain ⟨hverified, hstamp, hrows⟩ := verified_of_reload hideal hreload
    exact ⟨hverified, fun _ ↦ Or.inl hrows, hstamp⟩

theorem state (hideal : Ideal runtime past store)
    {process : ℕ} {path : String} {journal : Journal}
    (hstate : state runtime process path store = (.ok journal, final)) :
    Tracked runtime name past final := by
  obtain ⟨-, hload, cache, rfl, hcache⟩ := state_eq_ok hstate
  refine h.setCache fun entry hentry ↦ ?_
  rcases hcache _ hentry with hold | hnew
  · exact Or.inl hold
  · obtain ⟨rfl, rfl⟩ := Prod.mk.inj hnew
    exact Or.inr (h.loaded hideal hload)

theorem loaded_undisturbed (hideal : Ideal runtime past store)
    (hundisturbed : Undisturbed runtime name past store) (hload : Loaded runtime process name store journal) :
    canonRows journal.signed = canonRows (chainsOf name past).current := by
  obtain ⟨-, hcurrent, hstamp⟩ := h.loaded hideal hload
  obtain ⟨found, hfound, hcanon⟩ := hundisturbed
  rcases hcurrent hstamp with hrows | hchain
  · rw [hfound] at hrows
    rw [← Except.ok.inj hrows, hcanon]
  · exact hchain

theorem frame (hfiles : final.files = store.files)
    (hcaches : final.caches = store.caches) (hclock : store.clock ≤ final.clock) :
    Tracked runtime name past final := by
  have hstamp : final.stamp name = store.stamp name := by rw [Store.stamp, hfiles, Store.stamp]
  have hcontent : final.content name = store.content name := by
    rw [Store.content, hfiles, Store.content]
  refine ⟨h.recorded, ?_, ?_, ?_, ?_⟩
  · rw [hcaches]
    exact h.verified
  · rw [hcaches]
    intro process journal hmem
    rw [CurrentIn, hstamp, hcontent]
    exact h.current process journal hmem
  · rw [hstamp]
    exact fun stamp hcurrent ↦ (h.version_lt stamp hcurrent).trans_le hclock
  · rw [hcaches]
    exact fun process journal stamp hmem hcurrent ↦
      (h.cached_lt process journal stamp hmem hcurrent).trans_le hclock

theorem keyed (hkeyed : Keyed runtime store final) :
    Tracked runtime name past final := h.frame hkeyed.files hkeyed.caches hkeyed.clock_le

omit h in
theorem Verified.append {journal : Journal} (h : Verified runtime past journal) (event : Event) :
    Verified runtime (past ++ [event]) journal :=
  ⟨h.linked, h.tip_eq, fun row hrow ↦ (h.once row hrow).append event, h.absent⟩

theorem event {event : Event}
    (hevent : chainsOf name (past ++ [event]) = chainsOf name past) :
    Tracked runtime name (past ++ [event]) store := by
  refine ⟨h.recorded.other hevent, ?_, ?_, h.version_lt, h.cached_lt⟩
  · exact fun process journal hmem ↦ Verified.append (h.verified process journal hmem) event
  · intro process journal hmem
    rw [CurrentIn, hevent]
    exact h.current process journal hmem

theorem edit_other (hpath : path ≠ name) (content : Option Bytes) :
    Tracked runtime name past (store.edit path content) := by
  have hfiles : (store.edit path content).files name = store.files name :=
    Function.update_of_ne hpath.symm _ _
  have hstamp : (store.edit path content).stamp name = store.stamp name := by
    rw [Store.stamp, hfiles, Store.stamp]
  have hcontent : (store.edit path content).content name = store.content name := by
    rw [Store.content, hfiles, Store.content]
  refine ⟨h.recorded, h.verified, ?_, ?_, ?_⟩
  · intro process journal hmem
    rw [CurrentIn, hstamp, hcontent]
    exact h.current process journal hmem
  · rw [hstamp]
    exact fun stamp hcurrent ↦ Nat.lt_succ_of_lt (h.version_lt stamp hcurrent)
  · exact fun process journal stamp hmem hcurrent ↦
      Nat.lt_succ_of_lt (h.cached_lt process journal stamp hmem hcurrent)

theorem edit_self {later : List Event} (hrecorded : Recorded runtime name later)
    (hverified : ∀ journal, Verified runtime past journal → Verified runtime later journal)
    (content : Option Bytes) : Tracked runtime name later (store.edit name content) := by
  have hfile : (store.edit name content).files name =
      content.map fun bytes ↦ ⟨bytes, store.clock⟩ := Function.update_self _ _ _
  refine ⟨hrecorded, fun process journal hmem ↦ hverified _ (h.verified process journal hmem),
    ?_, ?_, ?_⟩
  · intro process journal hmem hstamp
    cases content with
    | none =>
      -- Only an entry made without a file has the stamp of a missing file.
      rw [Store.stamp, hfile] at hstamp
      rw [Store.content, hfile, (h.verified process journal hmem).absent hstamp]
      exact Or.inl (rows_nil runtime)
    | some bytes =>
      rw [Store.stamp, hfile] at hstamp
      exact absurd (h.cached_lt process journal _ hmem hstamp) (lt_irrefl _)
  · intro stamp hstamp
    rw [Store.stamp, hfile] at hstamp
    cases content with
    | none => cases hstamp
    | some bytes =>
      obtain rfl := Option.some.inj hstamp
      exact Nat.lt_succ_self _
  · exact fun process journal stamp hmem hcurrent ↦
      Nat.lt_succ_of_lt (h.cached_lt process journal stamp hmem hcurrent)

omit h in
theorem at_of_record {record : Row} {index : ℕ} (h : recordOf row = .obj (sequenced record index previous now)) :
    At (canon row) index ∧ Names (canon row) previous := by
  rw [At, Names, recordField_canon, recordField_canon, equalsInt_map_sortKeys, isText_map_sortKeys, h]
  simp [Json.get?, lookup_sequenced_sequence, lookup_sequenced_previous, equalsInt, Origin.isText]

theorem append (hideal : Ideal runtime past store)
    {process : ℕ} {writer : Writer} {record signed : Row} {now : String} {held : Journal}
    (happend : appendHeld runtime process writer name record now store = (.ok (signed, held), final))
    (hundisturbed : Undisturbed runtime name past store)
    (hlink : (chainsOf name past).current = [] → linkCount signed = none) :
    Tracked runtime name (past ++ [.appended name signed]) final := by
  obtain ⟨journal, loaded, keys, hstate, hkeyed, -, hbind, hadmitted, hsigned, hstamp, rfl⟩ :=
    appendHeld_eq_ok happend
  obtain ⟨-, hload, -⟩ := state_eq_ok hstate
  have hkeys := (h.state hideal hstate).keyed hkeyed
  have hverified := (h.loaded hideal hload).1
  have hcanon := h.loaded_undisturbed hideal hundisturbed hload
  obtain ⟨hat, hnames⟩ := at_of_record (recordOf_bindWith hbind)
  rw [hverified.tip_eq, chainTip] at hnames
  have hlength : (canonRows journal.signed).length = journal.signed.length := List.length_map _
  have hrecorded : Recorded runtime name (past ++ [.appended name signed]) := by
    refine h.recorded.appended ?_ ?_ hlink
    · rw [← hcanon, hlength]
      exact hat
    · rw [chainTip, ← hcanon]
      exact hnames
  have hwritten := hkeys.edit_self hrecorded (fun _ hold ↦ Verified.append hold _)
    (some (keys.content name ++ line signed))
  refine hwritten.setCache fun other hother ↦ ?_
  rcases mem_remember hother with hold | hnew
  · exact Or.inl hold
  · obtain ⟨-, rfl⟩ := Prod.mk.inj hnew
    refine Or.inr ⟨⟨?_, ?_, ?_, ?_⟩, fun _ ↦ Or.inr ?_, hstamp⟩
    · rw [hsigned, ChainLinked, canonRows_append]
      refine linked_concat.mpr ⟨hverified.linked, ?_, ?_⟩
      · rw [Nat.zero_add, hlength]
        exact hat
      · exact hnames
    · rw [hsigned, chainTip, canonRows_append]
      exact (canonDigest_of_digest hadmitted.digest_eq).symm.trans (tipOf_concat _ _ _).symm
    · intro row hrow
      rw [hsigned, List.mem_append, List.mem_singleton] at hrow
      rcases hrow with hold | rfl
      · exact (hverified.once row hold).append _
      · refine ⟨row, ?_, rfl⟩
        rw [signedRows_append_singleton]
        exact List.mem_append_right _ (List.mem_singleton_self row)
    · intro hnone
      rw [hstamp, Store.stamp, Option.map_eq_none_iff] at hnone
      exact absurd (hnone.symm.trans (Function.update_self _ _ _)) (by simp)
    · rw [hsigned, Recorded.chainsOf_appended, canonRows_append, canonRows_append, hcanon]

omit h in
theorem linked_of_signedRows {now : ℕ → String} {index : ℕ} {tip : String} {total : ℕ} {records out : List Row}
    (h : SignedRows runtime now index previous total records out tip) :
    Linked At Names (canonDigest runtime) index previous (canonRows out) := by
  induction h with
  | nil index previous total => trivial
  | cons hrecord hadmitted hrest ih =>
    obtain ⟨hat, hnames⟩ := at_of_record hrecord
    refine ⟨hat, hnames, ?_⟩
    rw [canonDigest_of_digest hadmitted.digest_eq]
    exact ih

omit h in
theorem linkCount_of_record {index : ℕ}
    (h : recordOf row = .obj (sequenced (linkRecord journal) index previous now)) :
    linkCount row = some (retiredCount journal.signed) := by
  have hkind := lookup_sequenced_of_ne (linkRecord journal) index previous now "kind" (by decide)
    (by decide) (by decide)
  have hcount := lookup_sequenced_of_ne (linkRecord journal) index previous now "previous_count"
    (by decide) (by decide) (by decide)
  rw [linkCount, h]
  simp only [hkind, hcount]
  rfl

theorem rotate (hideal : Ideal runtime past store)
    {process : ℕ} {writer : Writer} {carry out : List Row} {now : ℕ → String} {retired : Journal} {tip : String}
    (hrotate : rotateHeld runtime process writer name carry now store = (.ok (retired, out, tip), final))
    (hundisturbed : Undisturbed runtime name past store) :
    Tracked runtime name (past ++ [.rotated name retired.signed out]) final := by
  obtain ⟨loaded, keys, hstate, -, hloop, rfl⟩ := rotateHeld_eq_ok hrotate
  obtain ⟨-, hload, -⟩ := state_eq_ok hstate
  obtain ⟨hkeyed, hout⟩ := signRows_eq_ok hloop
  have hkeys := (h.state hideal hstate).keyed hkeyed
  have hcanon := h.loaded_undisturbed hideal hundisturbed hload
  have hlinked := linked_of_signedRows hout
  cases hout with
  | @cons _ _ _ middle _ _ link _ rest hrecord hadmitted hrest =>
    have hrecorded := h.recorded.rotated hcanon hlinked (linkCount_of_record hrecord)
    have hwritten := hkeys.edit_self hrecorded (fun _ hold ↦ Verified.append hold _)
      (some ((link :: rest).flatMap line))
    exact hwritten.setCache fun other hother ↦ Or.inl (mem_pop.mp hother).1

theorem raised (hideal : Ideal runtime past store)
    (hraised : final = store ∨ ∃ journal loaded,
      FrontierProtocol.state runtime process path store = (.ok journal, loaded) ∧ Keyed runtime loaded final) :
    Tracked runtime name past final := by
  rcases hraised with rfl | ⟨journal, loaded, hstate, hkeyed⟩
  · exact h
  · exact (h.state hideal hstate).keyed hkeyed

theorem step (hideal : Ideal runtime past store)
    {events : List Event} (hstep : Step runtime store final events)
    (hclean : ∀ event ∈ events, Clean runtime name past store event) :
    Tracked runtime name (past ++ events) final := by
  cases hstep with
  | @append process writer path record signed now held happend =>
    rcases eq_or_ne path name with rfl | hne
    · obtain ⟨hundisturbed, hlink⟩ := hclean _ (List.mem_singleton_self _) rfl
      exact h.append hideal happend hundisturbed hlink
    · obtain ⟨journal, loaded, keys, hstate, hkeyed, -, -, -, -, -, rfl⟩ := appendHeld_eq_ok happend
      have hkeys := (h.state hideal hstate).keyed hkeyed
      have hevent : chainsOf name (past ++ [.appended path signed]) = chainsOf name past := by
        rw [chainsOf_append_singleton, Chains.after, if_neg hne]
      have hwritten := (hkeys.event hevent).edit_other hne (some (keys.content path ++ line signed))
      refine hwritten.setCache fun other hother ↦ ?_
      rcases mem_remember hother with hold | hnew
      · exact Or.inl hold
      · exact absurd (Prod.mk.inj hnew).1.symm hne
  | @rotate process writer path carry out now retired tip hrotate =>
    rcases eq_or_ne path name with rfl | hne
    · exact h.rotate hideal hrotate (hclean _ (List.mem_singleton_self _) rfl)
    · obtain ⟨loaded, keys, hstate, -, hloop, rfl⟩ := rotateHeld_eq_ok hrotate
      have hkeys := (h.state hideal hstate).keyed (signRows_eq_ok hloop).1
      have hevent : chainsOf name (past ++ [.rotated path retired.signed out]) =
          chainsOf name past := by
        rw [chainsOf_append_singleton, Chains.after, if_neg hne]
      have hwritten := (hkeys.event hevent).edit_other hne (some (out.flatMap line))
      exact hwritten.setCache fun other hother ↦ Or.inl (mem_pop.mp hother).1
  | sign hsign =>
    refine (h.keyed (sign_eq_ok hsign).2.1).event ?_
    rw [chainsOf_append_singleton]
    rfl
  | @state process path outcome hstate =>
    rw [List.append_nil]
    cases outcome with
    | error error => exact state_eq_error hstate ▸ h
    | ok journal => exact h.state hideal hstate
  | appendRaised hraised =>
    rw [List.append_nil]
    exact h.raised hideal (appendHeld_eq_error hraised)
  | rotateRaised hraised =>
    rw [List.append_nil]
    exact h.raised hideal (rotateHeld_eq_error hraised)
  | restart hrestart =>
    rw [List.append_nil, hrestart]
    exact h.setCache fun entry hentry ↦ absurd hentry List.not_mem_nil
  | @edit path content hedit =>
    rw [List.append_nil, hedit]
    rcases eq_or_ne path name with rfl | hne
    · exact h.edit_self h.recorded (fun _ hold ↦ hold) content
    · exact h.edit_other hne content
  | rekey hrekey =>
    rw [List.append_nil, hrekey]
    exact h.frame rfl rfl (Nat.le_succ _)

end

theorem of_history (hrun : History runtime name past store) : Tracked runtime name past store := by
  induction hrun with
  | start hfiles hcaches => exact start hfiles hcaches
  | step hrun hideal hstep hclean ih => exact ih.step hideal hstep hclean

end Tracked

end UniMem.FrontierProtocol
