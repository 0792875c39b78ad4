import UniMem.Library.Transitions
import UniMem.ChangeStream.Staging

/-!
# Runs of streamed writes

A run of writes and recoveries, each of which may crash after any of its effects. A transition that is committed
once has its events in the journal once, however often they are published.
-/

namespace UniMem.ChangeStream

open Library FrontierProtocol MemoryAuthority

variable {env : Environment} {nameSpace : Namespace}

/-! ## Actions -/

/-- What `recover` does to the store. -/
def pendingEffects (env : Environment) (nameSpace : Namespace) (state : State) : List Effect :=
  match readIntent env nameSpace state.file, stateHash env.runtime state.canonical with
  | .ok (some intent), .ok hash =>
    if hash = intent.after then publishEffects intent ++ [.unlink]
    else if hash = intent.before then [.unlink] else []
  | _, _ => []

/-- What `complete` does to the store. -/
def completeEffects (env : Environment) (nameSpace : Namespace) (file : File) : List Effect :=
  match readIntent env nameSpace (some file) with
  | .ok (some intent) => publishEffects intent ++ [.unlink]
  | _ => []

/-- What a write does once `recover` has returned. A lesson's snapshot is only checked for its size. -/
def writeEffects (env : Environment) (nameSpace : Namespace) (state : State) (after : Snapshot) :
    Py (List Effect) := do
  (if nameSpace = .facts then (fun _ ↦ ()) <$> checkSize after else .ok ())
  let staged ← stage env nameSpace state.file state.canonical after
  return match staged with
    | none => [.commit after]
    | some file => .stage file :: .commit after :: completeEffects env nameSpace file

/-- A recovery or a write that stops after some effects. -/
inductive Action where
  | recover (steps : ℕ)
  | write (after : Snapshot) (steps : ℕ)

/-- `recover_pending`, and the body that the three kinds of writes share. -/
def act (env : Environment) (nameSpace : Namespace) (state : State) : Action → Py State
  | .recover steps => do
    let _ ← checkSize state.canonical
    return (attempt (apply env) state ((pendingEffects env nameSpace state).take steps)).1
  | .write after steps => do
    let _ ← checkSize state.canonical
    match recover env nameSpace state.canonical state with
    | (.error _, recovered) => return recovered
    | (.ok (), recovered) =>
      match writeEffects env nameSpace recovered after with
      | .error _ => return recovered
      | .ok effects => return (attempt (apply env) recovered (effects.take steps)).1

/-- The state that a write aims at. -/
def Action.after : Action → Option Snapshot
  | .recover _ => none
  | .write after _ => some after

/-- A write that commits a change commits a transition that is not in the history. -/
def Fresh (state : State) : Action → Prop
  | .recover _ => True
  | .write after steps =>
    steps < 2 ∨ after = state.canonical ∨ (state.canonical, after) ∉ state.history

/-! ## The events of a transition -/

/-- The events of a committed transition. -/
def transactionEvents (env : Environment) (nameSpace : Namespace) (transition : Snapshot × Snapshot) :
    List Event :=
  match intentOf env.runtime nameSpace transition.1 transition.2 with
  | .ok intent => eventsOf env.runtime intent
  | .error _ => []

variable {identity : String} {old new : Option Entry} {before after before' after' : Snapshot} {intent' : Intent}
  {next : State} {outcome : Py Unit}

theorem changeOf_eq_none_iff :
    changeOf nameSpace identity old new = none ↔ old = new := by
  cases new with
  | none => cases old <;> simp [changeOf]
  | some new => simp [changeOf]

theorem identity_of_changeOf {change : Change} (h : changeOf nameSpace identity old new = some change) :
    change.identity = identity := by
  cases new with
  | none =>
    cases old with
    | none => cases h
    | some old =>
      cases h
      rfl
  | some new =>
    simp only [changeOf] at h
    split_ifs at h
    cases h
    rfl

theorem mem_identities_of_get {state : Snapshot} {entry : Entry} (h : state.get identity = some entry) :
    identity ∈ state.identities :=
  List.mem_map.mpr ⟨_, mem_of_lookup h, rfl⟩

theorem map_identity_changesOf (before after : Snapshot) :
    (changesOf nameSpace before after).map Change.identity =
      (sortBy id (before.identities ++ after.identities).dedup).filter fun identity ↦
        before.get identity ≠ after.get identity := by
  rw [changesOf, List.map_filterMap, ← List.filterMap_eq_filter]
  apply List.filterMap_congr
  intro identity _
  cases hchange : changeOf nameSpace identity (before.get identity) (after.get identity) with
  | none => simp [Option.guard, changeOf_eq_none_iff.mp hchange]
  | some change =>
    have hne : before.get identity ≠ after.get identity := by
      intro heq
      rw [changeOf_eq_none_iff.mpr heq] at hchange
      cases hchange
    simp [Option.guard, hne, identity_of_changeOf hchange]

theorem changesOf_spec (before after : Snapshot) :
    ((changesOf nameSpace before after).map Change.identity).Nodup ∧
      ∀ identity, identity ∈ (changesOf nameSpace before after).map Change.identity ↔
        before.get identity ≠ after.get identity := by
  rw [map_identity_changesOf]
  constructor
  · exact ((sortBy_perm id _).nodup_iff.mpr (List.nodup_dedup _)).filter _
  · intro identity
    rw [List.mem_filter, mem_sortBy, List.mem_dedup, List.mem_append, decide_eq_true_eq]
    refine and_iff_right_of_imp fun hne ↦ ?_
    cases hbefore : before.get identity with
    | some entry => exact Or.inl (mem_identities_of_get hbefore)
    | none =>
      cases hafter : after.get identity with
      | some entry => exact Or.inr (mem_identities_of_get hafter)
      | none => exact absurd (hbefore.trans hafter.symm) hne

theorem snapshot_ext {first second : Snapshot} (h : ∀ identity, first.get identity = second.get identity) :
    first = second := by
  obtain ⟨entries, hsorted⟩ := first
  obtain ⟨others, hothers⟩ := second
  have hnodup : ∀ {list : List (String × Entry)}, (list.map Prod.fst).Pairwise (· < ·) →
      (list.map Prod.fst).Nodup := fun hlist ↦ hlist.imp fun hlt ↦ ne_of_lt hlt
  have hmem : ∀ entry, entry ∈ entries ↔ entry ∈ others := by
    rintro ⟨identity, entry⟩
    rw [← lookup_eq_some_iff_mem (hnodup hsorted), ← lookup_eq_some_iff_mem (hnodup hothers)]
    exact iff_of_eq (congrArg (· = some entry) (h identity))
  have hperm : entries.Perm others := (List.perm_ext_iff_of_nodup (hnodup hsorted).of_map
    (hnodup hothers).of_map).mpr hmem
  have heq : entries = others := by
    refine hperm.eq_of_pairwise ?_ (List.pairwise_map.mp hsorted) (List.pairwise_map.mp hothers)
    intro a b _ _ hlt hgt
    exact absurd hlt (lt_asymm hgt)
  subst heq
  rfl

theorem changesOf_eq_nil_iff :
    changesOf nameSpace before after = [] ↔ before = after := by
  constructor
  · intro h
    apply snapshot_ext
    intro identity
    by_contra hne
    have hmem := ((@changesOf_spec nameSpace before after).2 identity).mpr hne
    rw [h] at hmem
    cases hmem
  · rintro rfl
    apply List.map_eq_nil_iff.mp
    rw [map_identity_changesOf]
    simp

theorem map_target_eventsOf {runtime : Runtime} (intent : Intent) :
    (eventsOf runtime intent).map Event.target = intent.changes.map Change.identity := by
  calc
    _ = (intent.changes.zipIdx.map Prod.fst).map Change.identity := by
      rw [eventsOf, List.map_map, List.map_map]
      rfl
    _ = _ := by rw [List.zipIdx_map_fst]

theorem transactionEvents_self (state : Snapshot) :
    transactionEvents env nameSpace (state, state) = [] := by
  unfold transactionEvents
  cases hintent : intentOf env.runtime nameSpace state state with
  | error error => rfl
  | ok intent =>
    have hchanges := (intentOf_spec hintent).2.1
    rw [changesOf_eq_nil_iff.mpr rfl] at hchanges
    simp [eventsOf, hchanges]

theorem transactionEvents_of_intentOf {intent : Intent}
    (h : intentOf env.runtime nameSpace before after = .ok intent) :
    transactionEvents env nameSpace (before, after) = eventsOf env.runtime intent := by
  rw [transactionEvents, h]

/-! ## Digests that do not collide -/

/-- The values whose digests tell the events of some snapshots apart. -/
inductive Hashed (runtime : Runtime) (nameSpace : Namespace) (snapshots : List Snapshot) : Json → Prop where
  | intent {before after : Snapshot} {intent : Intent} (hbefore : before ∈ snapshots)
      (hafter : after ∈ snapshots) (hintent : intentOf runtime nameSpace before after = .ok intent) :
      Hashed runtime nameSpace snapshots (.obj intent.body)
  | event {before after : Snapshot} {intent : Intent} {index : ℕ} (hbefore : before ∈ snapshots)
      (hafter : after ∈ snapshots) (hintent : intentOf runtime nameSpace before after = .ok intent)
      (hindex : index < intent.changes.length) :
      Hashed runtime nameSpace snapshots (eventName intent.transaction index)

/-- `state_hash` and `digest` do not collide on some snapshots and their transitions. -/
structure CollisionFree (runtime : Runtime) (nameSpace : Namespace) (snapshots : List Snapshot) :
    Prop where
  state : ∀ first ∈ snapshots, ∀ second ∈ snapshots, ∀ hash,
    stateHash runtime first = .ok hash → stateHash runtime second = .ok hash → first = second
  value : ∀ first second, Hashed runtime nameSpace snapshots first →
    Hashed runtime nameSpace snapshots second →
    runtime.sha256 (canonicalBytes first) = runtime.sha256 (canonicalBytes second) →
    first.Same second

theorem text_of_same {first second : List (String × Json)} (h : (Json.obj first).Same (.obj second))
    {key text other : String} (hfirst : first.lookup key = some (.str text))
    (hsecond : second.lookup key = some (.str other)) : text = other := by
  have hget : ((Json.obj first).get? key).map Json.sortKeys =
      ((Json.obj second).get? key).map Json.sortKeys := by
    rw [← Json.get?_sortKeys, ← Json.get?_sortKeys, h]
  simpa [Json.get?, hfirst, hsecond, Json.sortKeys] using hget

variable {snapshots : List Snapshot}

theorem transition_of_transaction {runtime : Runtime} (hfree : CollisionFree runtime nameSpace snapshots)
    (hbefore : before ∈ snapshots) (hafter : after ∈ snapshots) (hbefore' : before' ∈ snapshots)
    (hafter' : after' ∈ snapshots) {intent : Intent}
    (hintent : intentOf runtime nameSpace before after = .ok intent)
    (hintent' : intentOf runtime nameSpace before' after' = .ok intent')
    (h : intent.transaction = intent'.transaction) : (before, after) = (before', after') := by
  have hdigest := (digest_eq_ok_iff.mp (intentOf_spec hintent).2.2).2
  have hdigest' := (digest_eq_ok_iff.mp (intentOf_spec hintent').2.2).2
  have hsame := hfree.value _ _ (.intent hbefore hafter hintent) (.intent hbefore' hafter' hintent')
    (hdigest.trans (h.trans hdigest'.symm))
  obtain ⟨hhash, hhash'⟩ := stateHash_ok_of_intentOf hintent
  obtain ⟨hother, hother'⟩ := stateHash_ok_of_intentOf hintent'
  have hfirst : intent.before = intent'.before :=
    @text_of_same intent.body intent'.body hsame "before" _ _ rfl rfl
  have hsecond : intent.after = intent'.after :=
    @text_of_same intent.body intent'.body hsame "after" _ _ rfl rfl
  rw [hfree.state _ hbefore _ hbefore' _ hhash (hfirst ▸ hother),
    hfree.state _ hafter _ hafter' _ hhash' (hsecond ▸ hother')]

theorem eventId_injective {runtime : Runtime} (hfree : CollisionFree runtime nameSpace snapshots)
    (hbefore : before ∈ snapshots) (hafter : after ∈ snapshots) (hbefore' : before' ∈ snapshots)
    (hafter' : after' ∈ snapshots) {intent : Intent}
    (hintent : intentOf runtime nameSpace before after = .ok intent)
    (hintent' : intentOf runtime nameSpace before' after' = .ok intent') {index index' : ℕ}
    (hindex : index < intent.changes.length) (hindex' : index' < intent'.changes.length)
    (h : eventId runtime intent.transaction index = eventId runtime intent'.transaction index') :
    (before, after) = (before', after') ∧ index = index' := by
  have hsame := hfree.value _ _ (.event hbefore hafter hintent hindex)
    (.event hbefore' hafter' hintent' hindex') h
  simp only [eventName, Json.Same, Json.sortKeys, Json.sortKeysItems, Json.arr.injEq, List.cons.injEq,
    Json.str.injEq, Json.int.injEq, and_true] at hsame
  exact ⟨transition_of_transaction hfree hbefore hafter hbefore' hafter' hintent hintent' hsame.1,
    by exact_mod_cast hsame.2⟩

theorem map_eventId_eventsOf {runtime : Runtime} (intent : Intent) :
    (eventsOf runtime intent).map Event.eventId =
      (List.range intent.changes.length).map (eventId runtime intent.transaction) := by
  calc
    _ = (intent.changes.zipIdx.map Prod.snd).map (eventId runtime intent.transaction) := by
      rw [eventsOf, List.map_map, List.map_map]
      rfl
    _ = _ := by rw [List.zipIdx_map_snd, List.range_eq_range']

theorem nodup_eventIds (hfree : CollisionFree env.runtime nameSpace snapshots) {history : List (Snapshot × Snapshot)}
    (hknown : ∀ transition ∈ history, transition.1 ∈ snapshots ∧ transition.2 ∈ snapshots)
    (hdistinct : (history.filter fun transition ↦ transition.1 ≠ transition.2).Nodup) :
    ((history.flatMap (transactionEvents env nameSpace)).map Event.eventId).Nodup := by
  rw [List.map_flatMap, List.nodup_flatMap]
  -- An identity names a transition that its transaction was computed for, and a place in it.
  have hmem : ∀ transition ∈ history, ∀ identity,
      identity ∈ (transactionEvents env nameSpace transition).map Event.eventId →
      ∃ intent, intentOf env.runtime nameSpace transition.1 transition.2 = .ok intent ∧
        ∃ index < intent.changes.length, eventId env.runtime intent.transaction index = identity := by
    intro transition _ identity hidentity
    unfold transactionEvents at hidentity
    cases hintent : intentOf env.runtime nameSpace transition.1 transition.2 with
    | error error =>
      rw [hintent] at hidentity
      cases hidentity
    | ok intent =>
      simp only [hintent] at hidentity
      rw [map_eventId_eventsOf, List.mem_map] at hidentity
      obtain ⟨index, hindex, rfl⟩ := hidentity
      exact ⟨intent, rfl, index, List.mem_range.mp hindex, rfl⟩
  constructor
  · intro transition htransition
    obtain ⟨hbefore, hafter⟩ := hknown transition htransition
    unfold transactionEvents
    cases hintent : intentOf env.runtime nameSpace transition.1 transition.2 with
    | error error => exact List.nodup_nil
    | ok intent =>
      dsimp only
      rw [map_eventId_eventsOf]
      refine List.Nodup.map_on ?_ List.nodup_range
      intro index hindex index' hindex' heq
      exact (eventId_injective hfree hbefore hafter hbefore hafter hintent hintent
        (List.mem_range.mp hindex) (List.mem_range.mp hindex') heq).2
  · have hpairs := List.pairwise_filter.mp hdistinct
    refine hpairs.imp_of_mem ?_
    intro transition other htransition hother hne identity hidentity hidentity'
    obtain ⟨hbefore, hafter⟩ := hknown transition htransition
    obtain ⟨hbefore', hafter'⟩ := hknown other hother
    obtain ⟨intent, hintent, index, hindex, rfl⟩ := hmem transition htransition identity hidentity
    obtain ⟨intent', hintent', index', hindex', heq⟩ := hmem other hother _ hidentity'
    obtain ⟨hsame, -⟩ := eventId_injective hfree hbefore hafter hbefore' hafter' hintent hintent'
      hindex hindex' heq.symm
    have hchanged : transition.1 ≠ transition.2 := by
      intro hself
      have hchanges := (intentOf_spec hintent).2.1
      rw [changesOf_eq_nil_iff.mpr hself] at hchanges
      rw [hchanges] at hindex
      exact Nat.not_lt_zero _ hindex
    obtain rfl : transition = other := hsame
    exact hne (by simpa using hchanged) (by simpa using hchanged) rfl

/-! ## Publishing again -/

/-- The state after the publication of an event. -/
def published (env : Environment) (state : State) : Effect → State
  | .publish transaction index change =>
    state.deliver (eventOf change (eventId env.runtime transaction index))
  | _ => state

theorem execute_publications (transaction : String) (items : List (Change × ℕ)) (state : State) :
    execute (published env) state (publications transaction items) = { state with
        journal := (eventsFor env.runtime transaction items).foldl (deliver Event.eventId)
          state.journal } := by
  induction items generalizing state with
  | nil => rfl
  | cons item items ih => exact ih (state.deliver _)

theorem attempt_publishEffects (hdigests : DigestsAreIdentifiers env.runtime) {intent : Intent}
    (hintent : intentOf env.runtime nameSpace before after = .ok intent) (hcount : intent.changes.length ≤ 2048)
    (state : State) (steps : ℕ) :
    ∃ done, (attempt (apply env) state ((publishEffects intent).take steps)).1 = { state with
          journal := ((eventsOf env.runtime intent).take done).foldl (deliver Event.eventId)
            state.journal } ∧
      ((attempt (apply env) state ((publishEffects intent).take steps)).2 = none →
        intent.changes.length ≤ steps → intent.changes.length ≤ done) := by
  have htransaction : text intent.transaction "identifier" 512 = .ok intent.transaction := by
    rw [← (digest_eq_ok_iff.mp (intentOf_spec hintent).2.2).2]
    exact hdigests _
  have hperform : ∀ state, ∀ effect ∈ (publishEffects intent).take steps, ∀ next,
      apply env state effect = .ok next → next = published env state effect := by
    intro state effect heffect next hnext
    obtain ⟨item, hitem, rfl⟩ := List.mem_map.mp (List.mem_of_mem_take heffect)
    have hindex : item.2 ≤ 2048 := by
      have hlt := (List.mem_zipIdx hitem).2.1
      omega
    exact ((apply_publish_eq_ok_iff hdigests htransaction hindex).mp hnext).2.2
  obtain ⟨turns, hturns, hstate, hnone⟩ := exists_attempt hperform state
  refine ⟨min turns steps, ?_, ?_⟩
  · have htake : ((publishEffects intent).take steps).take turns =
        publications intent.transaction (intent.changes.zipIdx.take (min turns steps)) := by
      rw [List.take_take, publishEffects, publications, List.map_take]
    rw [hstate, interrupt, htake, execute_publications, eventsFor, List.map_take]
    rfl
  · intro hall hsteps
    have hlength : (publishEffects intent).length = intent.changes.length := by
      simp [publishEffects]
    rw [hnone hall, List.length_take, hlength]
    omega

theorem attempt_publishAgain (hdigests : DigestsAreIdentifiers env.runtime) {intent : Intent}
    (hintent : intentOf env.runtime nameSpace before after = .ok intent) (hcount : intent.changes.length ≤ 2048)
    {state : State} {log : List Event} {left : ℕ}
    (hjournal : state.journal = log ++ (eventsOf env.runtime intent).take left)
    (hnodup : ((log ++ eventsOf env.runtime intent).map Event.eventId).Nodup) (steps : ℕ) :
    ∃ done, (attempt (apply env) state ((publishEffects intent).take steps)).1 =
        { state with journal := log ++ (eventsOf env.runtime intent).take done } ∧
      ((attempt (apply env) state ((publishEffects intent).take steps)).2 = none →
        intent.changes.length ≤ steps → intent.changes.length ≤ done) := by
  obtain ⟨done, hstate, hnone⟩ := attempt_publishEffects hdigests hintent hcount state steps
  refine ⟨max left done, ?_, fun hall hsteps ↦ (hnone hall hsteps).trans (le_max_right _ _)⟩
  rw [hstate, hjournal]
  exact congrArg (fun journal ↦ { state with journal }) (foldl_deliver_take hnodup left done)

/-! ## The invariant of a run -/

/-- The pending intent and the journal beside the transitions that are committed. -/
inductive Outbox (env : Environment) (nameSpace : Namespace) (snapshots : List Snapshot)
    (state : State) : Prop where
  /-- Everything is published. -/
  | clear (hfile : state.file = none)
      (hjournal : state.journal = state.history.flatMap (transactionEvents env nameSpace))
  /-- The transition of the intent is not committed. -/
  | staged (after : Snapshot) (file : File) (hafter : after ∈ snapshots)
      (hfile : state.file = some file)
      (hstage : stage env nameSpace none state.canonical after = .ok (some file))
      (hjournal : state.journal = state.history.flatMap (transactionEvents env nameSpace))
  /-- The transition of the intent is the last one, and some of its events are published. -/
  | committed (earlier : List (Snapshot × Snapshot)) (before : Snapshot) (file : File) (left : ℕ)
      (hhistory : state.history = earlier ++ [(before, state.canonical)])
      (hfile : state.file = some file)
      (hstage : stage env nameSpace none before state.canonical = .ok (some file))
      (hjournal : state.journal = earlier.flatMap (transactionEvents env nameSpace) ++
        (eventsOf env.runtime file.intent).take left)

/-- What holds in every state that is reached from a snapshot. -/
structure Consistent (env : Environment) (nameSpace : Namespace) (snapshots : List Snapshot)
    (start : Snapshot) (state : State) : Prop where
  linked : Linked Prod.fst Prod.snd start state.history state.canonical
  current : state.canonical ∈ snapshots
  known : ∀ transition ∈ state.history, transition.1 ∈ snapshots ∧ transition.2 ∈ snapshots
  distinct : (state.history.filter fun transition ↦ transition.1 ≠ transition.2).Nodup
  computed : ∀ transition ∈ state.history, transition.1 ≠ transition.2 →
    ∃ intent, intentOf env.runtime nameSpace transition.1 transition.2 = .ok intent
  outbox : Outbox env nameSpace snapshots state

variable {start : Snapshot} {state : State}

theorem Consistent.of_outbox (h : Consistent env nameSpace snapshots start state)
    (hcanonical : next.canonical = state.canonical) (hhistory : next.history = state.history)
    (houtbox : Outbox env nameSpace snapshots next) : Consistent env nameSpace snapshots start next where
  linked := by rw [hcanonical, hhistory]; exact h.linked
  current := by rw [hcanonical]; exact h.current
  known := by rw [hhistory]; exact h.known
  distinct := by rw [hhistory]; exact h.distinct
  computed := by rw [hhistory]; exact h.computed
  outbox := houtbox

theorem ne_of_stage {pending : Option File} {file : File}
    (h : stage env nameSpace pending before after = .ok (some file)) : before ≠ after :=
  fun heq ↦ (stage_spec h).1 (changesOf_eq_nil_iff.mpr heq)

theorem flatMap_committed {earlier : List (Snapshot × Snapshot)} {file : File}
    (hstage : stage env nameSpace none before after = .ok (some file)) :
    (earlier ++ [(before, after)]).flatMap (transactionEvents env nameSpace) =
      earlier.flatMap (transactionEvents env nameSpace) ++ eventsOf env.runtime file.intent := by
  rw [List.flatMap_append, List.flatMap_singleton, transactionEvents_of_intentOf (stage_spec hstage).2.1]

theorem Consistent.pending (hdigests : DigestsAreIdentifiers env.runtime)
    (hfree : CollisionFree env.runtime nameSpace snapshots) (h : Consistent env nameSpace snapshots start state)
    (steps : ℕ) (hnext : (attempt (apply env) state ((pendingEffects env nameSpace state).take steps)).1 = next) :
    Consistent env nameSpace snapshots start next ∧ next.canonical = state.canonical ∧
      next.history = state.history := by
  suffices hsuffices : next.canonical = state.canonical ∧ next.history = state.history ∧
      Outbox env nameSpace snapshots next from
    ⟨h.of_outbox hsuffices.1 hsuffices.2.1 hsuffices.2.2, hsuffices.1, hsuffices.2.1⟩
  have hquiet : state.canonical = state.canonical ∧ state.history = state.history ∧
      Outbox env nameSpace snapshots state := ⟨rfl, rfl, h.outbox⟩
  subst hnext
  unfold pendingEffects
  cases hread : readIntent env nameSpace state.file with
  | error error => simpa using hquiet
  | ok found =>
    cases found with
    | none => simpa using hquiet
    | some intent =>
      cases hhash : stateHash env.runtime state.canonical with
      | error error => simpa using hquiet
      | ok hash =>
        dsimp only
        obtain ⟨⟨file, hfile, rfl⟩, hcount⟩ := readIntent_spec hread
        cases h.outbox with
        | clear hnone =>
          rw [hfile] at hnone
          cases hnone
        | staged after file' hafter hfile' hstage hjournal =>
          obtain rfl : file = file' := Option.some.inj (hfile.symm.trans hfile')
          obtain ⟨hbefore, hother⟩ := stateHash_ok_of_intentOf (stage_spec hstage).2.1
          have hsame : hash = file.intent.before := Except.ok.inj (hhash.symm.trans hbefore)
          have hne : hash ≠ file.intent.after := by
            intro heq
            exact ne_of_stage hstage (hfree.state _ h.current _ hafter _ hhash (heq ▸ hother))
          rw [if_neg hne, if_pos hsame]
          cases steps with
          | zero => simpa using hquiet
          | succ steps =>
            have hdropped : attempt (apply env) state (List.take (steps + 1) [Effect.unlink]) =
                ({ state with file := none }, none) := by
              rw [List.take_succ_cons, List.take_nil]
              rfl
            rw [hdropped]
            exact ⟨rfl, rfl, .clear rfl hjournal⟩
        | committed earlier before file' left hhistory hfile' hstage hjournal =>
          obtain rfl : file = file' := Option.some.inj (hfile.symm.trans hfile')
          obtain ⟨-, hintent, -⟩ := stage_spec hstage
          obtain ⟨-, hother⟩ := stateHash_ok_of_intentOf hintent
          have hnodup := nodup_eventIds hfree h.known h.distinct
          rw [hhistory, flatMap_committed hstage] at hnodup
          rw [if_pos (Except.ok.inj (hhash.symm.trans hother))]
          have hlength : (publishEffects file.intent).length = file.intent.changes.length := by
            simp [publishEffects]
          by_cases hsteps : steps ≤ file.intent.changes.length
          · obtain ⟨done, hstate, -⟩ :=
              attempt_publishAgain hdigests hintent hcount hjournal hnodup steps
            rw [List.take_append_of_le_length (hlength ▸ hsteps), hstate]
            exact ⟨rfl, rfl, .committed earlier before file done hhistory hfile hstage rfl⟩
          · obtain ⟨done, hstate, hdone⟩ :=
              attempt_publishAgain hdigests hintent hcount hjournal hnodup file.intent.changes.length
            rw [List.take_of_length_le hlength.le] at hstate hdone
            have hall : (publishEffects file.intent ++ [Effect.unlink]).length ≤ steps := by
              rw [List.length_append, List.length_singleton, hlength]
              omega
            rw [List.take_of_length_le hall, attempt_unlink]
            cases hplan : attempt (apply env) state (publishEffects file.intent) with
            | mk final raised =>
              rw [hplan] at hstate hdone
              obtain rfl : final = _ := hstate
              cases raised with
              | some error =>
                exact ⟨rfl, rfl, .committed earlier before file done hhistory hfile hstage rfl⟩
              | none =>
                refine ⟨rfl, rfl, .clear rfl ?_⟩
                have hlast : (eventsOf env.runtime file.intent).length ≤ done := by
                  have hevents : (eventsOf env.runtime file.intent).length =
                      file.intent.changes.length := by simp [eventsOf]
                  rw [hevents]
                  exact hdone rfl le_rfl
                dsimp only
                rw [hhistory, flatMap_committed hstage, List.take_of_length_le hlast]

theorem recover_spec {current : Snapshot} (hcurrent : state.canonical = current)
    (h : recover env nameSpace current state = (outcome, next)) :
    (attempt (apply env) state (pendingEffects env nameSpace state)).1 = next ∧
      (outcome = .ok () → next.file = none) := by
  subst hcurrent
  unfold recover at h
  unfold pendingEffects
  cases hread : readIntent env nameSpace state.file with
  | error error =>
    rw [hread] at h
    cases h
    exact ⟨rfl, fun h ↦ by cases h⟩
  | ok found =>
    rw [hread] at h
    cases found with
    | none =>
      cases h
      refine ⟨rfl, fun _ ↦ ?_⟩
      cases hfile : next.file with
      | none => rfl
      | some file =>
        rw [hfile] at hread
        simp [readIntent, Py.bind_eq_ok_iff] at hread
    | some intent =>
      dsimp only at h
      cases hhash : stateHash env.runtime state.canonical with
      | error error =>
        rw [hhash] at h
        cases h
        exact ⟨rfl, fun h ↦ by cases h⟩
      | ok hash =>
        rw [hhash] at h
        dsimp only at h ⊢
        split_ifs at h ⊢ with hafter hbefore
        · unfold complete at h
          rw [hread] at h
          dsimp only at h
          rw [attempt_unlink] at h ⊢
          cases hplan : attempt (apply env) state (publishEffects intent) with
          | mk final raised =>
            rw [hplan] at h
            cases raised with
            | none =>
              cases h
              exact ⟨rfl, fun _ ↦ rfl⟩
            | some error =>
              dsimp only at h ⊢
              split_ifs at h <;>
                cases h <;> exact ⟨rfl, fun h ↦ by cases h⟩
        · cases h
          exact ⟨rfl, fun _ ↦ rfl⟩
        · cases h
          exact ⟨rfl, fun h ↦ by cases h⟩

theorem Consistent.recover (hdigests : DigestsAreIdentifiers env.runtime)
    (hfree : CollisionFree env.runtime nameSpace snapshots) (h : Consistent env nameSpace snapshots start state)
    (hnext : ChangeStream.recover env nameSpace state.canonical state = (outcome, next)) :
    Consistent env nameSpace snapshots start next ∧ next.canonical = state.canonical ∧
      next.history = state.history := by
  have hstate := (recover_spec rfl hnext).1
  refine h.pending hdigests hfree (pendingEffects env nameSpace state).length ?_
  rw [List.take_length]
  exact hstate

theorem Consistent.commit_same (h : Consistent env nameSpace snapshots start state) (hfile : state.file = none) :
    Consistent env nameSpace snapshots start
      { state with history := state.history ++ [(state.canonical, state.canonical)] } where
  linked := linked_append.mpr ⟨_, h.linked, rfl, rfl⟩
  current := h.current
  known := by
    rw [List.forall_mem_append, List.forall_mem_singleton]
    exact ⟨h.known, h.current, h.current⟩
  distinct := by
    rw [List.filter_append]
    simpa using h.distinct
  computed := by
    rw [List.forall_mem_append, List.forall_mem_singleton]
    exact ⟨h.computed, fun hne ↦ absurd rfl hne⟩
  outbox := by
    refine .clear hfile ?_
    rw [List.flatMap_append, List.flatMap_singleton, transactionEvents_self, List.append_nil]
    cases h.outbox with
    | clear _ hjournal => exact hjournal
    | staged _ _ _ hsome => exact absurd (hfile.symm.trans hsome) (by simp)
    | committed _ _ _ _ _ hsome => exact absurd (hfile.symm.trans hsome) (by simp)

theorem Consistent.commit (h : Consistent env nameSpace snapshots start state) (hfile : state.file = none)
    {file : File} (hafter : after ∈ snapshots)
    (hstage : stage env nameSpace none state.canonical after = .ok (some file))
    (hfresh : (state.canonical, after) ∉ state.history) :
    Consistent env nameSpace snapshots start { state with
        file := some file
        canonical := after
        history := state.history ++ [(state.canonical, after)] } where
  linked := linked_append.mpr ⟨_, h.linked, rfl, rfl⟩
  current := hafter
  known := by
    rw [List.forall_mem_append, List.forall_mem_singleton]
    exact ⟨h.known, h.current, hafter⟩
  distinct := by
    rw [List.filter_append, List.nodup_append]
    refine ⟨h.distinct, (List.nodup_singleton _).filter _, ?_⟩
    intro transition htransition other hother
    rw [List.mem_singleton.mp (List.mem_of_mem_filter hother)]
    rintro rfl
    exact hfresh (List.mem_of_mem_filter htransition)
  computed := by
    rw [List.forall_mem_append, List.forall_mem_singleton]
    exact ⟨h.computed, fun _ ↦ ⟨_, (stage_spec hstage).2.1⟩⟩
  outbox := by
    refine .committed state.history state.canonical file 0 rfl rfl hstage ?_
    rw [List.take_zero, List.append_nil]
    cases h.outbox with
    | clear _ hjournal => exact hjournal
    | staged _ _ _ hsome => exact absurd (hfile.symm.trans hsome) (by simp)
    | committed _ _ _ _ _ hsome => exact absurd (hfile.symm.trans hsome) (by simp)

theorem completeEffects_eq {file : File} (hstage : stage env nameSpace none before after = .ok (some file))
    {state : State} (hfile : state.file = some file) (hcanonical : state.canonical = after) :
    completeEffects env nameSpace file = pendingEffects env nameSpace state := by
  have hafter := (stateHash_ok_of_intentOf (stage_spec hstage).2.1).2
  rw [completeEffects, pendingEffects, hfile, hcanonical, hafter]
  cases hread : readIntent env nameSpace (some file) with
  | error error => rfl
  | ok found =>
    cases found with
    | none => rfl
    | some intent =>
      obtain ⟨⟨other, hother, rfl⟩, -⟩ := readIntent_spec hread
      cases hother
      simp

theorem Consistent.write (hdigests : DigestsAreIdentifiers env.runtime)
    (hfree : CollisionFree env.runtime nameSpace snapshots) (h : Consistent env nameSpace snapshots start state)
    (hfile : state.file = none) (hafter : after ∈ snapshots) {steps : ℕ}
    (hfresh : Fresh state (.write after steps)) {effects : List Effect}
    (heffects : writeEffects env nameSpace state after = .ok effects) :
    Consistent env nameSpace snapshots start (attempt (apply env) state (effects.take steps)).1 := by
  obtain ⟨_, heffects⟩ := Py.of_rest heffects
  obtain ⟨staged, hstage, heffects⟩ := Py.of_bind heffects
  obtain rfl := Except.ok.inj heffects
  rw [hfile] at hstage
  cases staged with
  | none =>
    have hsame : state.canonical = after := by
      by_contra hne
      rw [stage, if_neg (fun hnil ↦ hne (changesOf_eq_nil_iff.mp hnil))] at hstage
      simp [Py.bind_eq_ok_iff] at hstage
    subst hsame
    cases steps with
    | zero => exact h
    | succ steps =>
      rw [List.take_succ_cons, List.take_nil]
      exact h.commit_same hfile
  | some file =>
    obtain _ | _ | steps := steps
    · exact h
    · have hjournal : state.journal = state.history.flatMap (transactionEvents env nameSpace) := by
        cases h.outbox with
        | clear _ hjournal => exact hjournal
        | staged _ _ _ hsome => exact absurd (hfile.symm.trans hsome) (by simp)
        | committed _ _ _ _ _ hsome => exact absurd (hfile.symm.trans hsome) (by simp)
      exact h.of_outbox rfl rfl (.staged after file hafter rfl hstage hjournal)
    · have hnew : (state.canonical, after) ∉ state.history := by
        obtain hshort | hsame | hnew := hfresh
        · omega
        · exact absurd hsame.symm (ne_of_stage hstage)
        · exact hnew
      have hcommitted := h.commit hfile hafter hstage hnew
      refine (hcommitted.pending hdigests hfree steps ?_).1
      rw [← completeEffects_eq hstage rfl rfl]
      rfl

theorem Consistent.act (hdigests : DigestsAreIdentifiers env.runtime)
    (hfree : CollisionFree env.runtime nameSpace snapshots) (h : Consistent env nameSpace snapshots start state)
    {action : Action} (hknown : ∀ after, action.after = some after → after ∈ snapshots)
    (hfresh : Fresh state action) (hnext : ChangeStream.act env nameSpace state action = .ok next) :
    Consistent env nameSpace snapshots start next := by
  cases action with
  | recover steps =>
    obtain ⟨_, hnext⟩ := Py.of_rest hnext
    obtain rfl := Except.ok.inj hnext
    exact (h.pending hdigests hfree steps rfl).1
  | write after steps =>
    obtain ⟨_, hnext⟩ := Py.of_rest hnext
    cases hrecover : ChangeStream.recover env nameSpace state.canonical state with
    | mk outcome recovered =>
      rw [hrecover] at hnext
      obtain ⟨hrecovered, hcanonical, hhistory⟩ := h.recover hdigests hfree hrecover
      cases outcome with
      | error error =>
        obtain rfl := Except.ok.inj hnext
        exact hrecovered
      | ok done =>
        dsimp only at hnext
        cases heffects : writeEffects env nameSpace recovered after with
        | error error =>
          rw [heffects] at hnext
          obtain rfl := Except.ok.inj hnext
          exact hrecovered
        | ok effects =>
          rw [heffects] at hnext
          obtain rfl := Except.ok.inj hnext
          have hfresh' : Fresh recovered (.write after steps) := by
            rw [Fresh, hcanonical, hhistory]
            exact hfresh
          exact hrecovered.write hdigests hfree ((recover_spec rfl hrecover).2 rfl) (hknown after rfl)
            hfresh' heffects

theorem Consistent.init (hfile : state.file = none) (hjournal : state.journal = [])
    (hhistory : state.history = []) (hcurrent : state.canonical ∈ snapshots) :
    Consistent env nameSpace snapshots state.canonical state where
  linked := by rw [hhistory]; rfl
  current := hcurrent
  known := by simp [hhistory]
  distinct := by simp [hhistory]
  computed := by simp [hhistory]
  outbox := .clear hfile (by simp [hhistory, hjournal])

theorem consistent_run (hdigests : DigestsAreIdentifiers env.runtime) {state : State}
    (hfile : state.file = none) (hjournal : state.journal = []) (hhistory : state.history = [])
    {actions : List Action}
    (hfree : CollisionFree env.runtime nameSpace (state.canonical :: actions.filterMap Action.after))
    (hfresh : Along (ChangeStream.act env nameSpace) Fresh state actions) :
    Consistent env nameSpace (state.canonical :: actions.filterMap Action.after) state.canonical
      (run (ChangeStream.act env nameSpace) state actions) := by
  have hstart : Consistent env nameSpace (state.canonical :: actions.filterMap Action.after)
      state.canonical state := Consistent.init hfile hjournal hhistory List.mem_cons_self
  have hknown : ∀ action ∈ actions, ∀ after, action.after = some after →
      after ∈ state.canonical :: actions.filterMap Action.after := fun action haction after hafter ↦
    List.mem_cons_of_mem _ (List.mem_filterMap.mpr ⟨action, haction, hafter⟩)
  have hstep : ∀ current action next,
      Consistent env nameSpace (state.canonical :: actions.filterMap Action.after) state.canonical
        current →
      Fresh current action ∧ (∀ after, action.after = some after →
        after ∈ state.canonical :: actions.filterMap Action.after) →
      ChangeStream.act env nameSpace current action = .ok next →
      Consistent env nameSpace (state.canonical :: actions.filterMap Action.after) state.canonical next :=
    fun current action next hcurrent hcondition hnext ↦
      hcurrent.act hdigests hfree hcondition.2 hcondition.1 hnext
  exact run_invariant_along hstep hstart (hfresh.and_of_forall hknown)

theorem Consistent.exists_recover (hed : env.runtime.Ed25519Correct)
    (hpinned : env.signing.algorithm = .ed25519 → env.signing.Pinned env.runtime)
    (hdigests : DigestsAreIdentifiers env.runtime) (hfree : CollisionFree env.runtime nameSpace snapshots)
    (h : Consistent env nameSpace snapshots start state)
    (hbounds : ∀ file, state.file = some file → file.intent.changes.length ≤ 2048 ∧
      (writeJson (.obj file.signed)).length ≤ maxBytes ∧
      (∀ change ∈ file.intent.changes, checkChange change = .ok ()) ∧
      Room env state.journal (eventsOf env.runtime file.intent)) :
    ∃ next, ChangeStream.recover env nameSpace state.canonical state = (.ok (), next) := by
  cases h.outbox with
  | clear hfile =>
    refine ⟨state, ?_⟩
    unfold ChangeStream.recover
    rw [hfile]
    rfl
  | staged after file hafter hfile hstage =>
    obtain ⟨hcount, hsize, -⟩ := hbounds file hfile
    obtain ⟨-, hintent, -⟩ := stage_spec hstage
    obtain ⟨hhash, hother⟩ := stateHash_ok_of_intentOf hintent
    rw [(intentOf_spec hintent).2.1] at hcount
    have hread := (readIntent_staged hed hpinned hstage).mpr ⟨hsize, hcount, rfl⟩
    rw [← hfile] at hread
    have hne : file.intent.before ≠ file.intent.after := by
      intro heq
      exact ne_of_stage hstage (hfree.state _ h.current _ hafter _ (heq ▸ hhash) hother)
    exact ⟨_, recover_before hread hhash hne⟩
  | committed earlier before file left hhistory hfile hstage =>
    obtain ⟨hcount, hsize, hchecks, hroom⟩ := hbounds file hfile
    obtain ⟨-, hintent, -⟩ := stage_spec hstage
    have hpublished := (publish_staged_iff hdigests hintent hcount).mpr ⟨hchecks, hroom⟩
    rw [(intentOf_spec hintent).2.1] at hcount
    have hread := (readIntent_staged hed hpinned hstage).mpr ⟨hsize, hcount, rfl⟩
    rw [← hfile] at hread
    obtain ⟨next, hnext, -⟩ := (recover_after_iff hread (stateHash_ok_of_intentOf hintent).2).mpr
      ((complete_iff hread).mpr hpublished)
    exact ⟨next, hnext⟩

theorem act_write (hed : env.runtime.Ed25519Correct)
    (hpinned : env.signing.algorithm = .ed25519 → env.signing.Pinned env.runtime)
    (hdigests : DigestsAreIdentifiers env.runtime) {state : State} (hfile : state.file = none)
    {after : Snapshot} {file : File} (hstage : stage env nameSpace none state.canonical after = .ok (some file))
    (hsize : state.canonical.entries.length ≤ 10000) (hsize' : after.entries.length ≤ 10000)
    (hcount : file.intent.changes.length ≤ 2048) (hbytes : (writeJson (.obj file.signed)).length ≤ maxBytes)
    (hchecks : ∀ change ∈ file.intent.changes, checkChange change = .ok ())
    (hroom : Room env state.journal (eventsOf env.runtime file.intent)) {steps : ℕ}
    (hsteps : file.intent.changes.length + 3 ≤ steps) :
    act env nameSpace state (.write after steps) = .ok
      { canonical := after
        file := none
        journal := (eventsOf env.runtime file.intent).foldl (deliver Event.eventId) state.journal
        history := state.history ++ [(state.canonical, after)] } := by
  obtain ⟨-, hintent, -⟩ := stage_spec hstage
  have hcheck : ∀ {found : Snapshot}, found.entries.length ≤ 10000 →
      checkSize found = .ok found.entries.length :=
    fun hfound ↦ count_of_mem _ (Int.natCast_nonneg _) (by exact_mod_cast hfound)
  have hrecover : recover env nameSpace state.canonical state = (.ok (), state) := by
    unfold recover
    rw [hfile]
    rfl
  have hlist := hcount
  rw [(intentOf_spec hintent).2.1] at hlist
  have hread := (readIntent_staged hed hpinned hstage).mpr ⟨hbytes, hlist, rfl⟩
  have heffects : writeEffects env nameSpace state after =
      .ok (.stage file :: .commit after :: (publishEffects file.intent ++ [.unlink])) := by
    have hbound : (if nameSpace = .facts then (fun _ ↦ ()) <$> checkSize after else .ok () : Py Unit) =
        .ok () := by
      rw [hcheck hsize', Py.map_ok, ite_self]
    rw [writeEffects, hbound, hfile, Py.bind_ok, hstage, Py.bind_ok, Py.pure_eq_ok]
    dsimp only
    rw [completeEffects, hread]
  have hlength : (publishEffects file.intent).length = file.intent.changes.length := by
    simp [publishEffects]
  have hall : (Effect.stage file :: .commit after :: (publishEffects file.intent ++ [.unlink])).take steps =
      .stage file :: .commit after :: (publishEffects file.intent ++ [.unlink]) :=
    List.take_of_length_le (by simp [hlength]; omega)
  -- Once the transition is committed, everything is published.
  have hnone : (attempt (apply env) { state with
      file := some file
      canonical := after
      history := state.history ++ [(state.canonical, after)] } (publishEffects file.intent)).2 = none :=
    (publish_staged_iff hdigests hintent hcount).mpr ⟨hchecks, hroom⟩
  obtain ⟨done, hfinal, hdone⟩ := attempt_publishEffects hdigests hintent hcount { state with
    file := some file
    canonical := after
    history := state.history ++ [(state.canonical, after)] } file.intent.changes.length
  rw [List.take_of_length_le hlength.le] at hfinal hdone
  have hevents : (eventsOf env.runtime file.intent).length ≤ done := by
    have hlength' : (eventsOf env.runtime file.intent).length = file.intent.changes.length := by
      simp [eventsOf]
    rw [hlength']
    exact hdone hnone le_rfl
  rw [List.take_of_length_le hevents] at hfinal
  have hattempt : attempt (apply env) { state with
      file := some file
      canonical := after
      history := state.history ++ [(state.canonical, after)] } (publishEffects file.intent) =
        ({ canonical := after
           file := some file
           journal := (eventsOf env.runtime file.intent).foldl (deliver Event.eventId) state.journal
           history := state.history ++ [(state.canonical, after)] }, none) :=
    Prod.ext hfinal hnone
  rw [act, hcheck hsize, Py.bind_ok, hrecover]
  dsimp only
  rw [heffects]
  dsimp only
  rw [hall]
  change Except.ok (attempt (apply env) { state with
    file := some file
    canonical := after
    history := state.history ++ [(state.canonical, after)] } (publishEffects file.intent ++ [.unlink])).1 = _
  rw [attempt_unlink, hattempt]

/-! ## Exactly once -/

/-- In every run whose writes repeat no transition, each event is in the journal once and in order. -/
theorem outbox_exactly_once (hed : env.runtime.Ed25519Correct)
    (hpinned : env.signing.algorithm = .ed25519 → env.signing.Pinned env.runtime)
    (hdigests : DigestsAreIdentifiers env.runtime) {state : State} (hfile : state.file = none)
    (hjournal : state.journal = []) (hhistory : state.history = []) {actions : List Action}
    (hfree : CollisionFree env.runtime nameSpace (state.canonical :: actions.filterMap Action.after))
    (hfresh : Along (act env nameSpace) Fresh state actions) {final : State}
    (hfinal : run (act env nameSpace) state actions = final) :
    Linked Prod.fst Prod.snd state.canonical final.history final.canonical ∧ (∀ transition ∈ final.history,
      ((transactionEvents env nameSpace transition).map Event.target).Nodup ∧
      ∀ identity, identity ∈ (transactionEvents env nameSpace transition).map Event.target ↔
        transition.1.get identity ≠ transition.2.get identity) ∧
    (∀ next, recover env nameSpace final.canonical final = (.ok (), next) →
      next.file = none ∧ next.history = final.history ∧
      next.journal = final.history.flatMap (transactionEvents env nameSpace)) ∧
    ((∀ file, final.file = some file → file.intent.changes.length ≤ 2048 ∧
        (writeJson (.obj file.signed)).length ≤ maxBytes ∧
        (∀ change ∈ file.intent.changes, checkChange change = .ok ()) ∧
        Room env final.journal (eventsOf env.runtime file.intent)) →
      ∃ next, recover env nameSpace final.canonical final = (.ok (), next)) := by
  subst hfinal
  have hconsistent := consistent_run hdigests hfile hjournal hhistory hfree hfresh
  refine ⟨hconsistent.linked, ?_, ?_, hconsistent.exists_recover hed hpinned hdigests hfree⟩
  · rintro ⟨before, after⟩ htransition
    by_cases hsame : before = after
    · subst hsame
      rw [transactionEvents_self]
      simp
    · obtain ⟨intent, hintent⟩ := hconsistent.computed _ htransition hsame
      rw [transactionEvents_of_intentOf hintent, map_target_eventsOf, (intentOf_spec hintent).2.1]
      exact changesOf_spec before after
  · intro next hnext
    obtain ⟨hrecovered, -, hsame⟩ := hconsistent.recover hdigests hfree hnext
    have hnone := (recover_spec rfl hnext).2 rfl
    refine ⟨hnone, hsame, ?_⟩
    cases hrecovered.outbox with
    | clear _ hpublished => rw [hpublished, hsame]
    | staged _ _ _ hsome => exact absurd (hnone.symm.trans hsome) (by simp)
    | committed _ _ _ _ _ hsome => exact absurd (hnone.symm.trans hsome) (by simp)

namespace Revisions

/-! A lesson that is edited back and forth. -/

/-- A runtime whose digests are sums of bytes. -/
def runtime : Runtime where
  sha256 message := Sample.letter ((message.map UInt8.toNat).sum % 2000)
  hmacSha256 _ _ := "signature"
  ed25519PublicBytes key := key
  ed25519Sign _ _ := ""
  ed25519Verify _ _ _ := true
  jsonLoads _ := none
  retainedSize _ := 0

def environment : Environment := { Sample.environment with runtime := runtime }

def revised (revision : String) : Snapshot where
  entries := [("lesson", ⟨[], revision, "active", false, revision, ""⟩)]
  sorted := List.pairwise_singleton _ _

def first : Snapshot := revised "1"

def second : Snapshot := revised "22"

/-- The text whose digest is the hash of a snapshot. -/
def lines (state : Snapshot) : Bytes :=
  state.entries.flatMap fun item ↦ canonicalBytes (.arr [.str item.1, item.2.toJson]) ++ [0x0a]

/-- The intent of a transition, before it is named. -/
def unnamed (before after : Snapshot) : Intent :=
  ⟨.lessons, runtime.sha256 (lines before), runtime.sha256 (lines after), changesOf .lessons before after, ""⟩

def intent (before after : Snapshot) : Intent :=
  ⟨.lessons, runtime.sha256 (lines before), runtime.sha256 (lines after),
    changesOf .lessons before after, runtime.sha256 (canonicalBytes (.obj (unnamed before after).body))⟩

def signed (before after : Snapshot) : List (String × Json) :=
  [("record", .obj (intent before after).row), ("principal", .str "local"),
    ("organization", .str "local-store"), ("authority", .str "operator"),
    ("digest", .str (runtime.sha256 (canonicalBytes (.obj (intent before after).row)))),
    ("signature", .str "signature")]

def file (before after : Snapshot) : File := ⟨intent before after, signed before after, rfl⟩

theorem digestsAreIdentifiers : DigestsAreIdentifiers environment.runtime := by
  intro message
  have hbound : (message.map UInt8.toNat).sum % 2000 < 2049 := by omega
  have hchar := Sample.toNat_char hbound
  refine text_eq_ok_iff.mpr ⟨?_, rfl⟩
  have hsize := Char.utf8Size_le_four (Char.ofNat (0x4e00 + (message.map UInt8.toNat).sum % 2000))
  have hzero : '\x00' ≠ Char.ofNat (0x4e00 + (message.map UInt8.toNat).sum % 2000) := by
    intro heq
    rw [← heq] at hchar
    have hnat : '\x00'.toNat = 0 := rfl
    omega
  change ¬((Sample.letter _).isEmpty ∨ _ ∨ _ ∨ _)
  simp [environment, runtime, Sample.letter, hzero]
  omega

/-- The values whose digests name the events. -/
def values : List Json :=
  [.obj (intent first first).body, .obj (intent first second).body, .obj (intent second first).body,
    .obj (intent second second).body, eventName (intent first second).transaction 0,
    eventName (intent second first).transaction 0]

theorem measures :
    (∀ state ∈ [first, second], ∀ item ∈ state.entries, fits (.arr [.str item.1, item.2.toJson]) = true) ∧
    (∀ before ∈ [first, second], ∀ after ∈ [first, second], fits (.obj (unnamed before after).body) = true) ∧
    ((intent first first).changes.length = 0 ∧ (intent first second).changes.length = 1 ∧
      (intent second first).changes.length = 1 ∧ (intent second second).changes.length = 0) ∧
    (∀ state ∈ [first, second], ∀ other ∈ [first, second],
      runtime.sha256 (lines state) = runtime.sha256 (lines other) → state = other) ∧
    (values.map fun value ↦ runtime.sha256 (canonicalBytes value)).Nodup ∧
    ∀ pair ∈ [(first, second), (second, first)],
      (changesOf .lessons pair.1 pair.2 ≠ [] ∧ fits (.obj (intent pair.1 pair.2).row) = true ∧
        fits (.obj (signed pair.1 pair.2)) = true) ∧ pair.1.entries.length ≤ 10000 ∧ pair.2.entries.length ≤ 10000 ∧
      (file pair.1 pair.2).intent.changes.length ≤ 2048 ∧ (file pair.1 pair.2).intent.changes.length + 3 ≤ 9 ∧
      (writeJson (.obj (file pair.1 pair.2).signed)).length ≤ maxBytes ∧
      ∀ change ∈ (file pair.1 pair.2).intent.changes, checkChange change = .ok () := by
  refine ⟨by decide +kernel, by decide +kernel, by decide +kernel, by decide +kernel, by decide +kernel, ?_⟩
  intro pair hpair
  refine ⟨?_, ?_⟩
  · revert pair
    decide +kernel
  · revert pair
    decide +kernel

theorem stateHash_eq : ∀ state ∈ [first, second], stateHash runtime state = .ok (runtime.sha256 (lines state)) := by
  intro state hstate
  have hfits := measures.1
  have hwire : ∀ item ∈ state.entries, wire (.arr [.str item.1, item.2.toJson]) =
      .ok (canonicalBytes (.arr [.str item.1, item.2.toJson])) :=
    fun item hitem ↦ (wirable_of_fits (hfits state hstate item hitem)).wire_eq
  have hlines := Py.collect_always_eq_ok hwire
  rw [stateHash, hlines, Py.bind_ok, Py.pure_eq_ok, List.flatMap_map]
  rfl

theorem intentOf_eq : ∀ before ∈ [first, second], ∀ after ∈ [first, second],
    intentOf runtime .lessons before after = .ok (intent before after) := by
  intro before hbefore after hafter
  have hfits := measures.2.1
  have hdigest : digest runtime (.obj (unnamed before after).body) =
      .ok (runtime.sha256 (canonicalBytes (.obj (unnamed before after).body))) :=
    digest_eq_ok_iff.mpr ⟨wirable_of_fits (hfits before hbefore after hafter), rfl⟩
  exact intentOf_eq_ok (stateHash_eq before hbefore) (stateHash_eq after hafter) hdigest

theorem mem_values {snapshots : List Snapshot} (hsnapshots : ∀ state ∈ snapshots, state ∈ [first, second])
    {value : Json} (h : Hashed runtime .lessons snapshots value) : value ∈ values := by
  cases h with
  | @intent before after found hbefore hafter hintent =>
    have hsame := intentOf_eq before (hsnapshots _ hbefore) after (hsnapshots _ hafter)
    obtain rfl := Except.ok.inj (hsame.symm.trans hintent)
    have hbefore' := hsnapshots _ hbefore
    have hafter' := hsnapshots _ hafter
    simp only [List.mem_cons, List.not_mem_nil, or_false] at hbefore' hafter'
    rcases hbefore' with rfl | rfl <;> rcases hafter' with rfl | rfl <;> simp [values]
  | @event before after found index hbefore hafter hintent hindex =>
    have hsame := intentOf_eq before (hsnapshots _ hbefore) after (hsnapshots _ hafter)
    obtain rfl := Except.ok.inj (hsame.symm.trans hintent)
    have hbefore' := hsnapshots _ hbefore
    have hafter' := hsnapshots _ hafter
    simp only [List.mem_cons, List.not_mem_nil, or_false] at hbefore' hafter'
    have hlengths := measures.2.2.1
    rcases hbefore' with rfl | rfl <;> rcases hafter' with rfl | rfl
    · omega
    · obtain rfl : index = 0 := by omega
      simp [values]
    · obtain rfl : index = 0 := by omega
      simp [values]
    · omega

theorem collisionFree {snapshots : List Snapshot} (hsnapshots : ∀ state ∈ snapshots, state ∈ [first, second]) :
    CollisionFree environment.runtime .lessons snapshots where
  state := by
    intro state hstate other hother hash hhash hhash'
    have hstate' := hsnapshots _ hstate
    have hother' := hsnapshots _ hother
    change stateHash runtime state = _ at hhash
    change stateHash runtime other = _ at hhash'
    rw [stateHash_eq state hstate', Except.ok.injEq] at hhash
    rw [stateHash_eq other hother', Except.ok.injEq] at hhash'
    exact measures.2.2.2.1 state hstate' other hother' (hhash.trans hhash'.symm)
  value := by
    intro value other hvalue hother heq
    obtain rfl := List.inj_on_of_nodup_map measures.2.2.2.2.1 (mem_values hsnapshots hvalue)
      (mem_values hsnapshots hother) heq
    exact Json.Same.refl value

theorem stage_eq (h : (before, after) ∈ [(first, second), (second, first)]) :
    stage environment .lessons none before after = .ok (some (file before after)) := by
  have hmem : before ∈ [first, second] ∧ after ∈ [first, second] := by
    simp only [List.mem_cons, Prod.mk.injEq, List.not_mem_nil, or_false] at h ⊢
    tauto
  obtain ⟨hne, hrow, hsigned⟩ := (measures.2.2.2.2.2 _ h).1
  have hintent := intentOf_eq before hmem.1 after hmem.2
  have hsign : sign environment (intent before after) = .ok (file before after) := by
    rw [sign, (wirable_of_fits hrow).wire_eq, Py.bind_ok]
    rfl
  rw [stage, if_neg hne]
  change (intentOf runtime .lessons before after >>= _) = _
  rw [hintent, Py.bind_ok, hsign, Py.bind_ok]
  change (wire (.obj (signed before after)) >>= fun _ ↦ Except.ok (some (file before after))) = _
  rw [(wirable_of_fits hsigned).wire_eq, Py.bind_ok]

def events (before after : Snapshot) : List Event :=
  eventsOf environment.runtime (file before after).intent

theorem write_eq {before after : Snapshot} (h : (before, after) ∈ [(first, second), (second, first)])
    {journal : List Event} {history : List (Snapshot × Snapshot)}
    (hroom : Room environment journal (events before after)) :
    act environment .lessons ⟨before, none, journal, history⟩ (.write after 9) = .ok
      ⟨after, none, (events before after).foldl (deliver Event.eventId) journal, history ++ [(before, after)]⟩ := by
  obtain ⟨hsize, hsize', hcount, hsteps, hbytes, hchecks⟩ := (measures.2.2.2.2.2 _ h).2
  have hed : environment.runtime.Ed25519Correct := fun _ _ ↦ rfl
  have hpinned : environment.signing.algorithm = .ed25519 → environment.signing.Pinned
      environment.runtime := fun h ↦ by cases h
  exact @act_write environment .lessons hed hpinned digestsAreIdentifiers
    ⟨before, none, journal, history⟩ rfl after (file before after) (stage_eq h) hsize hsize' hcount
    hbytes hchecks hroom 9 hsteps

/-- A lesson with one revision, before any streamed write. -/
def initial : State := ⟨first, none, [], []⟩

theorem deliver_events :
    (events first second).foldl (deliver Event.eventId) [] = events first second ∧
      (events second first).foldl (deliver Event.eventId) (events first second) =
        events first second ++ events second first ∧ (events first second).foldl (deliver Event.eventId)
        (events first second ++ events second first) = events first second ++ events second first ∧
      (events first second).length = 1 ∧ (events second first).length = 1 := by decide +kernel

theorem transactionEvents_eq (h : (before, after) ∈ [(first, second), (second, first)]) :
    transactionEvents environment .lessons (before, after) = events before after := by
  have hmem : before ∈ [first, second] ∧ after ∈ [first, second] := by
    simp only [List.mem_cons, Prod.mk.injEq, List.not_mem_nil, or_false] at h ⊢
    tauto
  exact transactionEvents_of_intentOf (intentOf_eq before hmem.1 after hmem.2)

theorem room_start : Room environment [] (events first second) := by
  obtain ⟨event, hevent⟩ := List.length_eq_one_iff.mp deliver_events.2.2.2.1
  rw [hevent]
  exact ⟨⟨by decide, rfl⟩, trivial⟩

theorem run_once : run (act environment .lessons) initial [.write second 9] =
    ⟨second, none, events first second, [(first, second)]⟩ := by
  have hwrite := @write_eq first second (by simp) [] [] room_start
  rw [deliver_events.1] at hwrite
  rw [run_cons, run_nil, initial, perform_eq_of_ok hwrite, List.nil_append]

theorem run_back_and_forth :
    run (act environment .lessons) initial [.write second 9, .write first 9, .write second 9] =
      ⟨second, none, events first second ++ events second first,
        [(first, second), (second, first), (first, second)]⟩ := by
  obtain ⟨-, hback, hagain, hone, hone'⟩ := deliver_events
  obtain ⟨event, hevent⟩ := List.length_eq_one_iff.mp hone
  obtain ⟨event', hevent'⟩ := List.length_eq_one_iff.mp hone'
  have hne : event.eventId ≠ event'.eventId := by
    intro heq
    rw [hevent, hevent', List.foldl_cons, List.foldl_nil, deliver,
      if_pos ⟨event, List.mem_singleton_self _, heq⟩] at hback
    simp at hback
  have hroom : Room environment (events first second) (events second first) := by
    rw [hevent, hevent']
    refine ⟨?_, trivial⟩
    simp [Admits, hne, environment, Sample.environment, maxRows]
  have hroom' : Room environment (events first second ++ events second first) (events first second) := by
    rw [hevent, hevent']
    refine ⟨?_, trivial⟩
    simp [Admits]
  have hsecond := @write_eq second first (by simp) _ [(first, second)] hroom
  have hthird := @write_eq first second (by simp) _ ([(first, second)] ++ [(second, first)]) hroom'
  rw [hback] at hsecond
  rw [hagain] at hthird
  have hfirst := run_once
  rw [run_cons, run_nil] at hfirst
  rw [run_cons, hfirst, run_cons, perform_eq_of_ok hsecond, run_cons, perform_eq_of_ok hthird, run_nil]
  rfl

end Revisions

open Revisions in
/-- One edit of a lesson. -/
theorem outbox_exactly_once_edit :
    ∃ next, recover environment .lessons second
        (run (act environment .lessons) initial [.write second 9]) = (.ok (), next) ∧
      next.journal = [(first, second)].flatMap (transactionEvents environment .lessons) ∧
      next.journal.length = 1 := by
  have hed : environment.runtime.Ed25519Correct := fun _ _ ↦ rfl
  have hpinned : environment.signing.algorithm = .ed25519 → environment.signing.Pinned
      environment.runtime := fun h ↦ by cases h
  have hfresh : Along (act environment .lessons) Fresh initial [.write second 9] :=
    ⟨Or.inr (Or.inr (by simp [initial])), trivial⟩
  obtain ⟨-, -, hrecovered, hreturns⟩ := @outbox_exactly_once environment .lessons hed hpinned
    digestsAreIdentifiers initial rfl rfl rfl [.write second 9]
    (collisionFree (by simp [initial, Action.after])) hfresh _ rfl
  rw [run_once] at hrecovered hreturns ⊢
  obtain ⟨next, hnext⟩ := hreturns (fun file hfile ↦ by cases hfile)
  refine ⟨next, hnext, (hrecovered next hnext).2.2, ?_⟩
  rw [(hrecovered next hnext).2.2, List.flatMap_singleton, transactionEvents_eq (by simp)]
  exact deliver_events.2.2.2.1

open Revisions in
/-- A lesson that is edited, edited back and edited again: the third write has no event. -/
theorem repeated_transition_is_not_published :
    CollisionFree environment.runtime .lessons [first, second, first, second] ∧
      (run (act environment .lessons) initial [.write second 9, .write first 9, .write second 9]).history =
          [(first, second), (second, first), (first, second)] ∧
      ∃ next, recover environment .lessons second (run (act environment .lessons) initial
          [.write second 9, .write first 9, .write second 9]) = (.ok (), next) ∧ next.journal.length = 2 ∧
        next.journal ≠ [(first, second), (second, first), (first, second)].flatMap
          (transactionEvents environment .lessons) := by
  refine ⟨collisionFree (by simp), by rw [run_back_and_forth], ?_⟩
  rw [run_back_and_forth]
  obtain ⟨-, -, -, hone, hone'⟩ := deliver_events
  refine ⟨_, rfl, by simp [hone, hone'], ?_⟩
  intro heq
  have hlength := congrArg List.length heq
  simp [transactionEvents_eq, hone, hone'] at hlength

end UniMem.ChangeStream
