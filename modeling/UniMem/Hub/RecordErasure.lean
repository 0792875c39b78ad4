import UniMem.Hub.MemoryRecords

/-!
# What an erasure deletes

The ids that an erasure deletes are the least set with the given id that is closed under derivation and under cited
episodes, so what remains names nothing that was deleted.
-/

namespace UniMem.Hub.MemoryRecords

open Library MemoryJournal Relation

/-- A revision names a record in a relation or in an evidence receipt. -/
def Names (row : Record) (source : String) : Prop :=
  source ∈ row.sources ∨ ∃ receipts, receiptSources row = .ok receipts ∧ source ∈ receipts

/-- A revision cites an episode of its scope. -/
def Cites (rows : List Record) (row : Record) (source : String) : Prop :=
  source ∈ row.payload.sourceMessageIds ∧
    ∃ episode ∈ rows, episode.kind = .episode ∧ episode.id = source ∧ episode.scope = row.scope

/-- A set of ids with what a revision derives from it and the episodes it cites. -/
structure ErasureClosed (rows : List Record) (ids : Set String) : Prop where
  derived : ∀ row ∈ rows, ∀ source ∈ ids, Names row source → row.id ∈ ids
  cited : ∀ row ∈ rows, row.id ∈ ids → ∀ source, Cites rows row source → source ∈ ids

/-- The receipts of every revision can be read. -/
def Legible (rows : List Record) : Prop := ∀ row ∈ rows, ∃ receipts, receiptSources row = .ok receipts

variable {rows : List Record} {index start : Index}

theorem plain_scopeJson (scope : Scope) :
    Json.Plain (.obj (scope.map fun entry ↦ (entry.1, ScopeValue.json entry.2))) := by
  rw [Json.plain_iff]
  refine ⟨rfl, fun child hchild ↦ ?_⟩
  obtain ⟨field, hfield, rfl⟩ := List.mem_map.mp hchild
  obtain ⟨entry, -, rfl⟩ := List.mem_map.mp hfield
  cases entry.2 with
  | text value => exact Json.plain_iff.mpr ⟨rfl, fun _ hmem ↦ absurd hmem List.not_mem_nil⟩
  | labels values =>
    refine Json.plain_iff.mpr ⟨rfl, fun child hchild ↦ ?_⟩
    obtain ⟨label, -, rfl⟩ := List.mem_map.mp hchild
    exact Json.plain_iff.mpr ⟨rfl, fun _ hmem ↦ absurd hmem List.not_mem_nil⟩

theorem json_injective {first second : ScopeValue} (h : ScopeValue.json first = ScopeValue.json second) :
    first = second := by
  cases first with
  | text value =>
    cases second with
    | text other => exact congrArg _ (Json.str.inj h)
    | labels others => cases h
  | labels values =>
    cases second with
    | text other => cases h
    | labels others =>
      have hvalues := Json.arr.inj h
      rw [List.map_inj_right fun _ _ hsame ↦ Json.str.inj hsame] at hvalues
      exact congrArg _ hvalues

theorem scopeKey_inj {first second : Scope} : scopeKey first = scopeKey second ↔ first = second := by
  refine ⟨fun h ↦ ?_, congrArg scopeKey⟩
  have hfields := Json.obj.inj (Json.encode_injective Json.Style.separated_spaced (plain_scopeJson first)
    (plain_scopeJson second) h)
  rw [List.map_inj_right] at hfields
  · exact hfields
  · intro entry other hsame
    obtain ⟨hname, hvalue⟩ := Prod.mk.inj hsame
    exact Prod.ext hname (json_injective hvalue)

/-- What the pass over the revisions collects. -/
structure Collects (start : Index) (rows : List Record) (index : Index) : Prop where
  dependents : ∀ source derived, (source, derived) ∈ index.dependents ↔ (source, derived) ∈ start.dependents ∨
    ∃ row ∈ rows, row.id = derived ∧ Names row source
  upstream : ∀ entry, entry ∈ index.upstream ↔ entry ∈ start.upstream ∨
    ∃ row ∈ rows, ∃ source ∈ row.payload.sourceMessageIds, entry = (row.id, source, scopeKey row.scope)
  episodes : ∀ entry, entry ∈ index.episodes ↔ entry ∈ start.episodes ∨
    ∃ row ∈ rows, row.kind = .episode ∧ entry = (row.id, scopeKey row.scope)

theorem collects_indexRow {row : Record} (h : indexRow start row = .ok index) : Collects start [row] index := by
  obtain ⟨receipts, hreceipts, h⟩ := Py.of_bind h
  obtain rfl := Except.ok.inj h
  constructor
  · intro source derived
    have hnames : Names row source ↔ source ∈ row.sources ++ receipts := by
      rw [Names, List.mem_append, hreceipts]
      simp
    simp [hnames, eq_comm, and_comm, and_or_left]
  · intro entry
    simp [eq_comm]
  · intro entry
    by_cases hkind : row.kind = .episode
    · simp [hkind]
    · simp [hkind]

theorem Collects.append {middle : Index} {others : List Record} (hfirst : Collects start rows middle)
    (hsecond : Collects middle others index) : Collects start (rows ++ others) index := by
  constructor
  · intro source derived
    rw [hsecond.dependents, hfirst.dependents]
    simp only [List.mem_append, or_and_right, exists_or, or_assoc]
  · intro entry
    rw [hsecond.upstream, hfirst.upstream]
    simp only [List.mem_append, or_and_right, exists_or, or_assoc]
  · intro entry
    rw [hsecond.episodes, hfirst.episodes]
    simp only [List.mem_append, or_and_right, exists_or, or_assoc]

theorem collects_foldlM (h : rows.foldlM indexRow start = .ok index) : Collects start rows index := by
  induction rows generalizing start with
  | nil =>
    obtain rfl := Except.ok.inj h
    constructor <;> simp
  | cons row rows ih =>
    rw [List.foldlM_cons] at h
    obtain ⟨middle, hmiddle, h⟩ := Py.of_bind h
    exact (collects_indexRow hmiddle).append (ih h)

theorem exists_foldlM (h : Legible rows) (start : Index) : ∃ index, rows.foldlM indexRow start = .ok index := by
  induction rows generalizing start with
  | nil => exact ⟨start, rfl⟩
  | cons row rows ih =>
    obtain ⟨receipts, hreceipts⟩ := h row List.mem_cons_self
    rw [List.foldlM_cons, indexRow, hreceipts]
    exact ih (fun other hother ↦ h other (List.mem_cons_of_mem _ hother)) _

theorem mem_next_iff (h : Collects .empty rows index) {current other : String} :
    other ∈ index.next current ↔ (∃ row ∈ rows, row.id = other ∧ Names row current) ∨
      ∃ row ∈ rows, row.id = current ∧ Cites rows row other := by
  rw [Index.next, List.mem_append]
  refine or_congr ?_ ?_
  · have hdependents := h.dependents current other
    simp only [Index.empty, List.not_mem_nil, false_or] at hdependents
    rw [← hdependents]
    simp [Index.derived]
  · have hepisodes : ∀ row : Record, (other, scopeKey row.scope) ∈ index.episodes ↔
        ∃ episode ∈ rows, episode.kind = .episode ∧ episode.id = other ∧ episode.scope = row.scope := by
      intro row
      rw [h.episodes]
      simp only [Index.empty, List.not_mem_nil, false_or, Prod.mk.injEq, scopeKey_inj]
      simp only [eq_comm]
    rw [Index.cited, List.mem_map]
    constructor
    · rintro ⟨⟨name, source, scope⟩, hentry, rfl⟩
      obtain ⟨hupstream, hsame⟩ := List.mem_filter.mp hentry
      obtain ⟨hname, hepisode⟩ := Bool.and_eq_true_iff.mp hsame
      obtain hstart | ⟨row, hrow, cited, hcited, heq⟩ := (h.upstream _).mp hupstream
      · exact absurd hstart List.not_mem_nil
      · obtain ⟨rfl, rfl, rfl⟩ := heq
        exact ⟨row, hrow, of_decide_eq_true hname, hcited, (hepisodes row).mp (of_decide_eq_true hepisode)⟩
    · rintro ⟨row, hrow, rfl, hcited, hepisode⟩
      refine ⟨(row.id, other, scopeKey row.scope), List.mem_filter.mpr ⟨?_, ?_⟩, rfl⟩
      · exact (h.upstream _).mpr (.inr ⟨row, hrow, other, hcited, rfl⟩)
      · exact Bool.and_eq_true_iff.mpr ⟨decide_eq_true rfl, decide_eq_true ((hepisodes row).mpr hepisode)⟩

theorem closureLoop_fst (index : Index) (pending deleted episodes : List String) :
    (closureLoop index pending deleted episodes).1 = Worklist.reach index.table pending deleted := by
  induction pending, deleted, episodes using closureLoop.induct index with
  | case1 deleted episodes => rw [closureLoop, Worklist.reach]
  | case2 current pending deleted episodes hdeleted ih =>
    rw [closureLoop, if_pos hdeleted, Worklist.reach, if_pos hdeleted, ih]
  | case3 current pending deleted episodes hdeleted ih =>
    rw [closureLoop, if_neg hdeleted, ih, Worklist.reach.eq_def index.table (current :: pending)]
    simp only [if_neg hdeleted, successors_table]
    refine Worklist.reach_trimmed (Worklist.Trimmed.append ?_ (Worklist.Trimmed.refl _ _))
    rw [← List.filter_reverse]
    exact Worklist.trimmed_filter _ _

variable {identity : String} {deleted episodes : List String} {given : Record}

theorem erasureClosure_fst (h : erasureClosure rows identity = .ok (deleted, episodes)) :
    ∃ index, Collects .empty rows index ∧ deleted = Worklist.reach index.table [identity] [] := by
  obtain ⟨index, hindex, h⟩ := Py.of_bind h
  refine ⟨index, collects_foldlM hindex, ?_⟩
  rw [← closureLoop_fst index [identity] [] [], Except.ok.inj h]

theorem isLeast_closure (h : erasureClosure rows identity = .ok (deleted, episodes)) :
    IsLeast {ids : Set String | identity ∈ ids ∧ ErasureClosed rows ids} {id | id ∈ deleted} := by
  obtain ⟨index, hindex, rfl⟩ := erasureClosure_fst h
  have hstep : ∀ first second, Worklist.Step index.table first second ↔ second ∈ index.next first := by
    intro first second
    rw [Worklist.Step, successors_table]
  have hclosed : ∀ first ∈ Worklist.reach index.table [identity] [], ∀ second ∈ index.next first,
      second ∈ Worklist.reach index.table [identity] [] := by
    intro first hfirst second hsecond
    refine Worklist.reach_closed index.table ?_ hfirst ((hstep _ _).mpr hsecond)
    exact fun _ hseen ↦ absurd hseen List.not_mem_nil
  refine ⟨⟨Worklist.pending_subset_reach index.table _ _ List.mem_cons_self, ?_, ?_⟩, ?_⟩
  · intro row hrow source hsource hnames
    exact hclosed source hsource row.id ((mem_next_iff hindex).mpr (.inl ⟨row, hrow, rfl, hnames⟩))
  · intro row hrow hdeleted source hcites
    exact hclosed row.id hdeleted source ((mem_next_iff hindex).mpr (.inr ⟨row, hrow, rfl, hcites⟩))
  · rintro ids ⟨hidentity, hids⟩ other hother
    obtain hnil | ⟨first, hfirst, hpath⟩ := Worklist.mem_reach index.table hother
    · exact absurd hnil List.not_mem_nil
    · obtain rfl := List.mem_singleton.mp hfirst
      clear hother
      induction hpath with
      | refl => exact hidentity
      | tail _ hedge ih =>
        obtain ⟨row, hrow, rfl, hnames⟩ | ⟨row, hrow, rfl, hcites⟩ :=
          (mem_next_iff hindex).mp ((hstep _ _).mp hedge)
        · exact hids.derived row hrow _ ih hnames
        · exact hids.cited row hrow ih _ hcites

/-- Every stored revision names its cited episodes among its sources. -/
def Bound (journal : Journal) : Prop :=
  ∀ event ∈ journal.events, ∀ source ∈ event.payload.sourceMessageIds, source ∈ event.sources

variable {context : Context} {journal next : Journal} {record : Record}

theorem runtimePrepare_spec (h : runtimePrepare context given = .ok record) :
    record.payload = given.payload ∧ record.relations = given.relations := by
  unfold runtimePrepare at h
  split at h
  · obtain rfl := Except.ok.inj h
    exact ⟨rfl, rfl⟩
  · obtain ⟨prepared, -, h⟩ := Py.of_bind h
    obtain rfl := Except.ok.inj h
    exact ⟨rfl, rfl⟩

theorem putRow_spec (h : putRow context journal given = .ok next) :
    ∃ record, runtimePrepare context given = .ok record ∧ next.events = journal.events ++ [record] := by
  obtain ⟨record, hrecord, h⟩ := Py.of_bind h
  obtain ⟨_, h⟩ := Py.of_rest h
  obtain ⟨_, h⟩ := Py.of_rest h
  obtain ⟨_, h⟩ := Py.of_rest h
  obtain ⟨_, h⟩ := Py.of_rest h
  obtain ⟨_, h⟩ := Py.of_rest h
  obtain ⟨_, h⟩ := Py.of_rest h
  obtain ⟨_, h⟩ := Py.of_rest h
  obtain ⟨_, h⟩ := Py.of_rest h
  obtain rfl := Except.ok.inj h
  exact ⟨record, hrecord, rfl⟩

theorem Bound.putRow (hbound : Bound journal) (h : putRow context journal given = .ok next)
    (hgiven : ∀ source ∈ given.payload.sourceMessageIds, source ∈ given.sources) : Bound next := by
  obtain ⟨record, hrecord, hevents⟩ := putRow_spec h
  obtain ⟨hpayload, hrelations⟩ := runtimePrepare_spec hrecord
  intro event hevent
  rw [hevents] at hevent
  obtain hold | hnew := List.mem_append.mp hevent
  · exact hbound event hold
  · obtain rfl := List.mem_singleton.mp hnew
    rw [hpayload, Record.sources, hrelations]
    exact hgiven

theorem facetObservation_cites {given : MemoryJournal.Context} {entity facet : String} {sources : List Record}
    {previous : Option Record} (h : facetObservation given entity facet sources previous = .ok record) :
    record.payload.sourceMessageIds = [] := by
  unfold facetObservation at h
  split at h
  · cases h
  · obtain ⟨_, h⟩ := Py.of_rest h
    obtain ⟨_, h⟩ := Py.of_rest h
    obtain ⟨_, h⟩ := Py.of_rest h
    obtain rfl := Except.ok.inj h
    rfl

theorem Bound.refreshFacet (hbound : Bound journal) (h : refreshFacet context journal record = .ok next) :
    Bound next := by
  unfold MemoryRecords.refreshFacet at h
  split_ifs at h
  · obtain rfl := Except.ok.inj h
    exact hbound
  · split at h
    · split_ifs at h
      · obtain rfl := Except.ok.inj h
        exact hbound
      · dsimp only at h
        split_ifs at h
        · obtain rfl := Except.ok.inj h
          exact hbound
        · obtain ⟨observation, -, h⟩ := Py.of_bind h
          split_ifs at h
          · obtain rfl := Except.ok.inj h
            exact hbound
          · obtain ⟨latest, hlatest, h⟩ := Py.of_bind h
            refine hbound.putRow h fun source hsource ↦ ?_
            rw [facetObservation_cites hlatest] at hsource
            exact absurd hsource List.not_mem_nil
    · obtain rfl := Except.ok.inj h
      exact hbound

theorem Bound.put (hbound : Bound journal) (h : put context journal given = .ok next) :
    Bound next := by
  obtain ⟨_, h⟩ := Py.of_rest h
  obtain ⟨bound, hbind, h⟩ := Py.of_bind h
  obtain ⟨prepared, hprepare, h⟩ := Py.of_bind h
  obtain ⟨_, h⟩ := Py.of_rest h
  obtain ⟨middle, hput, h⟩ := Py.of_bind h
  have hmiddle : Bound middle := by
    refine hbound.putRow hput fun source hsource ↦ ?_
    obtain ⟨hpayload, hrelations⟩ := runtimePrepare_spec hprepare
    rw [hpayload] at hsource
    rw [Record.sources, hrelations]
    exact captureIds_subset_sources hbind source (List.mem_append_left _ hsource)
  split_ifs at h
  · exact hmiddle.refreshFacet h
  · obtain rfl := Except.ok.inj h
    exact hmiddle

theorem Bound.captureTurn {turn : Turn} (hbound : Bound journal)
    (h : captureTurn context journal turn = .ok next) : Bound next := by
  obtain ⟨middle, hepisode, h⟩ := Py.of_bind h
  have hmiddle : Bound middle := hbound.putRow hepisode fun source hsource ↦ absurd hsource List.not_mem_nil
  clear hbound hepisode
  generalize turn.preferences = preferences at h
  induction preferences generalizing middle with
  | nil =>
    obtain rfl := Except.ok.inj h
    exact hmiddle
  | cons preference preferences ih =>
    rw [List.foldlM_cons] at h
    obtain ⟨updated, hupdate, h⟩ := Py.of_bind h
    exact ih updated (hmiddle.putRow hupdate fun source hsource ↦ hsource) h

theorem forget_spec {request : Request} (h : forget context journal request = .ok (next, deleted)) :
    (∃ episodes, erasureClosure journal.events request.identity = .ok (deleted, episodes)) ∧
      next = journal.erase context.vectorIndex deleted := by
  obtain ⟨_, h⟩ := Py.of_rest h
  obtain ⟨⟨found, episodes⟩, hclosure, h⟩ := Py.of_bind h
  obtain ⟨_, h⟩ := Py.of_rest h
  obtain ⟨rfl, rfl⟩ := Prod.mk.inj (Except.ok.inj h)
  exact ⟨⟨episodes, hclosure⟩, rfl⟩

theorem Bound.erase (hbound : Bound journal) (vectorIndex : Bool) (deleted : List String) :
    Bound (journal.erase vectorIndex deleted) :=
  fun event hevent ↦ hbound event (List.mem_filter.mp hevent).1

theorem Bound.step {action : Action} (hbound : Bound journal) (h : step journal action = .ok next) : Bound next := by
  cases action with
  | put context record => exact hbound.put h
  | captureTurn context turn => exact hbound.captureTurn h
  | forget context request =>
    obtain ⟨⟨result, deleted⟩, hforget, rfl⟩ := Py.map_eq_ok_iff.mp h
    rw [(forget_spec hforget).2]
    exact hbound.erase _ _
  | completeErasures identities =>
    obtain rfl := Except.ok.inj h
    exact hbound

theorem bound_run (actions : List Action) : Bound (run step .empty actions) :=
  run_invariant (fun _ _ _ hbound h ↦ hbound.step h) (fun _ hevent ↦ absurd hevent List.not_mem_nil) actions

/-- A record that names nothing of a set in any way. -/
def Unnamed (ids : List String) (row : Record) : Prop :=
  row.id ∉ ids ∧ ∀ source ∈ ids, ¬Names row source ∧ source ∉ row.payload.sourceMessageIds

theorem unnamed_of_forget {request : Request} (hbound : Bound journal)
    (h : forget context journal request = .ok (next, deleted)) : ∀ row ∈ next.events, Unnamed deleted row := by
  obtain ⟨⟨episodes, hclosure⟩, rfl⟩ := forget_spec h
  obtain ⟨⟨-, hclosed⟩, -⟩ := isLeast_closure hclosure
  intro row hrow
  obtain ⟨hevent, hkept⟩ := List.mem_filter.mp hrow
  have hkept : row.id ∉ deleted := of_decide_eq_true hkept
  refine ⟨hkept, fun source hsource ↦ ⟨fun hnames ↦ ?_, fun hcited ↦ ?_⟩⟩
  · exact hkept (hclosed.derived row hevent source hsource hnames)
  · exact hkept (hclosed.derived row hevent source hsource (.inl (hbound row hevent source hcited)))

/-- The hosted closure is the least closed set, and no remaining revision names an erased id. -/
theorem erasure_closure_least :
    (∀ (rows : List Record) (identity : String), Legible rows → ∃ deleted episodes,
      erasureClosure rows identity = .ok (deleted, episodes) ∧
        IsLeast {ids : Set String | identity ∈ ids ∧ ErasureClosed rows ids} {id | id ∈ deleted}) ∧
    ∀ (actions : List Action) (context : Context) (request : Request) (next : Journal) (deleted : List String),
      forget context (run step .empty actions) request = .ok (next, deleted) →
        IsLeast {ids : Set String | request.identity ∈ ids ∧ ErasureClosed (run step .empty actions).events ids}
          {id | id ∈ deleted} ∧ ∀ row ∈ next.events, Unnamed deleted row := by
  refine ⟨fun rows identity hlegible ↦ ?_, fun actions context request next deleted h ↦ ?_⟩
  · obtain ⟨index, hindex⟩ := exists_foldlM hlegible Index.empty
    have hclosure : erasureClosure rows identity = .ok (closureLoop index [identity] [] []) := by
      rw [erasureClosure, hindex]
      rfl
    exact ⟨_, _, hclosure, isLeast_closure hclosure⟩
  · obtain ⟨⟨episodes, hclosure⟩, -⟩ := forget_spec h
    exact ⟨isLeast_closure hclosure, unnamed_of_forget (bound_run actions) h⟩

namespace Sample

/-! An episode, a profile that cites it, and two facts that derive from each other. -/

def hub : Context where
  runtime := .hashing []
  orgId := "acme"
  vectorIndex := false
  sanitize := id
  prepare := none
  atomicFact := fun _ ↦ .ok ()
  permits := fun _ ↦ true
  stamp := fun _ ↦ .ok ()
  mayRefresh := fun _ ↦ true
  visible := fun _ ↦ true
  assertForget := none
  held := false

def episode : Record := ⟨"turn", .episode, 1, ⟨[], none, none, .null⟩, .active, [], [], .null⟩

def profile : Record := ⟨"taste", .profile, 1, ⟨["turn"], none, none, .null⟩, .active, [], [], .null⟩

def fact (identity source : String) : Record :=
  ⟨identity, .fact, 1, ⟨[], none, none, .null⟩, .active, [(.derives, [source])], [], .null⟩

def request : Request := ⟨"turn", "requested", none, none, none, fun _ ↦ ""⟩

def actions : List Action := [.put hub episode, .put hub profile]

theorem legible : Legible [fact "first" "second", fact "second" "first"] := by
  intro row hrow
  obtain rfl | rfl := List.mem_pair.mp hrow
  · exact ⟨[], rfl⟩
  · exact ⟨[], rfl⟩

theorem isOk_forget : (forget hub (run step .empty actions) request).isOk = true := by decide +kernel

end Sample

theorem erasure_closure_least_cycle :
    (∃ deleted episodes,
      erasureClosure [Sample.fact "first" "second", Sample.fact "second" "first"] "first" = .ok (deleted, episodes) ∧
        IsLeast {ids : Set String | "first" ∈ ids ∧
          ErasureClosed [Sample.fact "first" "second", Sample.fact "second" "first"] ids} {id | id ∈ deleted}) ∧
    ∃ next deleted, forget Sample.hub (run step .empty Sample.actions) Sample.request = .ok (next, deleted) ∧
      ∀ row ∈ next.events, Unnamed deleted row := by
  refine ⟨erasure_closure_least.1 _ _ Sample.legible, ?_⟩
  have hok := Sample.isOk_forget
  cases hforget : forget Sample.hub (run step .empty Sample.actions) Sample.request with
  | error error =>
    rw [hforget] at hok
    cases hok
  | ok result =>
    exact ⟨result.1, result.2, rfl, (erasure_closure_least.2 _ _ _ _ _ hforget).2⟩

end UniMem.Hub.MemoryRecords
