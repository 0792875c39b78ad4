import UniMem.Lineage.Attestations

/-!
# Cycles of the lineage graph

A statement that is published at once keeps the graph acyclic. One that was prepared is published without the test,
so the graph stays acyclic exactly when the test would succeed again.
-/

namespace UniMem.Lineage

open Library FrontierProtocol Relation

/-- The derivation edges of a snapshot, from an object to its inputs. -/
def Snapshot.Edge (snapshot : Snapshot) (identity parent : String) : Prop :=
  parent ∈ neighbors snapshot.up identity

/-- The derivation edges of a journal. -/
def Edge (journal : List Event) : String → String → Prop :=
  (journal.foldl Snapshot.add .empty).Edge

variable {identity : String} {event : Event} {snapshot : Snapshot} {statement : Statement} {world next : World}
  {seen : ℕ}

theorem mem_neighbors_insertGroup {edges : List (String × List String)} {parent first second : String} :
    second ∈ neighbors (insertGroup identity parent edges) first ↔
      second ∈ neighbors edges first ∨ first = identity ∧ second = parent := by
  unfold neighbors
  rw [lookup_insertGroup]
  split_ifs with heq
  · subst heq
    simp
  · simp [heq]

theorem edge_derive (inputs : List (String × String)) (snapshot : Snapshot) (identity : String) :
    (inputs.foldl (fun next parent ↦ next.derive identity parent.1) snapshot).Edge =
      AddEdges snapshot.Edge identity (inputs.map Prod.fst) := by
  induction inputs generalizing snapshot with
  | nil =>
    funext first second
    simp [AddEdges]
  | cons parent inputs ih =>
    rw [List.foldl_cons, ih]
    funext first second
    apply propext
    unfold AddEdges Snapshot.Edge Snapshot.derive
    rw [mem_neighbors_insertGroup, List.map_cons, List.mem_cons]
    tauto

theorem edge_add_of_not_attestation (snapshot : Snapshot) (h : ∀ statement, event ≠ .attestation statement) :
    (snapshot.add event).Edge = snapshot.Edge := by
  cases event with
  | attestation statement => exact absurd rfl (h statement)
  | review identity receipt contentHash => rfl
  | corroboration identity supporters rootOrigins contentHash => rfl
  | taint identity reason => rfl

theorem edge_append_attestation (journal : List Event) (statement : Statement) :
    Edge (journal ++ [.attestation statement]) =
      AddEdges (Edge journal) statement.id (statement.inputs.map Prod.fst) := by
  unfold Edge
  rw [List.foldl_append, List.foldl_cons, List.foldl_nil]
  exact edge_derive statement.inputs _ statement.id

theorem edge_append_of_not_attestation (journal : List Event) (h : ∀ statement, event ≠ .attestation statement) :
    Edge (journal ++ [event]) = Edge journal := by
  unfold Edge
  rw [List.foldl_append, List.foldl_cons, List.foldl_nil, edge_add_of_not_attestation _ h]

/-- A snapshot with another count and tip. -/
def Snapshot.stamp (snapshot : Snapshot) (count : ℕ) (tip : String) : Snapshot :=
  { snapshot with count := count, tip := tip }

theorem derive_stamp (inputs : List (String × String)) (snapshot : Snapshot) (identity : String) (count : ℕ)
    (tip : String) :
    inputs.foldl (fun next parent ↦ next.derive identity parent.1) (snapshot.stamp count tip) =
      (inputs.foldl (fun next parent ↦ next.derive identity parent.1) snapshot).stamp count tip := by
  induction inputs generalizing snapshot with
  | nil => rfl
  | cons parent inputs ih =>
    rw [List.foldl_cons, List.foldl_cons]
    exact ih (snapshot.derive identity parent.1)

theorem foldl_add_stamp (rows : List Event) (snapshot : Snapshot) (count : ℕ) (tip : String) :
    rows.foldl Snapshot.add (snapshot.stamp count tip) = (rows.foldl Snapshot.add snapshot).stamp count tip := by
  induction rows generalizing snapshot with
  | nil => rfl
  | cons event rows ih =>
    have hadd : (snapshot.stamp count tip).add event = (snapshot.add event).stamp count tip := by
      cases event with
      | attestation statement =>
        exact derive_stamp statement.inputs
          { snapshot with objects := putObject snapshot.objects statement } statement.id count tip
      | review identity receipt contentHash => rfl
      | corroboration identity supporters rootOrigins contentHash => rfl
      | taint identity reason => rfl
    rw [List.foldl_cons, List.foldl_cons, hadd, ih]

/-- The snapshot of a journal. -/
def snapshotOf (authority : Authority) (journal : List Event) : Snapshot :=
  Snapshot.empty.follow authority journal

theorem snapshotOf_eq (authority : Authority) (journal : List Event) :
    snapshotOf authority journal =
      (journal.foldl Snapshot.add .empty).stamp journal.length (authority.tip journal) := rfl

theorem edge_snapshotOf (authority : Authority) (journal : List Event) :
    (snapshotOf authority journal).Edge = Edge journal := rfl

/-- A snapshot that was kept is the one of the first rows of the journal. -/
def Kept (authority : Authority) (journal : List Event) (snapshot : Snapshot) : Prop :=
  ∃ rows rest, journal = rows ++ rest ∧ snapshot = snapshotOf authority rows

theorem kept_snapshotOf (authority : Authority) (journal : List Event) :
    Kept authority journal (snapshotOf authority journal) := ⟨journal, [], (List.append_nil _).symm, rfl⟩

theorem Kept.append {authority : Authority} {journal : List Event} {snapshot : Snapshot}
    (h : Kept authority journal snapshot) (others : List Event) :
    Kept authority (journal ++ others) snapshot := by
  obtain ⟨rows, rest, rfl, heq⟩ := h
  exact ⟨rows, rest ++ others, List.append_assoc _ _ _, heq⟩

theorem follow_snapshotOf (authority : Authority) (rows rest : List Event) :
    (snapshotOf authority rows).follow authority (rows ++ rest) = snapshotOf authority (rows ++ rest) := by
  unfold Snapshot.follow
  have hcount : (snapshotOf authority rows).count = rows.length := rfl
  rw [hcount, List.drop_left, snapshotOf_eq, foldl_add_stamp, ← List.foldl_append]
  rfl

theorem refresh_eq {authority : Authority} {journal : List Event} {cached : Option Snapshot}
    (h : ∀ snapshot, cached = some snapshot → Kept authority journal snapshot) :
    refresh authority cached journal = snapshotOf authority journal := by
  unfold refresh
  cases cached with
  | none => rfl
  | some snapshot =>
    obtain ⟨rows, rest, rfl, rfl⟩ := h snapshot rfl
    dsimp only
    split_ifs with hcurrent houtdated
    · have hlength : rows.length = (rows ++ rest).length := hcurrent.1
      rw [List.length_append, Nat.left_eq_add, List.length_eq_zero_iff] at hlength
      rw [hlength, List.append_nil]
    · rfl
    · exact follow_snapshotOf authority rows rest

theorem mem_ancestors_iff {other : String} {found : List String} (h : snapshot.ancestors identity = .ok found) :
    other ∈ found ↔ ReflTransGen snapshot.Edge identity other ∧ other ≠ identity := by
  unfold Snapshot.ancestors walk at h
  rw [Py.bind_eq_ok_iff] at h
  obtain ⟨_, -, h⟩ := h
  cases hsearch : search (neighbors snapshot.up) 2000 [identity] [identity] with
  | none => simp [hsearch] at h
  | some seen =>
    rw [hsearch, Option.elim_some, Except.ok.injEq] at h
    rw [← h, mem_sortBy, List.mem_filter, decide_eq_true_eq, mem_search_iff hsearch]
    rfl

theorem not_reaches_of_checkInputs {request : Request} {inputs : List String}
    (h : checkInputs snapshot request = .ok (identity, inputs)) :
    ∀ parent ∈ inputs, ¬ReflTransGen snapshot.Edge parent identity := by
  simp only [checkInputs, Py.bind_eq_ok_iff, Py.require_eq_ok_iff, Py.pure_eq_ok, Except.ok.injEq,
    decide_eq_true_eq, Prod.mk.injEq] at h
  obtain ⟨found, -, _, -, items, -, _, hself, cyclic, hcyclic, _, hacyclic, rfl, rfl⟩ := h
  rw [Bool.not_eq_true'] at hacyclic
  subst hacyclic
  intro parent hparent hpath
  have hchecked := Py.any_eq_ok_false_iff.mp hcyclic parent hparent
  simp only [Py.bind_eq_ok_iff, Except.ok.injEq, decide_eq_false_iff_not] at hchecked
  obtain ⟨ancestors, hancestors, hnot⟩ := hchecked
  refine hnot ((mem_ancestors_iff hancestors).mpr ⟨hpath, ?_⟩)
  rintro rfl
  exact hself hparent

theorem seal_eq_ok {runtime : Runtime} {result : Statement} (h : statement.seal runtime = .ok result) :
    result.id = statement.id ∧ result.inputs = statement.inputs := by
  simp only [Statement.seal, Py.bind_eq_ok_iff, Py.pure_eq_ok, Except.ok.injEq] at h
  obtain ⟨_, -, rfl⟩ := h
  exact ⟨rfl, rfl⟩

theorem not_reaches_of_attestation {authority : Authority} {request : Request} {context : Context}
    (h : attestation authority snapshot request context = .ok statement) :
    ∀ parent ∈ statement.inputs.map Prod.fst, ¬ReflTransGen snapshot.Edge parent statement.id := by
  simp only [attestation, Py.bind_eq_ok_iff] at h
  obtain ⟨_, -, ⟨identity, inputs⟩, hinputs, level, -, roots, -, operation, -, modelId, -, actor, -,
    contentHash, -, scopes, -, _, -, hseal⟩ := h
  obtain ⟨hid, hparents⟩ := seal_eq_ok hseal
  rw [hid, hparents, List.map_map, Function.comp_def, List.map_id']
  exact not_reaches_of_checkInputs hinputs

/-- A call of `commit_prepared` that publishes a statement. -/
def Publishes (authority : Authority) (world : World) (action : Action) (statement : Statement) : Prop :=
  ∃ signature, action = .commitPrepared ⟨statement, signature⟩ ∧
    commitPrepared authority world.journal ⟨statement, signature⟩ =
      .ok (world.journal ++ [.attestation statement])

/-- An input of a statement is the object itself or was derived from it. -/
def Closes (world : World) (statement : Statement) : Prop :=
  ∃ parent ∈ statement.inputs.map Prod.fst, ReflTransGen (Edge world.journal) parent statement.id

/-- The kept snapshots are those of the first rows of the journal. -/
def Current (authority : Authority) (world : World) : Prop :=
  ∀ process snapshot, world.caches process = some snapshot → Kept authority world.journal snapshot

theorem Current.snapshot_eq {authority : Authority} (h : Current authority world) (process : ℕ) :
    world.snapshot authority process = snapshotOf authority world.journal :=
  refresh_eq (h process)

theorem Current.keep {authority : Authority} (h : Current authority world) (process : ℕ) :
    Current authority (world.keep authority process) := by
  intro other snapshot hsnapshot
  change Function.update world.caches process _ other = some snapshot at hsnapshot
  rw [Function.update_apply, h.snapshot_eq process] at hsnapshot
  split_ifs at hsnapshot with heq
  · cases hsnapshot
    exact kept_snapshotOf authority world.journal
  · exact h other snapshot hsnapshot

variable {journal : List Event} {action : Action}

theorem append_eq_ok {authority : Authority} {rows : List Event} (h : append authority journal event = .ok rows) :
    rows = journal ++ [event] := by
  simp only [append, Py.bind_eq_ok_iff, Py.pure_eq_ok, Except.ok.injEq] at h
  obtain ⟨_, -, _, -, rfl⟩ := h
  rfl

/-- What a call does to the journal. -/
inductive Moved (authority : Authority) (world : World) (action : Action) (journal : List Event) : Prop
  | kept (heq : journal = world.journal) (hquiet : ∀ statement, ¬Publishes authority world action statement)
  | attested (snapshot : Snapshot) (request : Request) (context : Context) (statement : Statement)
      (hsnapshot : Current authority world → snapshot = snapshotOf authority world.journal)
      (hstatement : attestation authority snapshot request context = .ok statement)
      (heq : journal = world.journal ++ [.attestation statement])
      (hquiet : ∀ statement, ¬Publishes authority world action statement)
  | published (statement : Statement) (hpublishes : Publishes authority world action statement)
      (heq : journal = world.journal ++ [.attestation statement])
  | noted (event : Event) (hevent : ∀ statement, event ≠ .attestation statement)
      (heq : journal = world.journal ++ [event])
      (hquiet : ∀ statement, ¬Publishes authority world action statement)

theorem Publishes.unique {authority : Authority} {first second : Statement}
    (hfirst : Publishes authority world action first) (hsecond : Publishes authority world action second) :
    first = second := by
  obtain ⟨signature, rfl, -⟩ := hfirst
  obtain ⟨other, heq, -⟩ := hsecond
  cases heq
  rfl

theorem noted_of_append {authority : Authority} (h : append authority world.journal event = .ok journal)
    (hevent : ∀ statement, event ≠ .attestation statement)
    (hquiet : ∀ statement, ¬Publishes authority world action statement) :
    Moved authority world action journal := .noted event hevent (append_eq_ok h) hquiet

theorem moved_of_taint {authority : Authority} {reason : String}
    (h : taint authority (world.seen authority seen) world.journal identity reason = .ok journal)
    (hquiet : ∀ statement, ¬Publishes authority world (.taint seen identity reason) statement) :
    Moved authority world (.taint seen identity reason) journal := by
  simp only [taint, Py.bind_eq_ok_iff] at h
  obtain ⟨_, -, h⟩ := h
  split_ifs at h
  · cases h
    exact .kept rfl hquiet
  · rw [Py.bind_eq_ok_iff] at h
    obtain ⟨_, -, h⟩ := h
    exact noted_of_append h (fun _ ↦ Event.noConfusion) hquiet

theorem moved_of_corroborate {authority : Authority} {quorum : Quorum}
    (h : corroborate authority (world.seen authority seen) world.journal quorum = .ok journal)
    (hquiet : ∀ statement, ¬Publishes authority world (.corroborate seen quorum) statement) :
    Moved authority world (.corroborate seen quorum) journal := by
  simp only [corroborate, Py.bind_eq_ok_iff] at h
  obtain ⟨_, -, _, -, _, -, h⟩ := h
  split at h
  · cases h
  · rw [Py.bind_eq_ok_iff] at h
    obtain ⟨_, -, h⟩ := h
    exact noted_of_append h (fun _ ↦ Event.noConfusion) hquiet

theorem moved_of_review {authority : Authority} {given : Review}
    (h : review authority (world.seen authority seen) world.journal given = .ok journal)
    (hquiet : ∀ statement, ¬Publishes authority world (.review seen given) statement) :
    Moved authority world (.review seen given) journal := by
  simp only [review, Py.bind_eq_ok_iff] at h
  obtain ⟨_, -, _, -, h⟩ := h
  split at h
  · cases h
    exact .kept rfl hquiet
  · exact noted_of_append h (fun _ ↦ Event.noConfusion) hquiet

theorem moved_of_commitPrepared {authority : Authority} {signed : Signed}
    (h : commitPrepared authority world.journal signed = .ok journal) :
    Moved authority world (.commitPrepared signed) journal := by
  have hwhole := h
  simp only [commitPrepared, Py.bind_eq_ok_iff] at h
  obtain ⟨_, -, _, -, _, -, h⟩ := h
  split_ifs at h
  · cases h
    refine .kept rfl ?_
    rintro statement ⟨signature, heq, hpublished⟩
    cases heq
    rw [hpublished, Except.ok.injEq] at hwhole
    exact absurd (congrArg List.length hwhole) (by simp)
  · have heq := append_eq_ok h
    subst heq
    exact .published signed.statement ⟨signed.signature, rfl, hwhole⟩ rfl

theorem moved_of_step {authority : Authority} (h : step authority world action = .ok next) :
    Moved authority world action next.journal := by
  cases action with
  | attest process request context =>
    simp only [step, Py.bind_eq_ok_iff, Py.pure_eq_ok, Except.ok.injEq] at h
    obtain ⟨statement, hstatement, journal, hjournal, rfl⟩ := h
    refine .attested _ request context statement (fun hcurrent ↦ hcurrent.snapshot_eq process) hstatement
      (append_eq_ok hjournal) ?_
    rintro other ⟨signature, heq, -⟩
    cases heq
  | prepare process request context =>
    simp only [step, Py.bind_eq_ok_iff, Py.pure_eq_ok, Except.ok.injEq] at h
    obtain ⟨signed, -, rfl⟩ := h
    refine .kept rfl ?_
    rintro other ⟨signature, heq, -⟩
    cases heq
  | commitPrepared signed =>
    simp only [step, Py.bind_eq_ok_iff, Py.pure_eq_ok, Except.ok.injEq] at h
    obtain ⟨journal, hjournal, rfl⟩ := h
    exact moved_of_commitPrepared hjournal
  | taint seen identity reason =>
    simp only [step, Py.bind_eq_ok_iff, Py.pure_eq_ok, Except.ok.injEq] at h
    obtain ⟨journal, hjournal, rfl⟩ := h
    refine moved_of_taint hjournal ?_
    rintro other ⟨signature, heq, -⟩
    cases heq
  | corroborate seen quorum =>
    simp only [step, Py.bind_eq_ok_iff, Py.pure_eq_ok, Except.ok.injEq] at h
    obtain ⟨journal, hjournal, rfl⟩ := h
    refine moved_of_corroborate hjournal ?_
    rintro other ⟨signature, heq, -⟩
    cases heq
  | review seen given =>
    simp only [step, Py.bind_eq_ok_iff, Py.pure_eq_ok, Except.ok.injEq] at h
    obtain ⟨journal, hjournal, rfl⟩ := h
    refine moved_of_review hjournal ?_
    rintro other ⟨signature, heq, -⟩
    cases heq
  | read process =>
    cases h
    refine .kept rfl ?_
    rintro other ⟨signature, heq, -⟩
    cases heq

theorem moved_perform (authority : Authority) (world : World) (action : Action) :
    Moved authority world action (perform (step authority) world action).journal := by
  unfold perform
  cases h : step authority world action with
  | ok next => exact moved_of_step h
  | error error =>
    refine .kept rfl ?_
    rintro statement ⟨signature, rfl, hpublished⟩
    rw [step, hpublished] at h
    cases h

theorem Moved.extends {authority : Authority} (h : Moved authority world action journal) :
    ∃ rows, journal = world.journal ++ rows := by
  cases h with
  | kept heq hquiet => exact ⟨[], heq.trans (List.append_nil _).symm⟩
  | attested snapshot request context statement hsnapshot hstatement heq hquiet => exact ⟨_, heq⟩
  | published statement hpublishes heq => exact ⟨_, heq⟩
  | noted event hevent heq hquiet => exact ⟨_, heq⟩

theorem Current.kept_caches {authority : Authority} (h : Current authority world)
    (hstep : step authority world action = .ok next) :
    ∀ process snapshot, next.caches process = some snapshot → Kept authority world.journal snapshot := by
  cases action with
  | attest process request context =>
    simp only [step, Py.bind_eq_ok_iff, Py.pure_eq_ok, Except.ok.injEq] at hstep
    obtain ⟨statement, -, journal, -, rfl⟩ := hstep
    exact h.keep process
  | prepare process request context =>
    simp only [step, Py.bind_eq_ok_iff, Py.pure_eq_ok, Except.ok.injEq] at hstep
    obtain ⟨signed, -, rfl⟩ := hstep
    exact h.keep process
  | read process =>
    cases hstep
    exact h.keep process
  | _ =>
    simp only [step, Py.bind_eq_ok_iff, Py.pure_eq_ok, Except.ok.injEq] at hstep
    obtain ⟨journal, -, rfl⟩ := hstep
    exact h

theorem Current.step {authority : Authority} (h : Current authority world)
    (hstep : step authority world action = .ok next) :
    Current authority next := by
  obtain ⟨rows, hrows⟩ := (moved_of_step hstep).extends
  intro process snapshot hsnapshot
  rw [hrows]
  exact (h.kept_caches hstep process snapshot hsnapshot).append rows

theorem current_run (authority : Authority) (actions : List Action) :
    Current authority (run (Lineage.step authority) .initial actions) := by
  refine run_invariant (fun world action next h hstep ↦ h.step hstep) ?_ actions
  rintro process snapshot ⟨⟩

theorem acyclic_perform_iff {authority : Authority} (h : Current authority world) (action : Action) :
    Acyclic (Edge (perform (step authority) world action).journal) ↔ Acyclic (Edge world.journal) ∧
        ∀ statement, Publishes authority world action statement → ¬Closes world statement := by
  cases moved_perform authority world action with
  | kept heq hquiet =>
    rw [heq]
    exact ⟨fun hacyclic ↦ ⟨hacyclic, fun statement hpublishes ↦ absurd hpublishes (hquiet statement)⟩, And.left⟩
  | attested snapshot request context statement hsnapshot hstatement heq hquiet =>
    have hreaches := not_reaches_of_attestation hstatement
    rw [hsnapshot h, edge_snapshotOf] at hreaches
    rw [heq, edge_append_attestation, acyclic_addEdges_iff]
    constructor
    · rintro ⟨hacyclic, -⟩
      exact ⟨hacyclic, fun statement hpublishes ↦ absurd hpublishes (hquiet statement)⟩
    · rintro ⟨hacyclic, -⟩
      exact ⟨hacyclic, hreaches⟩
  | published statement hpublishes heq =>
    rw [heq, edge_append_attestation, acyclic_addEdges_iff]
    refine and_congr_right fun _ ↦ ?_
    constructor
    · rintro hreaches other hother ⟨parent, hparent, hpath⟩
      rw [hother.unique hpublishes] at hparent hpath
      exact hreaches parent hparent hpath
    · intro hcloses parent hparent hpath
      exact hcloses statement hpublishes ⟨parent, hparent, hpath⟩
  | noted event hevent heq hquiet =>
    rw [heq, edge_append_of_not_attestation _ hevent]
    exact ⟨fun hacyclic ↦ ⟨hacyclic, fun statement hpublishes ↦ absurd hpublishes (hquiet statement)⟩, And.left⟩

theorem acyclic_run_iff (authority : Authority) (actions : List Action) :
    Acyclic (Edge (run (step authority) .initial actions).journal) ↔
      ∀ before action after statement, actions = before ++ action :: after →
        Publishes authority (run (step authority) .initial before) action statement →
        ¬Closes (run (step authority) .initial before) statement := by
  induction actions using List.reverseRecOn with
  | nil =>
    refine iff_of_true ?_ ?_
    · intro node hcycle
      obtain ⟨next, hedge, -⟩ := TransGen.head'_iff.mp hcycle
      exact absurd hedge List.not_mem_nil
    · intro before action after statement heq
      exact absurd heq (by simp)
  | append_singleton actions action ih =>
    rw [run_append, run_cons, run_nil, acyclic_perform_iff (current_run authority actions), ih]
    constructor
    · rintro ⟨hbefore, hlast⟩ before other after statement heq
      cases after using List.reverseRecOn with
      | nil =>
        obtain ⟨rfl, hlast'⟩ := List.append_inj' heq rfl
        cases hlast'
        exact hlast statement
      | append_singleton after last =>
        rw [← List.cons_append, ← List.append_assoc] at heq
        exact hbefore before other after statement (List.append_inj' heq rfl).1
    · intro hall
      refine ⟨?_, ?_⟩
      · intro before other after statement heq
        apply hall before other (after ++ [action]) statement
        rw [heq, List.append_assoc, List.cons_append]
      · intro statement
        exact hall actions action [] statement rfl

/-- The lineage is acyclic exactly when no call has published an ancestor of its own inputs. -/
theorem lineage_acyclic_iff (authority : Authority) (actions : List Action) :
    (∀ process, Acyclic ((run (step authority) .initial actions).snapshot authority process).Edge) ↔
      ∀ before action after statement, actions = before ++ action :: after →
        Publishes authority (run (step authority) .initial before) action statement →
        ¬Closes (run (step authority) .initial before) statement := by
  rw [← acyclic_run_iff]
  have hsnapshot : ∀ process, ((run (step authority) .initial actions).snapshot authority process).Edge =
      Edge (run (step authority) .initial actions).journal := by
    intro process
    rw [(current_run authority actions).snapshot_eq process, edge_snapshotOf]
  constructor
  · intro h
    rw [← hsnapshot 0]
    exact h 0
  · intro h process
    rw [hsnapshot process]
    exact h

namespace Sample

def authority : Authority where
  runtime :=
    { sha256 := fun bytes ↦ toString bytes.length
      hmacSha256 := fun _ _ ↦ ""
      ed25519PublicBytes := fun key ↦ key
      ed25519Sign := fun _ _ ↦ ""
      ed25519Verify := fun _ _ _ ↦ true
      jsonLoads := fun _ ↦ none
      retainedSize := fun _ ↦ 0 }
  authentic _ _ := true
  sign _ := ""
  verify _ _ := true
  tip journal := toString journal.length
  recordedAt _ := "2026-01-01T00:00:00+00:00"

def request (identity input operation : String) : Request where
  record := [("id", .str identity)]
  receipt := [("principal", .str "alice"), ("authority", .str "user")]
  inputs := [input]
  operation := operation
  modelId := "unspecified"
  promptHash := ""

def context : Context := ⟨"2026-01-01T00:00:00+00:00", none, none⟩

def preparations : List Action :=
  [.prepare 0 (request "a" "b" "runtime-record") context, .prepare 0 (request "b" "a" "summary") context]

def actions : List Action :=
  preparations ++ (run (step authority) .initial preparations).prepared.map .commitPrepared

end Sample

/-- The two statements close a cycle. -/
theorem prepared_cycle :
    ¬Acyclic ((run (step Sample.authority) .initial Sample.actions).snapshot Sample.authority 0).Edge := by
  intro h
  have hedges : ((run (step Sample.authority) .initial Sample.actions).snapshot Sample.authority 0).Edge "a" "b" ∧
      ((run (step Sample.authority) .initial Sample.actions).snapshot Sample.authority 0).Edge "b" "a" := by
    unfold Snapshot.Edge
    decide +kernel
  exact h "a" (.tail (.single hedges.1) hedges.2)

end UniMem.Lineage
