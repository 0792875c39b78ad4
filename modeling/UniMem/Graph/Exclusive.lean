import UniMem.Graph.Edges
import UniMem.Library.Transitions

/-!
# One value at a time

The edges of an exclusive relation with one source and different targets are never valid together, and every edge
ends when the next one starts, whatever order they arrive in.
-/

namespace UniMem.Graph

open Library

variable {onto : Ontology} {store next : Store} {call : Assertion} {key : Key} {edges : List Edge}
  {edge newEdge : Edge} {now moment : ℤ} {relation : String}

/-- When the edge is valid: from `valid_at` on and before `invalid_at`. -/
def Edge.interval (edge : Edge) : Set ℤ := {moment | edge.validAt ≤ moment ∧ edge.OpenAt moment}

/-- Edges of a relation with one source and different targets are not valid together. -/
def OneAtATime (relation : String) (edges : List Edge) : Prop :=
  ∀ first ∈ edges, ∀ second ∈ edges, first.relation = relation → second.relation = relation →
    first.source = second.source → first.target ≠ second.target → Disjoint first.interval second.interval

/-- A call of `add_edge` at a time. -/
def assertAt (onto : Ontology) (store : Store) (action : Assertion × ℤ) : Py Store :=
  Prod.fst <$> addEdge onto store action.1 action.2

variable {action : Assertion × ℤ} {first second : Edge}

theorem assertAt_eq_ok (h : assertAt onto store action = .ok next) :
    ∃ edge, addEdge onto store action.1 action.2 = .ok (next, edge) := by
  unfold assertAt at h
  cases hadd : addEdge onto store action.1 action.2 with
  | error error =>
    rw [hadd] at h
    cases h
  | ok result =>
    rw [hadd] at h
    obtain rfl := Except.ok.inj h
    exact ⟨result.2, rfl⟩

/-- The same edge, which may have ended earlier. -/
structure Shortened (first second : Edge) : Prop extends SameStart first second where
  openAt : ∀ moment, first.validAt ≤ moment → second.OpenAt moment → first.OpenAt moment

theorem Shortened.interval_subset (h : Shortened first second) :
    second.interval ⊆ first.interval := by
  intro moment hmoment
  have hstart : first.validAt ≤ moment := h.validAt ▸ hmoment.1
  exact ⟨hstart, h.openAt moment hstart hmoment.2⟩

theorem Shortened.refl (edge : Edge) : Shortened edge edge := ⟨⟨rfl, rfl, rfl, rfl, rfl⟩, fun _ _ h ↦ h⟩

theorem Shortened.trans {third : Edge} (h : Shortened first second) (h' : Shortened second third) :
    Shortened first third := by
  refine ⟨⟨h'.source.trans h.source, h'.target.trans h.target, h'.relation.trans h.relation,
    h'.validAt.trans h.validAt, h'.createdAt.trans h.createdAt⟩, fun moment hstart hopen ↦
      h.openAt moment hstart (h'.openAt moment ?_ hopen)⟩
  rwa [h.validAt]

theorem shortened_close {recorded : ℤ} {reason : String} (h : ∀ stop, edge.invalidAt = some stop → moment ≤ stop) :
    Shortened edge (edge.close moment recorded reason) :=
  ⟨⟨rfl, rfl, rfl, rfl, rfl⟩, fun _ _ hopen stop hstop ↦ (hopen moment rfl).trans_le (h stop hstop)⟩

theorem shortened_closeRestated (key : Key) (validAt now : ℤ) (edge : Edge) :
    Shortened edge (closeRestated key validAt now edge) := by
  unfold closeRestated
  split_ifs with h
  · refine shortened_close fun stop hstop ↦ ?_
    rw [h.2] at hstop
    cases hstop
  · exact .refl edge

theorem shortened_supersede (now : ℤ) (newEdge edge : Edge) : Shortened edge (supersede now newEdge edge) := by
  unfold supersede
  split_ifs with h
  · refine shortened_close fun stop hstop ↦ ?_
    have hopen := h.2.2
    rw [hstop] at hopen
    exact (of_decide_eq_true hopen).le
  · exact .refl edge

theorem shortened_restate (weight : ℚ) (properties : Properties) (edge : Edge) :
    Shortened edge (edge.restate weight properties) :=
  ⟨⟨rfl, rfl, rfl, rfl, rfl⟩, fun _ _ h ↦ h⟩

theorem closeRestated_of_ne (validAt : ℤ) (h : edge.key ≠ key) : closeRestated key validAt now edge = edge :=
  if_neg fun hboth ↦ h hboth.1

theorem disjoint_supersede (hmem : edge ∈ edges) (hcompetes : Competes newEdge edge) :
    Disjoint (supersede now newEdge edge).interval (resolveExclusive now edges newEdge).2.interval := by
  have hsame := resolveExclusive_snd now edges newEdge
  rw [Set.disjoint_left]
  rintro moment ⟨hstart, hopen⟩ ⟨hnewStart, hnewOpen⟩
  rw [hsame.validAt] at hnewStart
  rw [openAt_resolveExclusive] at hnewOpen
  by_cases hovertaken : Overtaken newEdge edge
  · rw [supersede, if_pos ⟨hcompetes, hovertaken⟩] at hopen
    exact absurd (hopen newEdge.validAt rfl) (not_lt.mpr hnewStart)
  · rw [supersede, if_neg fun h ↦ hovertaken h.2] at hstart hopen
    by_cases hlater : newEdge.validAt < edge.validAt
    · exact absurd (hnewOpen.2 edge hmem hcompetes hlater) (not_lt.mpr hstart)
    · cases hstop : edge.invalidAt with
      | none => exact hovertaken ⟨not_lt.mp hlater, by rw [hstop]; rfl⟩
      | some stop =>
        have hlate : newEdge.validAt < stop := hnewStart.trans_lt (hopen stop hstop)
        exact hovertaken ⟨not_lt.mp hlater, by rw [hstop]; exact decide_eq_true hlate⟩

theorem insertEdge_eq (now : ℤ) (exclusive : Bool) (newEdge : Edge) (edges : List Edge) :
    insertEdge now exclusive newEdge edges =
      (let stored := edges.map (closeRestated newEdge.key newEdge.validAt now)
       let added := if exclusive then (resolveExclusive now stored newEdge).2 else newEdge
       ((if exclusive then stored.map (supersede now newEdge) else stored) ++ [added], added)) := by
  unfold insertEdge
  cases exclusive with
  | true => simp only [if_true, resolveExclusive_fst]
  | false => rfl

theorem mem_addEdge (h : addEdge onto store call now = .ok (next, edge)) (hmem : newEdge ∈ next.edges) :
    (∃ stored ∈ store.edges, Shortened stored newEdge) ∨
      ∃ rel, onto.relation call.relation = .ok rel ∧ newEdge.relation = onto.storedName rel ∧
        (rel.exclusive = true → ∀ other ∈ next.edges, Competes newEdge other →
          Disjoint other.interval newEdge.interval) := by
  obtain ⟨-, rel, problems, hrel, -, hedges⟩ := addEdge_eq_ok_iff.mp h
  obtain ⟨place, found, hlatest, -, heq⟩ | ⟨-, heq⟩ :=
    assertEdge_cases store.edges call rel (call.storedKey onto rel) (call.warned problems) now
  · rw [heq] at hedges
    rw [← (Prod.mk.inj hedges).1] at hmem
    rcases List.mem_or_eq_of_mem_set hmem with hstored | rfl
    · exact .inl ⟨newEdge, hstored, .refl newEdge⟩
    · exact .inl ⟨found, List.mem_of_getElem? (latest_eq_some hlatest).1, shortened_restate _ _ _⟩
  · rw [heq, insertEdge_eq] at hedges
    generalize hfresh : call.edge (call.storedKey onto rel) (call.warned problems) now = fresh at hedges
    have hrelation : fresh.relation = onto.storedName rel := by
      rw [← hfresh]
      rfl
    have hends : ∀ stored ∈ store.edges,
        Shortened stored (closeRestated fresh.key fresh.validAt now stored) := fun stored _ ↦
      shortened_closeRestated _ _ _ _
    cases hexclusive : rel.exclusive with
    | false =>
      rw [hexclusive] at hedges
      simp only [Bool.false_eq_true, if_false] at hedges
      rw [← (Prod.mk.inj hedges).1] at hmem
      rcases List.mem_append.mp hmem with hstored | hnew
      · obtain ⟨first, hfirst, rfl⟩ := List.mem_map.mp hstored
        exact .inl ⟨first, hfirst, hends first hfirst⟩
      · obtain rfl := List.mem_singleton.mp hnew
        exact .inr ⟨rel, hrel, hrelation, fun h ↦ by rw [hexclusive] at h; cases h⟩
    | true =>
      rw [hexclusive] at hedges
      simp only [if_true] at hedges
      generalize hstoredEdges : store.edges.map (closeRestated fresh.key fresh.validAt now) = stored at hedges
      have hsame := resolveExclusive_snd now stored fresh
      obtain ⟨hnext, -⟩ := Prod.mk.inj hedges
      rw [← hnext] at hmem
      rcases List.mem_append.mp hmem with hstored | hnew
      · obtain ⟨middle, hmiddle, rfl⟩ := List.mem_map.mp hstored
        rw [← hstoredEdges] at hmiddle
        obtain ⟨first, hfirst, rfl⟩ := List.mem_map.mp hmiddle
        exact .inl ⟨first, hfirst, (hends first hfirst).trans (shortened_supersede _ _ _)⟩
      · obtain rfl := List.mem_singleton.mp hnew
        refine .inr ⟨rel, hrel, hsame.relation.trans hrelation, fun _ other hother hcompetes ↦ ?_⟩
        rw [← hnext] at hother
        rcases List.mem_append.mp hother with hother | hother
        · obtain ⟨middle, hmiddle, rfl⟩ := List.mem_map.mp hother
          have hstart := (shortened_supersede now fresh middle).toSameStart
          rw [hsame.competes_iff, Competes, hstart.source, hstart.relation, hstart.target] at hcompetes
          exact disjoint_supersede hmiddle hcompetes
        · obtain rfl := List.mem_singleton.mp hother
          exact absurd rfl hcompetes.2.2

theorem OneAtATime.addEdge (h : OneAtATime relation store.edges)
    (hadd : addEdge onto store call now = .ok (next, edge))
    (hexclusive : ∀ rel, onto.relation call.relation = .ok rel → onto.storedName rel = relation →
      rel.exclusive = true) : OneAtATime relation next.edges := by
  intro first hfirst second hsecond hfirstRelation hsecondRelation hsource htarget
  rcases mem_addEdge hadd hfirst with ⟨stored, hstored, hshort⟩ | ⟨rel, hrel, hname, hdisjoint⟩
  · rcases mem_addEdge hadd hsecond with ⟨other, hother, hshort'⟩ | ⟨rel, hrel, hname, hdisjoint⟩
    · refine (h stored hstored other hother ?_ ?_ ?_ ?_).mono hshort.interval_subset hshort'.interval_subset
      · exact hshort.relation.symm.trans hfirstRelation
      · exact hshort'.relation.symm.trans hsecondRelation
      · rw [← hshort.source, hsource, hshort'.source]
      · rwa [← hshort.target, ← hshort'.target]
    · exact hdisjoint (hexclusive rel hrel (hname.symm.trans hsecondRelation)) first hfirst
        ⟨hsource, hfirstRelation.trans hsecondRelation.symm, htarget⟩
  · exact (hdisjoint (hexclusive rel hrel (hname.symm.trans hfirstRelation)) second hsecond
      ⟨hsource.symm, hsecondRelation.trans hfirstRelation.symm, htarget.symm⟩).symm

/-- Every edge ends exactly when the next edge of its source starts. -/
def Chained (edges : List Edge) : Prop :=
  ∀ edge ∈ edges, ∀ moment, edge.OpenAt moment ↔
    ∀ other ∈ edges, other.source = edge.source → edge.validAt < other.validAt → moment < other.validAt

theorem openAt_supersede (hrelation : edge.relation = newEdge.relation) (htarget : edge.target ≠ newEdge.target)
    (hstart : edge.validAt ≠ newEdge.validAt) :
    (supersede now newEdge edge).OpenAt moment ↔ edge.OpenAt moment ∧
      (newEdge.source = edge.source → edge.validAt < newEdge.validAt → moment < newEdge.validAt) := by
  unfold supersede
  by_cases hsource : edge.source = newEdge.source
  · have hcompetes : Competes newEdge edge := ⟨hsource, hrelation, htarget⟩
    by_cases hovertaken : Overtaken newEdge edge
    · rw [if_pos ⟨hcompetes, hovertaken⟩]
      have hlt : edge.validAt < newEdge.validAt := lt_of_le_of_ne hovertaken.1 hstart
      constructor
      · intro hopen
        have hbefore := hopen _ rfl
        refine ⟨fun stop hstop ↦ hbefore.trans ?_, fun _ _ ↦ hbefore⟩
        have hall := hovertaken.2
        rw [hstop] at hall
        exact of_decide_eq_true hall
      · rintro ⟨-, h⟩ stop hstop
        obtain rfl := Option.some.inj hstop
        exact h hsource.symm hlt
    · rw [if_neg fun h ↦ hovertaken h.2]
      refine (and_iff_left_of_imp fun hopen _ hlt ↦ ?_).symm
      cases hstop : edge.invalidAt with
      | none => exact absurd ⟨hlt.le, by rw [hstop]; rfl⟩ hovertaken
      | some stop =>
        have hle : stop ≤ newEdge.validAt := by
          by_contra hnot
          exact hovertaken ⟨hlt.le, by rw [hstop]; exact decide_eq_true (not_le.mp hnot)⟩
        exact (hopen stop hstop).trans_le hle
  · rw [if_neg (c := Competes newEdge edge ∧ _) fun h ↦ hsource h.1.1]
    exact (and_iff_left fun h ↦ absurd h.symm hsource).symm

theorem Chained.insert (now : ℤ) (h : Chained edges) (hrelation : ∀ edge ∈ edges, edge.relation = newEdge.relation)
    (htarget : ∀ edge ∈ edges, edge.target ≠ newEdge.target)
    (hstart : ∀ edge ∈ edges, edge.validAt ≠ newEdge.validAt) (hopen : newEdge.invalidAt = none) :
    Chained (insertEdge now true newEdge edges).1 ∧
      (insertEdge now true newEdge edges).1.map (fun edge ↦ (edge.key, edge.validAt)) =
        edges.map (fun edge ↦ (edge.key, edge.validAt)) ++ [(newEdge.key, newEdge.validAt)] := by
  have hends : edges.map (closeRestated newEdge.key newEdge.validAt now) = edges := by
    refine (List.map_congr_left fun edge hedge ↦ closeRestated_of_ne _ fun hkey ↦ ?_).trans (List.map_id _)
    exact htarget edge hedge (congrArg Key.target hkey)
  have hsame := resolveExclusive_snd now edges newEdge
  rw [insertEdge_eq, hends]
  simp only [if_true]
  constructor
  · have hstarts : ∀ property : String → ℤ → Prop,
        (∀ other ∈ edges.map (supersede now newEdge) ++ [(resolveExclusive now edges newEdge).2],
          property other.source other.validAt) ↔
        (∀ other ∈ edges, property other.source other.validAt) ∧ property newEdge.source newEdge.validAt := by
      intro property
      rw [List.forall_mem_append, List.forall_mem_map, List.forall_mem_singleton, hsame.source, hsame.validAt]
      refine and_congr_left fun _ ↦ forall₂_congr fun other _ ↦ ?_
      have hother := shortened_supersede now newEdge other
      rw [hother.source, hother.validAt]
    intro edge hedge moment
    rw [hstarts fun source start ↦ source = edge.source → edge.validAt < start → moment < start]
    rcases List.mem_append.mp hedge with hedge | hedge
    · obtain ⟨stored, hstored, rfl⟩ := List.mem_map.mp hedge
      have hother := shortened_supersede now newEdge stored
      rw [openAt_supersede (hrelation stored hstored) (htarget stored hstored) (hstart stored hstored),
        h stored hstored, hother.source, hother.validAt]
    · obtain rfl := List.mem_singleton.mp hedge
      rw [openAt_resolveExclusive, hsame.source, hsame.validAt]
      have hnew : newEdge.OpenAt moment := fun stop hstop ↦ by
        rw [hopen] at hstop
        cases hstop
      rw [and_iff_right hnew, and_iff_left fun _ hlt ↦ absurd hlt (lt_irrefl _)]
      refine forall₂_congr fun other hother ↦ ?_
      rw [Competes, and_iff_left ⟨hrelation other hother, htarget other hother⟩]
  · rw [List.map_append, List.map_map, List.map_singleton, hsame.key_eq, hsame.validAt]
    congr 1
    refine List.map_congr_left fun other _ ↦ ?_
    have hother := shortened_supersede now newEdge other
    rw [Function.comp_apply, hother.key_eq, hother.validAt]

theorem Chained.end_eq (h : Chained edges) (hmem : edge ∈ edges) :
    (edge.invalidAt = none ∧ ∀ other ∈ edges, other.source = edge.source → other.validAt ≤ edge.validAt) ∨
      ∃ stop, edge.invalidAt = some stop ∧
        IsLeast {start | ∃ other ∈ edges, other.source = edge.source ∧ other.validAt = start ∧
          edge.validAt < start} stop := by
  have hopen := h edge hmem
  cases hstop : edge.invalidAt with
  | none =>
    refine .inl ⟨rfl, fun other hother hsource ↦ ?_⟩
    by_contra hnot
    have hlt := (hopen other.validAt).mp (fun stop h ↦ by rw [hstop] at h; cases h) other hother hsource
      (not_le.mp hnot)
    exact lt_irrefl _ hlt
  | some stop =>
    have hiff : ∀ moment, edge.OpenAt moment ↔ moment < stop := by
      intro moment
      rw [Edge.OpenAt, hstop]
      exact ⟨fun h ↦ h stop rfl, fun h other hother ↦ Option.some.inj hother ▸ h⟩
    have hlower : stop ∈ lowerBounds {start | ∃ other ∈ edges, other.source = edge.source ∧
        other.validAt = start ∧ edge.validAt < start} := by
      rintro start ⟨other, hother, hsource, rfl, hlt⟩
      have hbefore := (hopen (stop - 1)).mp ((hiff _).mpr (by omega)) other hother hsource hlt
      omega
    have hclosed : ¬edge.OpenAt stop := fun h ↦ lt_irrefl _ ((hiff stop).mp h)
    rw [hopen] at hclosed
    push Not at hclosed
    obtain ⟨other, hother, hsource, hlt, hle⟩ := hclosed
    have hstart : other.validAt = stop := le_antisymm hle (hlower ⟨other, hother, hsource, rfl, hlt⟩)
    exact .inr ⟨stop, rfl, ⟨other, hother, hsource, hstart, hstart ▸ hlt⟩, hlower⟩

variable {rel : Relation} {actions others : List (Assertion × ℤ)}

/-- An assertion that the store takes: valid fields, and endpoints between which it is allowed. -/
def Accepted (onto : Ontology) (rel : Relation) (nodes : Nodes) (action : Assertion × ℤ) : Prop :=
  action.1.WellFormed onto action.2 ∧ ∃ sourceType targetType problems,
    HasType onto nodes (action.1.storedKey onto rel).source sourceType ∧
    HasType onto nodes (action.1.storedKey onto rel).target targetType ∧
    onto.checkEdge rel sourceType targetType = .ok problems

theorem assertAt_iff_accepted (hrel : onto.relation action.1.relation = .ok rel) :
    (∃ next, assertAt onto store action = .ok next) ↔ Accepted onto rel store.nodes action := by
  constructor
  · rintro ⟨next, h⟩
    obtain ⟨edge, hadd⟩ := assertAt_eq_ok h
    obtain ⟨hwellFormed, found, problems, hfound, hends, -⟩ := addEdge_eq_ok_iff.mp hadd
    obtain rfl : found = rel := Except.ok.inj (hfound.symm.trans hrel)
    obtain ⟨sourceType, targetType, hsource, htarget, hcheck⟩ := hasType_of_admitEnds hends
    exact ⟨hwellFormed, sourceType, targetType, problems, hsource, htarget, hcheck⟩
  · rintro ⟨hwellFormed, sourceType, targetType, problems, hsource, htarget, hcheck⟩
    obtain ⟨added, hends, -⟩ := admitEnds_of_hasType hsource htarget hcheck
    generalize hedges : assertEdge store.edges action.1 rel (action.1.storedKey onto rel)
      (action.1.warned problems) action.2 = result
    have hadd : addEdge onto store action.1 action.2 = .ok (⟨added, result.1⟩, result.2) :=
      addEdge_eq_ok_iff.mpr ⟨hwellFormed, rel, problems, hrel, hends, hedges⟩
    exact ⟨⟨added, result.1⟩, by rw [assertAt, hadd]; rfl⟩

theorem hasType_assertAt (h : assertAt onto store action = .ok next) (other otherType : String) :
    HasType onto next.nodes other otherType ↔ HasType onto store.nodes other otherType := by
  obtain ⟨edge, hadd⟩ := assertAt_eq_ok h
  obtain ⟨-, rel, problems, -, hends, -⟩ := addEdge_eq_ok_iff.mp hadd
  exact hasType_admitEnds hends other otherType

/-- Every call of a run returns. -/
def AllReturn (onto : Ontology) (store : Store) (actions : List (Assertion × ℤ)) : Prop :=
  Along (assertAt onto) (fun store action ↦ ∃ next, assertAt onto store action = .ok next) store actions

theorem allReturn_iff (hrel : ∀ action ∈ actions, onto.relation action.1.relation = .ok rel) :
    AllReturn onto store actions ↔ ∀ action ∈ actions, Accepted onto rel store.nodes action := by
  induction actions generalizing store with
  | nil => exact iff_of_true trivial fun action hmem ↦ absurd hmem List.not_mem_nil
  | cons action actions ih =>
    rw [List.forall_mem_cons] at hrel ⊢
    rw [AllReturn, Along, assertAt_iff_accepted hrel.1]
    refine and_congr_right fun haccepted ↦ ?_
    obtain ⟨next, hnext⟩ := (assertAt_iff_accepted hrel.1).mpr haccepted
    rw [perform_eq_of_ok hnext]
    refine (ih hrel.2).trans (forall₂_congr fun other _ ↦ ?_)
    simp only [Accepted, hasType_assertAt hnext]

/-- Different values of one exclusive relation, from explicit moments on. -/
structure Values (onto : Ontology) (rel : Relation) (actions : List (Assertion × ℤ)) : Prop where
  relation : ∀ action ∈ actions, onto.relation action.1.relation = .ok rel
  explicit : ∀ action ∈ actions, action.1.explicitValidAt.isSome = true
  unended : ∀ action ∈ actions, action.1.invalidAt = none
  targets : (actions.map fun action ↦ (action.1.storedKey onto rel).target).Nodup
  starts : (actions.map fun action ↦ action.1.explicitValidAt).Nodup

theorem Values.perm (h : Values onto rel actions) (hperm : others.Perm actions) : Values onto rel others where
  relation := fun action hmem ↦ h.relation action (hperm.mem_iff.mp hmem)
  explicit := fun action hmem ↦ h.explicit action (hperm.mem_iff.mp hmem)
  unended := fun action hmem ↦ h.unended action (hperm.mem_iff.mp hmem)
  targets := (hperm.map _).nodup_iff.mpr h.targets
  starts := (hperm.map _).nodup_iff.mpr h.starts

theorem Values.append_left (h : Values onto rel (actions ++ others)) : Values onto rel actions where
  relation := fun action hmem ↦ h.relation action (List.mem_append_left _ hmem)
  explicit := fun action hmem ↦ h.explicit action (List.mem_append_left _ hmem)
  unended := fun action hmem ↦ h.unended action (List.mem_append_left _ hmem)
  targets := (List.nodup_append.mp (List.map_append ▸ h.targets)).1
  starts := (List.nodup_append.mp (List.map_append ▸ h.starts)).1

/-- What the store holds of an assertion besides its end. -/
def factOf (onto : Ontology) (rel : Relation) (action : Assertion × ℤ) : Key × ℤ :=
  (action.1.storedKey onto rel, action.1.explicitValidAt.getD action.2)

theorem chained_run (hexclusive : rel.exclusive = true) (nodes : Nodes) (h : Values onto rel actions)
    (hreturn : AllReturn onto ⟨nodes, []⟩ actions) :
    Chained (run (assertAt onto) ⟨nodes, []⟩ actions).edges ∧
      (run (assertAt onto) ⟨nodes, []⟩ actions).edges.map (fun edge ↦ (edge.key, edge.validAt)) =
        actions.map (factOf onto rel) := by
  induction actions using List.reverseRecOn with
  | nil => exact ⟨fun edge hmem ↦ absurd hmem List.not_mem_nil, rfl⟩
  | append_singleton actions action ih =>
    obtain ⟨hbefore, hlast, -⟩ := along_append.mp hreturn
    obtain ⟨hchained, hfacts⟩ := ih h.append_left hbefore
    obtain ⟨next, hnext⟩ := hlast
    rw [run_append, run_cons, run_nil, perform_eq_of_ok hnext]
    generalize run (assertAt onto) ⟨nodes, []⟩ actions = store at hchained hfacts hnext
    obtain ⟨edge, hadd⟩ := assertAt_eq_ok hnext
    obtain ⟨-, found, problems, hfound, -, hedges⟩ := addEdge_eq_ok_iff.mp hadd
    have hmem : action ∈ actions ++ [action] := List.mem_append_right _ List.mem_cons_self
    obtain rfl : found = rel := Except.ok.inj (hfound.symm.trans (h.relation action hmem))
    obtain ⟨start, hstart⟩ := Option.isSome_iff_exists.mp (h.explicit action hmem)
    -- Every stored edge comes from an earlier assertion, of another value and another start.
    have hstored : ∀ edge ∈ store.edges, ∃ earlier ∈ actions, factOf onto found earlier =
      (edge.key, edge.validAt) := by
      intro edge hedge
      have hfact := List.mem_map_of_mem (f := fun edge : Edge ↦ (edge.key, edge.validAt)) hedge
      rw [hfacts] at hfact
      exact List.mem_map.mp hfact
    have htargets := h.targets
    have hstarts := h.starts
    rw [List.map_append, List.nodup_append] at htargets hstarts
    have hrelation : ∀ edge ∈ store.edges, edge.relation = (action.1.storedKey onto found).relation := by
      intro edge hedge
      obtain ⟨earlier, -, hfact⟩ := hstored edge hedge
      exact (congrArg (fun fact ↦ fact.1.relation) hfact).symm
    have htarget : ∀ edge ∈ store.edges, edge.target ≠ (action.1.storedKey onto found).target := by
      intro edge hedge heq
      obtain ⟨earlier, hearlier, hfact⟩ := hstored edge hedge
      refine htargets.2.2 _ (List.mem_map_of_mem hearlier) _ (List.mem_map_of_mem List.mem_cons_self) ?_
      exact (congrArg (fun fact ↦ fact.1.target) hfact).trans heq
    have hother : ∀ edge ∈ store.edges, edge.validAt ≠ start := by
      intro edge hedge heq
      obtain ⟨earlier, hearlier, hfact⟩ := hstored edge hedge
      obtain ⟨moment, hmoment⟩ := Option.isSome_iff_exists.mp
        (h.explicit earlier (List.mem_append_left _ hearlier))
      refine hstarts.2.2 _ (List.mem_map_of_mem hearlier) _ (List.mem_map_of_mem List.mem_cons_self) ?_
      have hvalid : earlier.1.explicitValidAt.getD earlier.2 = edge.validAt := congrArg Prod.snd hfact
      rw [hmoment, Option.getD_some] at hvalid
      rw [hmoment, hstart, hvalid, heq]
    obtain ⟨place, latestEdge, hlatest, -, -⟩ | ⟨-, heq⟩ := assertEdge_cases store.edges action.1 found
      (action.1.storedKey onto found) (action.1.warned problems) action.2
    · obtain ⟨hplace, hkey, -⟩ := latest_eq_some hlatest
      exact absurd (congrArg Key.target hkey) (htarget latestEdge (List.mem_of_getElem? hplace))
    · rw [heq, hexclusive] at hedges
      have hfresh : (action.1.edge (action.1.storedKey onto found) (action.1.warned problems) action.2).validAt =
          start := by
        rw [Assertion.edge, hstart, Option.getD_some]
      obtain ⟨hchain, hmap⟩ := hchained.insert action.2 hrelation htarget (hfresh ▸ hother)
        (h.unended action hmem)
      rw [← (Prod.mk.inj hedges).1]
      refine ⟨hchain, hmap.trans ?_⟩
      rw [hfacts, List.map_append, List.map_singleton]
      rfl

theorem perm_map_of_determined {α β γ : Type} {fact : α → β} {detail : α → γ} {first second : List α}
    (h : (first.map fact).Perm (second.map fact))
    (hdetermined : ∀ a ∈ first, ∀ b ∈ second, fact a = fact b → detail a = detail b) :
    (first.map detail).Perm (second.map detail) := by
  induction first generalizing second with
  | nil =>
    obtain rfl := List.map_eq_nil_iff.mp h.nil_eq.symm
    exact .nil
  | cons a first ih =>
    obtain ⟨b, hb, hfact⟩ := List.mem_map.mp (h.mem_iff.mp List.mem_cons_self)
    obtain ⟨before, after, rfl⟩ := List.append_of_mem hb
    have hsplit : (before ++ b :: after).Perm (b :: (before ++ after)) := List.perm_middle
    have hrest : (first.map fact).Perm ((before ++ after).map fact) := by
      have hall := h.trans (hsplit.map fact)
      rw [List.map_cons, List.map_cons, hfact] at hall
      exact hall.cons_inv
    refine ((ih hrest fun c hc d hd ↦ ?_).cons (detail a)).trans ?_
    · exact hdetermined c (List.mem_cons_of_mem _ hc) d (hsplit.mem_iff.mpr (List.mem_cons_of_mem _ hd))
    · rw [hdetermined a List.mem_cons_self b hb hfact.symm]
      exact (hsplit.map detail).symm

/-- The value and the interval of an edge. -/
def Edge.span (edge : Edge) : Key × ℤ × Option ℤ := (edge.key, edge.validAt, edge.invalidAt)

theorem span_perm (hchained : Chained edges) {sources : List Edge} (hsources : Chained sources)
    (h : (edges.map fun edge ↦ (edge.key, edge.validAt)).Perm (sources.map fun edge ↦ (edge.key, edge.validAt))) :
    (edges.map Edge.span).Perm (sources.map Edge.span) := by
  refine perm_map_of_determined h fun first hfirst second hsecond hfact ↦ ?_
  have hkey : first.key = second.key := congrArg Prod.fst hfact
  have hvalid : first.validAt = second.validAt := congrArg Prod.snd hfact
  have hstarts : ∀ property : String → ℤ → Prop, (∀ other ∈ edges, property other.source other.validAt) ↔
      ∀ other ∈ sources, property other.source other.validAt := by
    intro property
    have hmem : ∀ items : List Edge, (∀ fact ∈ items.map fun edge ↦ (edge.key, edge.validAt),
        property fact.1.source fact.2) ↔ ∀ other ∈ items, property other.source other.validAt :=
      fun items ↦ List.forall_mem_map
    rw [← hmem edges, ← hmem sources]
    exact ⟨fun hall fact hfact ↦ hall fact (h.mem_iff.mpr hfact), fun hall fact hfact ↦
      hall fact (h.mem_iff.mp hfact)⟩
  have hopen : ∀ moment, first.OpenAt moment ↔ second.OpenAt moment := by
    intro moment
    rw [hchained first hfirst, hsources second hsecond,
      hstarts fun source start ↦ source = first.source → first.validAt < start → moment < start,
      show first.source = second.source from congrArg Key.source hkey, hvalid]
  have hstop : first.invalidAt = second.invalidAt := by
    cases hfirstEnd : first.invalidAt with
    | none =>
      cases hsecondEnd : second.invalidAt with
      | none => rfl
      | some stop =>
        have hlt := (hopen stop).mp (fun other hother ↦ by rw [hfirstEnd] at hother; cases hother) stop hsecondEnd
        exact absurd hlt (lt_irrefl _)
    | some stop =>
      cases hsecondEnd : second.invalidAt with
      | none =>
        have hlt := (hopen stop).mpr (fun other hother ↦ by rw [hsecondEnd] at hother; cases hother) stop hfirstEnd
        exact absurd hlt (lt_irrefl _)
      | some other =>
        have hiff : ∀ moment, moment < stop ↔ moment < other := by
          intro moment
          have h := hopen moment
          rw [Edge.OpenAt, Edge.OpenAt, hfirstEnd, hsecondEnd] at h
          simpa using h
        exact congrArg some (eq_of_forall_lt_iff hiff)
  rw [Edge.span, Edge.span, hkey, hvalid, hstop]

/-- Calls of one exclusive relation leave one value valid at a time, in every order of arrival. -/
theorem exclusive_holds_one_value (onto : Ontology) (relation : String) (rel : Relation)
    (hrel : onto.relation relation = .ok rel) (hexclusive : rel.exclusive = true) :
    (∀ (store : Store) (actions : List (Assertion × ℤ)), OneAtATime (onto.storedName rel) store.edges →
      (∀ action ∈ actions, action.1.relation = relation) →
      OneAtATime (onto.storedName rel) (run (assertAt onto) store actions).edges) ∧
    ∀ (nodes : Nodes) (actions : List (Assertion × ℤ)), (∀ action ∈ actions, action.1.relation = relation) →
      (∀ action ∈ actions, action.1.explicitValidAt.isSome = true ∧ action.1.invalidAt = none) →
      (actions.map fun action ↦ (action.1.storedKey onto rel).target).Nodup →
      (actions.map fun action ↦ action.1.explicitValidAt).Nodup → AllReturn onto ⟨nodes, []⟩ actions →
      (∀ others : List (Assertion × ℤ), others.Perm actions → AllReturn onto ⟨nodes, []⟩ others ∧
        ((run (assertAt onto) ⟨nodes, []⟩ others).edges.map Edge.span).Perm
          ((run (assertAt onto) ⟨nodes, []⟩ actions).edges.map Edge.span)) ∧
      (run (assertAt onto) ⟨nodes, []⟩ actions).edges.map (fun edge ↦ (edge.key, edge.validAt)) =
        actions.map (factOf onto rel) ∧ ∀ edge ∈ (run (assertAt onto) ⟨nodes, []⟩ actions).edges,
        (edge.invalidAt = none ∧ ∀ other ∈ (run (assertAt onto) ⟨nodes, []⟩ actions).edges,
          other.source = edge.source → other.validAt ≤ edge.validAt) ∨ ∃ stop, edge.invalidAt = some stop ∧
          IsLeast {start | ∃ other ∈ (run (assertAt onto) ⟨nodes, []⟩ actions).edges,
            other.source = edge.source ∧ other.validAt = start ∧ edge.validAt < start} stop := by
  constructor
  · intro store actions h hactions
    have halong : Along (assertAt onto) (fun _ action ↦ action.1.relation = relation) store actions :=
      along_of_forall hactions
    refine @run_invariant_along _ _ _ (assertAt onto) store actions
      (fun store ↦ OneAtATime (onto.storedName rel) store.edges) _
      (fun state action next hstate haction hnext ↦ ?_) h halong
    obtain ⟨edge, hadd⟩ := assertAt_eq_ok hnext
    refine hstate.addEdge hadd fun found hfound _ ↦ ?_
    rw [haction, hrel] at hfound
    exact Except.ok.inj hfound ▸ hexclusive
  · intro nodes actions hactions hopen htargets hstarts hreturn
    have hvalues : Values onto rel actions :=
      ⟨fun action hmem ↦ (hactions action hmem).symm ▸ hrel, fun action hmem ↦ (hopen action hmem).1,
        fun action hmem ↦ (hopen action hmem).2, htargets, hstarts⟩
    obtain ⟨hchained, hfacts⟩ := chained_run hexclusive nodes hvalues hreturn
    refine ⟨fun others hperm ↦ ?_, hfacts, fun edge hedge ↦ hchained.end_eq hedge⟩
    have hothers := hvalues.perm hperm
    have hreturn' : AllReturn onto ⟨nodes, []⟩ others := (allReturn_iff hothers.relation).mpr fun action hmem ↦
      (allReturn_iff hvalues.relation).mp hreturn action (hperm.mem_iff.mp hmem)
    obtain ⟨hchained', hfacts'⟩ := chained_run hexclusive nodes hothers hreturn'
    refine ⟨hreturn', span_perm hchained' hchained ?_⟩
    rw [hfacts, hfacts']
    exact hperm.map _

namespace Sample

def ontology : Ontology where
  cleanId := id
  canonicalId := id
  relation _ := .ok ⟨"lives_in", [], [], true⟩
  isInverse _ := false
  relations := ["lives_in"]
  entityType := .ok
  entityTypes := ["concept"]
  validateProperties _ _ := .ok ()
  checkEdge _ _ _ := .ok []

def place (target : String) (start : ℤ) : Assertion × ℤ :=
  (⟨"ada", target, "lives_in", 1, some start, none, none, [], none⟩, 100)

example : (run (assertAt ontology) ⟨[], []⟩ [place "paris" 10, place "london" 5]).edges.map Edge.span =
    [(⟨"ada", "paris", "lives_in"⟩, 10, none), (⟨"ada", "london", "lives_in"⟩, 5, some 10)] := by rfl

end Sample

/-- Two places in both orders. -/
theorem exclusive_holds_one_value_pair :
    OneAtATime "lives_in"
      (run (assertAt Sample.ontology) ⟨[], []⟩ [Sample.place "paris" 10, Sample.place "london" 5]).edges ∧
    ((run (assertAt Sample.ontology) ⟨[], []⟩ [Sample.place "london" 5, Sample.place "paris" 10]).edges.map
      Edge.span).Perm
      ((run (assertAt Sample.ontology) ⟨[], []⟩ [Sample.place "paris" 10, Sample.place "london" 5]).edges.map
        Edge.span) := by
  obtain ⟨hdisjoint, horders⟩ :=
    exclusive_holds_one_value Sample.ontology "lives_in" ⟨"lives_in", [], [], true⟩ rfl rfl
  refine ⟨hdisjoint ⟨[], []⟩ _ (fun first hfirst ↦ absurd hfirst List.not_mem_nil) (by simp [Sample.place]), ?_⟩
  have hreturn : AllReturn Sample.ontology ⟨[], []⟩ [Sample.place "paris" 10, Sample.place "london" 5] :=
    ⟨⟨_, rfl⟩, ⟨_, rfl⟩, trivial⟩
  obtain ⟨hperm, -, -⟩ := horders [] [Sample.place "paris" 10, Sample.place "london" 5] (by simp [Sample.place])
    (by simp [Sample.place, Assertion.explicitValidAt]) (by decide) (by decide) hreturn
  exact (hperm _ (List.Perm.swap _ _ [])).2

end UniMem.Graph
