import UniMem.Graph.Exclusive

/-!
# The past of the graph

What `graph.forget_node`, `entities.merge` and `add_edge` do to the answers that `_is_active_edge` gives for earlier
record times. An end that was known before must not be moved or dropped.
-/

namespace UniMem.Graph

open Library

/-! ## Forgetting and merging -/

/-- What `forget_node` makes of an edge. -/
def forgetEdge (nodeId : String) (forgottenAt : Option ℤ) (invalidateEdges undo : Bool) (now : ℤ) (edge : Edge) :
    Edge :=
  if nodeId ≠ edge.source ∧ nodeId ≠ edge.target then edge
  else if undo = true ∧ forgottenAt.isSome = true ∧ edge.invalidAt = forgottenAt then
    { edge with invalidAt := none }
  else if undo = false ∧ invalidateEdges = true ∧ edge.invalidAt = none then
    { edge with invalidAt := some now }
  else edge

/-- The properties of a node that is forgotten or restored. -/
def forgetProperties (reason : String) (undo : Bool) (now : ℤ) (properties : Properties) : Properties :=
  let properties := assign "is_forgotten" (.bool !undo) properties
  if undo then assign "restored_at" (.int now) (discard "forgotten_at" (discard "forget_reason" properties))
  else assign "forgotten_at" (.int now) (assign "forget_reason" (.str reason) properties)

/-- `graph.forget_node`. -/
def forgetNode (onto : Ontology) (store : Store) (nodeId reason : String) (invalidateEdges undo : Bool)
    (now : ℤ) : Store × Option Node :=
  let cleanId := onto.cleanId nodeId
  match store.nodes.lookup cleanId with
  | none => (store, none)
  | some node =>
    let forgottenAt := momentOf (node.properties.lookup "forgotten_at")
    let node := { node with
      isForgotten := !undo
      properties := forgetProperties reason undo now node.properties }
    (⟨assign cleanId node store.nodes,
      store.edges.map (forgetEdge cleanId forgottenAt invalidateEdges undo now)⟩, some node)

/-- The aliases of an entity. -/
def aliasesOf (node : Node) : List String :=
  match node.properties.lookup "aliases" with
  | some (.arr items) => items.filterMap fun item ↦
    match item with
    | .str text => some text
    | _ => none
  | _ => []

/-- How often an entity was mentioned. -/
def mentionsOf (node : Node) : ℤ :=
  match node.properties.lookup "mentions" with
  | some (.int count) => count
  | _ => 0

/-- The call that moves an edge of the duplicate, which has just been closed. -/
def movedCall (keepId dupId : String) (edge : Edge) : Assertion where
  source := if edge.source = dupId then keepId else edge.source
  target := if edge.target = dupId then keepId else edge.target
  relation := edge.relation
  weight := edge.weight
  validAt := some edge.validAt
  invalidAt := none
  expiredAt := none
  properties := assign "merged_from" (.str dupId) edge.properties
  validFrom := none

/-- One turn of the loop of `merge`, over the place of an edge. -/
def moveEdge (onto : Ontology) (keepId dupId : String) (now : ℤ) (state : Store × ℕ) (place : ℕ) :
    Py (Store × ℕ) :=
  match state.1.edges[place]? with
  | none => .ok state
  | some edge =>
    if edge.invalidAt ≠ none ∨ dupId ≠ edge.source ∧ dupId ≠ edge.target then .ok state
    else
      let closed := edge.close now now s!"merged into {keepId}"
      let call := movedCall keepId dupId closed
      let store := { state.1 with edges := state.1.edges.set place closed }
      if call.source = call.target then .ok (store, state.2 + 1)
      else do
        let result ← addEdge onto store call now
        return (result.1, state.2 + 1)

/-- The reason on the edge that records a merge. -/
def mergeReason (evidence : Option Json) : Properties :=
  ("reason", .str "entity merge") :: (evidence.map fun value ↦ ("evidence", value)).toList

/-- The call that records a merge. -/
def supersedesCall (keepId dupId : String) (evidence : Option Json) : Assertion :=
  ⟨keepId, dupId, "supersedes", 1, none, none, none, mergeReason evidence, none⟩

/-- The nodes after the winner took the aliases and the mentions of the loser. -/
def mergedNodes (onto : Ontology) (store : Store) (keepId dupId : String) : Py Nodes :=
  match store.nodes.lookup keepId, store.nodes.lookup dupId with
  | some winner, some loser =>
    let aliases := (sortBy id (aliasesOf winner ++ aliasesOf loser ++ [loser.name]).dedup).take 40
    let mentions := mentionsOf winner + mentionsOf loser
    putNode onto store.nodes keepId winner.entityType
      [("aliases", .arr (aliases.map .str)), ("mentions", .int mentions)]
  | some _, none => .error (.valueError s!"unknown entity: {dupId}")
  | none, _ => .error (.valueError s!"unknown entity: {keepId}")

/-- `entities.merge`: the store and how many edges moved. -/
def merge (onto : Ontology) (store : Store) (keep duplicate : String) (evidence : Option Json) (now : ℤ) :
    Py (Store × ℕ) := do
  let keepId := onto.cleanId keep
  let dupId := onto.cleanId duplicate
  Py.require (keepId ≠ dupId) (.valueError "an entity cannot be merged into itself")
  let nodes ← mergedNodes onto store keepId dupId
  let (moved, count) ← (List.range store.edges.length).foldlM (moveEdge onto keepId dupId now)
    (⟨nodes, store.edges⟩, 0)
  let (recorded, _) ← addEdge onto moved (supersedesCall keepId dupId evidence) now
  let loser ← nodeOf recorded.nodes dupId
  let marks := ("merged_into", .str keepId) :: (evidence.map fun value ↦ ("merge_evidence", value)).toList
  let loser := { loser with properties := merged loser.properties marks }
  return ({ recorded with nodes := assign dupId loser recorded.nodes }, count)

/-- The operations that change edges. -/
inductive Operation where
  | addEdge (call : Assertion)
  | merge (keep duplicate : String) (evidence : Option Json)
  | forgetNode (nodeId reason : String) (invalidateEdges undo : Bool)

/-- The store after an operation that returns. -/
def Operation.apply (onto : Ontology) (store : Store) (now : ℤ) : Operation → Py Store
  | addEdge call => do
    let (store, _) ← Graph.addEdge onto store call now
    return store
  | merge keep duplicate evidence => do
    let (store, _) ← Graph.merge onto store keep duplicate evidence now
    return store
  | forgetNode nodeId reason invalidateEdges undo =>
    .ok (Graph.forgetNode onto store nodeId reason invalidateEdges undo now).1

/-! ## Answers for the past -/

variable {onto : Ontology} {store next : Store} {call : Assertion} {key : Key} {edges : List Edge}
  {edge first second third : Edge} {now moment known : ℤ} {rel : Relation}

/-- The store had learned of an end by a record time; an end without one was always known. -/
def RecordedBy (record : Option ℤ) (known : ℤ) : Prop := ∀ closed, record = some closed → closed ≤ known

/-- Two states of an edge give the same answers for every record time before `now`. -/
def SamePast (now : ℤ) (first second : Edge) : Prop :=
  ∀ moment known, known < now → isActiveEdge first (some moment) (some known) none now =
    isActiveEdge second (some moment) (some known) none now

/-- Every stored edge gives the same answers as before for the record times before `now`. -/
def KeepsPast (now : ℤ) (before after : List Edge) : Prop :=
  ∀ (place : ℕ) (first : Edge), before[place]? = some first →
    ∃ second, after[place]? = some second ∧ SamePast now first second

/-- The end of an edge shows in the past at some moment. -/
def EndShows (now : ℤ) (edge : Edge) : Prop :=
  ∃ stop, edge.invalidAt = some stop ∧ edge.createdAt < now ∧
    (∀ closed, edge.closedRecordedAt = some closed → closed < now) ∧
    ∀ expired, edge.expiredAt = some expired → max edge.validAt stop < expired

/-- A different record of the end shows in the past. -/
def RecordShows (now : ℤ) (edge : Edge) (record : Option ℤ) : Prop :=
  ∃ stop, edge.invalidAt = some stop ∧
    (∀ expired, edge.expiredAt = some expired → max edge.validAt stop < expired) ∧
    ∃ known, known < now ∧ edge.createdAt ≤ known ∧
      ¬(RecordedBy edge.closedRecordedAt known ↔ RecordedBy record known)

theorem isActiveEdge_iff :
    isActiveEdge edge (some moment) (some known) none now = true ↔ edge.createdAt ≤ known ∧ edge.validAt ≤ moment ∧
        (∀ stop, edge.expiredAt = some stop → moment < stop) ∧
        (RecordedBy edge.closedRecordedAt known → edge.OpenAt moment) := by
  have hrecorded : RecordedBy edge.closedRecordedAt known ↔ ¬edge.closedRecordedAt.any (known < ·) = true := by
    cases hclosed : edge.closedRecordedAt with
    | none => simp [RecordedBy]
    | some closed => simp [RecordedBy]
  have hends : ∀ stop : Option ℤ, (!stop.any (· ≤ moment)) = true ↔ ∀ last, stop = some last → moment < last := by
    intro stop
    cases stop with
    | none => simp
    | some last => simp
  rw [hrecorded, Edge.OpenAt]
  unfold isActiveEdge
  simp only [Option.any_some, Option.getD_some, List.all_cons, List.all_nil, Bool.and_true, decide_eq_true_eq]
  by_cases hcreated : known < edge.createdAt
  · simp [hcreated, not_le.mpr hcreated]
  · by_cases hvalid : moment < edge.validAt
    · simp [hcreated, hvalid, not_le.mpr hvalid]
    · rw [if_neg hcreated, if_neg hvalid, Bool.and_eq_true, hends, hends]
      by_cases hlate : edge.closedRecordedAt.any (known < ·) = true
      · simp [hlate, not_lt.mp hcreated, not_lt.mp hvalid]
      · simp [hlate, not_lt.mp hcreated, not_lt.mp hvalid, and_comm]

/-- Two states of an edge that differ at most in the end and in its record. -/
structure SameFrame (first second : Edge) : Prop where
  createdAt : second.createdAt = first.createdAt
  validAt : second.validAt = first.validAt
  expiredAt : second.expiredAt = first.expiredAt

/-- The record times before `now` and the moments of an edge up to its end. -/
structure Asked (now : ℤ) (edge : Edge) (moment known : ℤ) : Prop where
  known_lt : known < now
  created : edge.createdAt ≤ known
  valid : edge.validAt ≤ moment
  unexpired : ∀ stop, edge.expiredAt = some stop → moment < stop

/-- What the end of an edge answers at a record time. -/
def EndAnswers (edge : Edge) (moment known : ℤ) : Prop := RecordedBy edge.closedRecordedAt known → edge.OpenAt moment

theorem isActiveEdge_iff_endAnswers (h : Asked now edge moment known) :
    isActiveEdge edge (some moment) (some known) none now = true ↔ EndAnswers edge moment known := by
  rw [isActiveEdge_iff, and_iff_right h.created, and_iff_right h.valid, and_iff_right h.unexpired, EndAnswers]

theorem samePast_iff (h : SameFrame first second) :
    SamePast now first second ↔ ∀ moment known, Asked now first moment known →
        (EndAnswers first moment known ↔ EndAnswers second moment known) := by
  have hasked : ∀ {moment known}, Asked now first moment known → Asked now second moment known := fun hasked ↦
    ⟨hasked.known_lt, h.createdAt ▸ hasked.created, h.validAt ▸ hasked.valid, h.expiredAt ▸ hasked.unexpired⟩
  constructor
  · intro hsame moment known hfirst
    rw [← isActiveEdge_iff_endAnswers hfirst, ← isActiveEdge_iff_endAnswers (hasked hfirst),
      hsame moment known hfirst.known_lt]
  · intro hanswers moment known hknown
    rw [Bool.eq_iff_iff, isActiveEdge_iff, isActiveEdge_iff, h.createdAt, h.validAt, h.expiredAt]
    refine and_congr_right fun hcreated ↦ and_congr_right fun hvalid ↦ and_congr_right fun hexpired ↦ ?_
    exact hanswers moment known ⟨hknown, hcreated, hvalid, hexpired⟩

theorem SamePast.refl (edge : Edge) : SamePast now edge edge := fun _ _ _ ↦ rfl

theorem SamePast.trans (h : SamePast now first second) (h' : SamePast now second third) :
    SamePast now first third :=
  fun moment known hknown ↦ (h moment known hknown).trans (h' moment known hknown)

theorem SamePast.symm (h : SamePast now first second) : SamePast now second first :=
  fun moment known hknown ↦ (h moment known hknown).symm

theorem not_endShows_iff :
    ¬EndShows now edge ↔ ∀ moment known, Asked now edge moment known → EndAnswers edge moment known := by
  constructor
  · intro hhidden moment known hasked hrecorded stop hstop
    by_contra hnot
    refine hhidden ⟨stop, hstop, hasked.created.trans_lt hasked.known_lt, fun closed hclosed ↦ ?_,
      fun expired hexpired ↦ ?_⟩
    · exact (hrecorded closed hclosed).trans_lt hasked.known_lt
    · exact (max_le hasked.valid (not_lt.mp hnot)).trans_lt (hasked.unexpired expired hexpired)
  · rintro h ⟨stop, hstop, hcreated, hclosed, hexpired⟩
    have hanswer := h (max edge.validAt stop) (now - 1) ⟨by omega, by omega, le_max_left _ _, hexpired⟩
    have hlt := hanswer (fun closed hrecord ↦ by have := hclosed closed hrecord; omega) stop hstop
    exact absurd (le_max_right edge.validAt stop) (not_le.mpr hlt)

theorem samePast_iff_of_hidden (h : SameFrame first second) (hhidden : ¬EndShows now second) :
    SamePast now first second ↔ ¬EndShows now first := by
  have hsecond := not_endShows_iff.mp hhidden
  rw [samePast_iff h, not_endShows_iff]
  refine forall₂_congr fun moment known ↦ forall_congr' fun hasked ↦ iff_true_right ?_
  exact hsecond moment known ⟨hasked.known_lt, h.createdAt ▸ hasked.created, h.validAt ▸ hasked.valid,
    h.expiredAt ▸ hasked.unexpired⟩

theorem not_endShows_of_open (h : edge.invalidAt = none) : ¬EndShows now edge := by
  rintro ⟨stop, hstop, -⟩
  rw [h] at hstop
  cases hstop

theorem not_endShows_of_recorded {closed : ℤ} (h : edge.closedRecordedAt = some closed) (hle : now ≤ closed) :
    ¬EndShows now edge := by
  rintro ⟨stop, -, -, hclosed, -⟩
  exact absurd (hclosed closed h) (not_lt.mpr hle)

theorem closedRecordedAt_close (edge : Edge) (moment recorded : ℤ) (reason : String) :
    (edge.close moment recorded reason).closedRecordedAt = some recorded := by
  simp [Edge.closedRecordedAt, Edge.close, lookup_assign, momentOf]

theorem samePast_close (edge : Edge) (moment now : ℤ) (reason : String) :
    SamePast now edge (edge.close moment now reason) ↔ ¬EndShows now edge :=
  samePast_iff_of_hidden ⟨rfl, rfl, rfl⟩ (not_endShows_of_recorded (closedRecordedAt_close _ _ _ _) le_rfl)

theorem samePast_iff_of_record (h : SameFrame first second) (hend : second.invalidAt = first.invalidAt) :
    SamePast now first second ↔ ¬RecordShows now first second.closedRecordedAt := by
  have hopen : ∀ moment, second.OpenAt moment ↔ first.OpenAt moment := fun moment ↦ by
    rw [Edge.OpenAt, hend, Edge.OpenAt]
  rw [samePast_iff h]
  simp only [EndAnswers, hopen]
  constructor
  · rintro hsame ⟨stop, hstop, hexpired, known, hknown, hcreated, hrecord⟩
    have hclosed : ¬first.OpenAt (max first.validAt stop) := fun hopen ↦
      absurd (le_max_right first.validAt stop) (not_le.mpr (hopen stop hstop))
    have hiff := hsame (max first.validAt stop) known ⟨hknown, hcreated, le_max_left _ _, hexpired⟩
    exact hrecord (by simpa [hclosed, not_iff_not] using hiff)
  · intro hhidden moment known hasked
    by_cases hmoment : first.OpenAt moment
    · exact iff_of_true (fun _ ↦ hmoment) fun _ ↦ hmoment
    · refine imp_congr_left ?_
      by_contra hrecord
      rw [Edge.OpenAt] at hmoment
      push Not at hmoment
      obtain ⟨stop, hstop, hle⟩ := hmoment
      exact hhidden ⟨stop, hstop, fun expired hexpired ↦
        (max_le hasked.valid hle).trans_lt (hasked.unexpired expired hexpired), known, hasked.known_lt,
        hasked.created, hrecord⟩

/-! ## Adding an edge -/

/-- When the store learned of the end of an edge, after properties were merged into it. -/
def Edge.restatedRecord (edge : Edge) (properties : Properties) : Option ℤ :=
  momentOf ((merged edge.properties properties).lookup "closed_recorded_at")

/-- When a call of `add_edge` keeps the past: no end that was visible changes. -/
def CallKeepsPast (onto : Ontology) (rel : Relation) (call : Assertion) (now : ℤ) (edges : List Edge) : Prop :=
  (∀ place edge, latest (call.storedKey onto rel) edges = some (place, edge) → Repeats call now edge →
    ¬RecordShows now edge (edge.restatedRecord call.properties)) ∧
  ((∀ place edge, latest (call.storedKey onto rel) edges = some (place, edge) → ¬Repeats call now edge) →
    rel.exclusive = true → ∀ edge ∈ edges, Competes (call.edge (call.storedKey onto rel) call.properties now) edge →
      Overtaken (call.edge (call.storedKey onto rel) call.properties now) edge → ¬EndShows now edge)

theorem lookup_warned (problems : List String) :
    (call.warned problems).lookup "closed_recorded_at" = call.properties.lookup "closed_recorded_at" := by
  unfold Assertion.warned
  split_ifs
  · rfl
  · rw [lookup_assign, if_neg (by decide)]

theorem closedRecordedAt_restate (weight : ℚ) (problems : List String) :
    (edge.restate weight (call.warned problems)).closedRecordedAt = edge.restatedRecord call.properties := by
  rw [Edge.closedRecordedAt, Edge.restatedRecord, lookup_merged, ← lookup_warned problems, ← lookup_merged]
  unfold Edge.restate
  cases hproperties : call.warned problems with
  | nil =>
    rw [lookup_merged]
    rfl
  | cons entry entries => rfl

/-- What an insertion makes of a stored edge. -/
def endEdge (now : ℤ) (exclusive : Bool) (newEdge edge : Edge) : Edge :=
  let edge := closeRestated newEdge.key newEdge.validAt now edge
  if exclusive then supersede now newEdge edge else edge

theorem insertEdge_eq_endEdge (now : ℤ) (exclusive : Bool) (newEdge : Edge) (edges : List Edge) :
    ∃ added, SameStart newEdge added ∧
      insertEdge now exclusive newEdge edges = (edges.map (endEdge now exclusive newEdge) ++ [added], added) := by
  rw [insertEdge_eq]
  cases exclusive with
  | false => exact ⟨newEdge, ⟨rfl, rfl, rfl, rfl, rfl⟩, rfl⟩
  | true =>
    refine ⟨_, resolveExclusive_snd now (edges.map (closeRestated newEdge.key newEdge.validAt now)) newEdge, ?_⟩
    simp only [if_true, List.map_map]
    rfl

theorem supersede_of_target_eq {newEdge edge : Edge} (h : edge.target = newEdge.target) :
    supersede now newEdge edge = edge :=
  if_neg fun hboth ↦ hboth.1.2.2 h

theorem endEdge_cases (now : ℤ) (exclusive : Bool) (newEdge edge : Edge) :
    (∃ reason, edge.invalidAt = none ∧ ¬Competes newEdge edge ∧
      endEdge now exclusive newEdge edge = edge.close newEdge.validAt now reason) ∨
    (∃ reason, exclusive = true ∧ Competes newEdge edge ∧ Overtaken newEdge edge ∧
      endEdge now exclusive newEdge edge = edge.close newEdge.validAt now reason) ∨
    (exclusive = true → ¬(Competes newEdge edge ∧ Overtaken newEdge edge)) ∧
      endEdge now exclusive newEdge edge = edge := by
  unfold endEdge closeRestated
  by_cases hrestated : edge.key = newEdge.key ∧ edge.invalidAt = none
  · have htarget : edge.target = newEdge.target := congrArg Key.target hrestated.1
    refine .inl ⟨s!"restated from {newEdge.validAt}", hrestated.2, fun h ↦ h.2.2 htarget, ?_⟩
    rw [if_pos hrestated]
    dsimp only
    have hkept : supersede now newEdge (edge.close newEdge.validAt now s!"restated from {newEdge.validAt}") =
        edge.close newEdge.validAt now s!"restated from {newEdge.validAt}" := supersede_of_target_eq htarget
    rw [hkept, ite_self]
  · rw [if_neg hrestated]
    dsimp only
    cases exclusive with
    | false => exact .inr (.inr ⟨fun h ↦ absurd h (by simp), rfl⟩)
    | true =>
      rw [if_pos rfl, supersede]
      by_cases hboth : Competes newEdge edge ∧ Overtaken newEdge edge
      · exact .inr (.inl ⟨_, rfl, hboth.1, hboth.2, if_pos hboth⟩)
      · exact .inr (.inr ⟨fun _ ↦ hboth, if_neg hboth⟩)

theorem samePast_endEdge (now : ℤ) (exclusive : Bool) (newEdge edge : Edge) :
    SamePast now edge (endEdge now exclusive newEdge edge) ↔
      (exclusive = true → Competes newEdge edge → Overtaken newEdge edge → ¬EndShows now edge) := by
  obtain ⟨reason, hopen, hnot, heq⟩ | ⟨reason, hexclusive, hcompetes, hovertaken, heq⟩ | ⟨hnot, heq⟩ :=
    endEdge_cases now exclusive newEdge edge
  · rw [heq, samePast_close]
    exact iff_of_true (not_endShows_of_open hopen) fun _ hcompetes ↦ absurd hcompetes hnot
  · rw [heq, samePast_close]
    exact ⟨fun h _ _ _ ↦ h, fun h ↦ h hexclusive hcompetes hovertaken⟩
  · rw [heq]
    exact iff_of_true (.refl edge) fun hexclusive hcompetes hovertaken ↦
      absurd ⟨hcompetes, hovertaken⟩ (hnot hexclusive)

theorem keepsPast_map_append (change : Edge → Edge) (edges more : List Edge) :
    KeepsPast now edges (edges.map change ++ more) ↔ ∀ edge ∈ edges, SamePast now edge (change edge) := by
  constructor
  · intro h edge hedge
    obtain ⟨place, hplace⟩ := List.mem_iff_getElem?.mp hedge
    obtain ⟨second, hsecond, hsame⟩ := h place edge hplace
    have hlt : place < edges.length := (List.getElem?_eq_some_iff.mp hplace).1
    rw [List.getElem?_append_left (by simpa using hlt), List.getElem?_map, hplace] at hsecond
    exact Option.some.inj hsecond ▸ hsame
  · intro h place edge hplace
    have hlt : place < edges.length := (List.getElem?_eq_some_iff.mp hplace).1
    refine ⟨change edge, ?_, h edge (List.mem_of_getElem? hplace)⟩
    rw [List.getElem?_append_left (by simpa using hlt), List.getElem?_map, hplace]
    rfl

theorem keepsPast_set {place : ℕ} (h : edges[place]? = some first) :
    KeepsPast now edges (edges.set place second) ↔ SamePast now first second := by
  have hlt : place < edges.length := (List.getElem?_eq_some_iff.mp h).1
  constructor
  · intro hkeeps
    obtain ⟨found, hfound, hsame⟩ := hkeeps place first h
    rw [List.getElem?_set_self hlt] at hfound
    exact Option.some.inj hfound ▸ hsame
  · intro hsame other edge hother
    by_cases hplace : place = other
    · subst hplace
      obtain rfl := Option.some.inj (h.symm.trans hother)
      exact ⟨second, List.getElem?_set_self hlt, hsame⟩
    · exact ⟨edge, by rw [List.getElem?_set_ne hplace]; exact hother, .refl edge⟩

theorem keepsPast_addEdge (h : addEdge onto store call now = .ok (next, edge))
    (hrel : onto.relation call.relation = .ok rel) :
    KeepsPast now store.edges next.edges ↔ CallKeepsPast onto rel call now store.edges := by
  obtain ⟨-, found, problems, hfound, -, hedges⟩ := addEdge_eq_ok_iff.mp h
  obtain rfl : found = rel := Except.ok.inj (hfound.symm.trans hrel)
  obtain ⟨place, last, hlatest, hrepeats, heq⟩ | ⟨hnew, heq⟩ := assertEdge_cases store.edges call found
    (call.storedKey onto found) (call.warned problems) now
  · rw [heq] at hedges
    have hframe : SameFrame last (last.restate (clampWeight call.weight) (call.warned problems)) := ⟨rfl, rfl, rfl⟩
    rw [← (Prod.mk.inj hedges).1, keepsPast_set (latest_eq_some hlatest).1, samePast_iff_of_record hframe rfl,
      closedRecordedAt_restate]
    constructor
    · intro hrecord
      refine ⟨fun place' last' hlatest' _ ↦ ?_, fun hnot ↦ absurd hrepeats (hnot place last hlatest)⟩
      obtain ⟨-, rfl⟩ := Prod.mk.inj (Option.some.inj (hlatest.symm.trans hlatest'))
      exact hrecord
    · exact fun hkeeps ↦ hkeeps.1 place last hlatest hrepeats
  · obtain ⟨added, -, hinsert⟩ := insertEdge_eq_endEdge now found.exclusive
      (call.edge (call.storedKey onto found) (call.warned problems) now) store.edges
    rw [heq, hinsert] at hedges
    rw [← (Prod.mk.inj hedges).1, keepsPast_map_append]
    simp only [samePast_endEdge]
    constructor
    · exact fun hends ↦ ⟨fun place last hlatest hrepeats ↦ absurd hrepeats (hnew place last hlatest),
        fun _ hexclusive edge hedge hcompetes hovertaken ↦ hends edge hedge hexclusive hcompetes hovertaken⟩
    · exact fun hkeeps edge hedge hexclusive hcompetes hovertaken ↦
        hkeeps.2 hnew hexclusive edge hedge hcompetes hovertaken

/-! ## Forgetting a node -/

/-- When `forget_node` keeps the past: no end that it changes was visible. -/
def ForgetKeepsPast (nodeId : String) (forgottenAt : Option ℤ) (invalidateEdges undo : Bool) (now : ℤ)
    (edges : List Edge) : Prop :=
  ∀ edge ∈ edges, nodeId = edge.source ∨ nodeId = edge.target →
    (undo = true → forgottenAt.isSome = true → edge.invalidAt = forgottenAt → ¬EndShows now edge) ∧
    (undo = false → invalidateEdges = true → edge.invalidAt = none →
      ¬EndShows now { edge with invalidAt := some now })

theorem samePast_forgetEdge (nodeId : String) (forgottenAt : Option ℤ) (invalidateEdges undo : Bool) (now : ℤ)
    (edge : Edge) :
    SamePast now edge (forgetEdge nodeId forgottenAt invalidateEdges undo now edge) ↔
      (nodeId = edge.source ∨ nodeId = edge.target →
        (undo = true → forgottenAt.isSome = true → edge.invalidAt = forgottenAt → ¬EndShows now edge) ∧
        (undo = false → invalidateEdges = true → edge.invalidAt = none →
          ¬EndShows now { edge with invalidAt := some now })) := by
  unfold forgetEdge
  by_cases htouched : nodeId ≠ edge.source ∧ nodeId ≠ edge.target
  · rw [if_pos htouched]
    exact iff_of_true (.refl edge) fun h ↦ absurd h (not_or.mpr htouched)
  · rw [if_neg htouched]
    have hends : nodeId = edge.source ∨ nodeId = edge.target := by
      by_contra hnot
      exact htouched (not_or.mp hnot)
    rw [imp_iff_right hends]
    by_cases hundo : undo = true ∧ forgottenAt.isSome = true ∧ edge.invalidAt = forgottenAt
    · have hframe : SameFrame edge { edge with invalidAt := none } := ⟨rfl, rfl, rfl⟩
      rw [if_pos hundo, samePast_iff_of_hidden hframe (not_endShows_of_open rfl)]
      constructor
      · exact fun h ↦ ⟨fun _ _ _ ↦ h, fun hno ↦ absurd (hno.symm.trans hundo.1) (by decide)⟩
      · exact fun h ↦ h.1 hundo.1 hundo.2.1 hundo.2.2
    · rw [if_neg hundo]
      by_cases hforget : undo = false ∧ invalidateEdges = true ∧ edge.invalidAt = none
      · rw [if_pos hforget]
        have hsymm : SamePast now edge { edge with invalidAt := some now } ↔
            SamePast now { edge with invalidAt := some now } edge := ⟨SamePast.symm, SamePast.symm⟩
        have hframe : SameFrame { edge with invalidAt := some now } edge := ⟨rfl, rfl, rfl⟩
        rw [hsymm, samePast_iff_of_hidden hframe (not_endShows_of_open hforget.2.2)]
        constructor
        · exact fun h ↦ ⟨fun hno ↦ absurd (hno.symm.trans hforget.1) (by decide), fun _ _ _ ↦ h⟩
        · exact fun h ↦ h.2 hforget.1 hforget.2.1 hforget.2.2
      · rw [if_neg hforget]
        exact iff_of_true (.refl edge) ⟨fun h₁ h₂ h₃ ↦ absurd ⟨h₁, h₂, h₃⟩ hundo,
          fun h₁ h₂ h₃ ↦ absurd ⟨h₁, h₂, h₃⟩ hforget⟩

/-! ## Merging entities -/

/-- The end of an edge stays, as far as it shows, or shows no more. -/
structure Settled (now : ℤ) (first second : Edge) : Prop extends SameFrame first second where
  past : SamePast now first second ∨ ¬EndShows now second

theorem SameFrame.asked_iff (h : SameFrame first second) :
    Asked now second moment known ↔ Asked now first moment known := by
  constructor
  · exact fun hasked ↦ ⟨hasked.known_lt, h.createdAt ▸ hasked.created, h.validAt ▸ hasked.valid,
      h.expiredAt ▸ hasked.unexpired⟩
  · exact fun hasked ↦ ⟨hasked.known_lt, h.createdAt.symm ▸ hasked.created, h.validAt.symm ▸ hasked.valid,
      h.expiredAt.symm ▸ hasked.unexpired⟩

theorem endShows_iff_of_samePast (h : SameFrame first second) (hpast : SamePast now first second) :
    EndShows now second ↔ EndShows now first := by
  rw [← not_iff_not, not_endShows_iff, not_endShows_iff]
  refine forall₂_congr fun moment known ↦ ?_
  rw [h.asked_iff]
  exact forall_congr' fun hasked ↦ ((samePast_iff h).mp hpast moment known hasked).symm

theorem Settled.refl (edge : Edge) : Settled now edge edge := ⟨⟨rfl, rfl, rfl⟩, .inl (.refl edge)⟩

theorem Settled.not_endShows (h : Settled now first second) (hhidden : ¬EndShows now first) :
    ¬EndShows now second :=
  h.past.elim (fun hpast hshows ↦ hhidden ((endShows_iff_of_samePast h.toSameFrame hpast).mp hshows)) id

theorem Settled.trans (h : Settled now first second) (h' : Settled now second third) : Settled now first third := by
  refine ⟨⟨h'.createdAt.trans h.createdAt, h'.validAt.trans h.validAt, h'.expiredAt.trans h.expiredAt⟩, ?_⟩
  obtain hpast | hhidden := h.past
  · exact h'.past.imp_left hpast.trans
  · exact .inr (h'.not_endShows hhidden)

theorem samePast_trans_iff (h : Settled now first second) (h' : Settled now second third) :
    SamePast now first third ↔ SamePast now first second ∧ SamePast now second third := by
  refine ⟨fun hboth ↦ ?_, fun hpasts ↦ hpasts.1.trans hpasts.2⟩
  have hfirst : SamePast now first second := by
    by_contra hnot
    have hhidden : ¬EndShows now second := h.past.resolve_left hnot
    rw [samePast_iff_of_hidden h.toSameFrame hhidden, not_not] at hnot
    have hthird := (endShows_iff_of_samePast (h.trans h').toSameFrame hboth).mpr hnot
    exact h'.not_endShows hhidden hthird
  exact ⟨hfirst, hfirst.symm.trans hboth⟩

/-- Every stored edge is settled, and the edges that are added are created now. -/
structure Extends (now : ℤ) (before after : List Edge) : Prop where
  settled : ∀ (place : ℕ) (first : Edge), before[place]? = some first →
    ∃ second, after[place]? = some second ∧ Settled now first second
  added : ∀ (place : ℕ) (second : Edge), before[place]? = none → after[place]? = some second →
    second.createdAt = now

theorem Extends.trans {before between after : List Edge} (h : Extends now before between)
    (h' : Extends now between after) : Extends now before after := by
  constructor
  · intro place first hfirst
    obtain ⟨second, hsecond, hsettled⟩ := h.settled place first hfirst
    obtain ⟨third, hthird, hsettled'⟩ := h'.settled place second hsecond
    exact ⟨third, hthird, hsettled.trans hsettled'⟩
  · intro place third hnone hthird
    cases hbetween : between[place]? with
    | none => exact h'.added place third hbetween hthird
    | some second =>
      obtain ⟨found, hfound, hsettled⟩ := h'.settled place second hbetween
      obtain rfl := Option.some.inj (hfound.symm.trans hthird)
      exact hsettled.createdAt.trans (h.added place second hnone hbetween)

theorem samePast_of_created (h : SameFrame first second) (hcreated : first.createdAt = now) :
    SamePast now first second :=
  (samePast_iff h).mpr fun _ _ hasked ↦
    absurd (hasked.created.trans_lt hasked.known_lt) (by rw [hcreated]; exact lt_irrefl now)

theorem keepsPast_trans_iff {before between after : List Edge} (h : Extends now before between)
    (h' : Extends now between after) :
    KeepsPast now before after ↔ KeepsPast now before between ∧ KeepsPast now between after := by
  constructor
  · intro hboth
    have hsplit : ∀ (place : ℕ) (first second third : Edge), before[place]? = some first →
        between[place]? = some second → after[place]? = some third →
        SamePast now first second ∧ SamePast now second third := by
      intro place first second third hfirst hsecond hthird
      obtain ⟨second', hsecond', hsettled⟩ := h.settled place first hfirst
      obtain rfl := Option.some.inj (hsecond'.symm.trans hsecond)
      obtain ⟨third', hthird', hsettled'⟩ := h'.settled place second' hsecond
      obtain rfl := Option.some.inj (hthird'.symm.trans hthird)
      obtain ⟨found, hfound, hpast⟩ := hboth place first hfirst
      obtain rfl := Option.some.inj (hfound.symm.trans hthird)
      exact (samePast_trans_iff hsettled hsettled').mp hpast
    constructor
    · intro place first hfirst
      obtain ⟨second, hsecond, -⟩ := h.settled place first hfirst
      obtain ⟨third, hthird, -⟩ := h'.settled place second hsecond
      exact ⟨second, hsecond, (hsplit place first second third hfirst hsecond hthird).1⟩
    · intro place second hsecond
      obtain ⟨third, hthird, hsettled'⟩ := h'.settled place second hsecond
      refine ⟨third, hthird, ?_⟩
      cases hfirst : before[place]? with
      | none => exact samePast_of_created hsettled'.toSameFrame (h.added place second hfirst hsecond)
      | some first => exact (hsplit place first second third hfirst hsecond hthird).2
  · rintro ⟨hfirst, hsecond⟩ place first hplace
    obtain ⟨second, hbetween, hpast⟩ := hfirst place first hplace
    obtain ⟨third, hafter, hpast'⟩ := hsecond place second hbetween
    exact ⟨third, hafter, hpast.trans hpast'⟩

theorem extends_set {place : ℕ} (h : edges[place]? = some first) (hsettled : Settled now first second) :
    Extends now edges (edges.set place second) := by
  have hlt : place < edges.length := (List.getElem?_eq_some_iff.mp h).1
  constructor
  · intro other edge hother
    by_cases hplace : place = other
    · subst hplace
      obtain rfl := Option.some.inj (h.symm.trans hother)
      exact ⟨second, List.getElem?_set_self hlt, hsettled⟩
    · exact ⟨edge, by rw [List.getElem?_set_ne hplace]; exact hother, .refl edge⟩
  · intro other edge hnone hother
    have hge : edges.length ≤ other := List.getElem?_eq_none_iff.mp hnone
    rw [List.getElem?_eq_none_iff.mpr (by rwa [List.length_set])] at hother
    cases hother

theorem extends_map_append {change : Edge → Edge} {added : Edge} (hchange : ∀ edge, Settled now edge (change edge))
    (hadded : added.createdAt = now) : Extends now edges (edges.map change ++ [added]) := by
  constructor
  · intro place edge hplace
    have hlt : place < edges.length := (List.getElem?_eq_some_iff.mp hplace).1
    refine ⟨change edge, ?_, hchange edge⟩
    rw [List.getElem?_append_left (by simpa using hlt), List.getElem?_map, hplace]
    rfl
  · intro place edge hnone hedge
    have hge : edges.length ≤ place := List.getElem?_eq_none_iff.mp hnone
    rw [List.getElem?_append_right (by simpa using hge)] at hedge
    exact (List.mem_singleton.mp (List.mem_of_getElem? hedge)) ▸ hadded

theorem settled_close (edge : Edge) (moment : ℤ) (reason : String) :
    Settled now edge (edge.close moment now reason) :=
  ⟨⟨rfl, rfl, rfl⟩, .inr (not_endShows_of_recorded (closedRecordedAt_close _ _ _ _) le_rfl)⟩

theorem settled_endEdge (now : ℤ) (exclusive : Bool) (newEdge edge : Edge) :
    Settled now edge (endEdge now exclusive newEdge edge) := by
  obtain ⟨reason, -, -, heq⟩ | ⟨reason, -, -, -, heq⟩ | ⟨-, heq⟩ := endEdge_cases now exclusive newEdge edge
  · exact heq ▸ settled_close edge _ reason
  · exact heq ▸ settled_close edge _ reason
  · exact heq.symm ▸ .refl edge

/-- A call of `add_edge` whose properties hold no record of an end before now. -/
def RecordsNow (now : ℤ) (properties : Properties) : Prop :=
  properties.lookup "closed_recorded_at" = none ∨ properties.lookup "closed_recorded_at" = some (.int now)

theorem extends_addEdge (h : addEdge onto store call now = .ok (next, edge))
    (hrecords : RecordsNow now call.properties) : Extends now store.edges next.edges := by
  obtain ⟨-, found, problems, -, -, hedges⟩ := addEdge_eq_ok_iff.mp h
  obtain ⟨place, last, hlatest, -, heq⟩ | ⟨-, heq⟩ := assertEdge_cases store.edges call found
    (call.storedKey onto found) (call.warned problems) now
  · rw [heq] at hedges
    rw [← (Prod.mk.inj hedges).1]
    have hframe : SameFrame last (last.restate (clampWeight call.weight) (call.warned problems)) := ⟨rfl, rfl, rfl⟩
    refine extends_set (latest_eq_some hlatest).1 ⟨hframe, ?_⟩
    have hrecord : (last.restate (clampWeight call.weight) (call.warned problems)).closedRecordedAt =
        last.restatedRecord call.properties := closedRecordedAt_restate (clampWeight call.weight) problems
    rw [Edge.restatedRecord, lookup_merged] at hrecord
    obtain hnone | hnow := hrecords
    · rw [hnone, Option.none_or] at hrecord
      refine .inl ((samePast_iff_of_record hframe rfl).mpr ?_)
      rw [hrecord]
      exact fun ⟨_, _, _, _, _, _, hne⟩ ↦ hne Iff.rfl
    · rw [hnow, Option.some_or] at hrecord
      exact .inr (not_endShows_of_recorded hrecord le_rfl)
  · obtain ⟨added, hstart, hinsert⟩ := insertEdge_eq_endEdge now found.exclusive
      (call.edge (call.storedKey onto found) (call.warned problems) now) store.edges
    rw [heq, hinsert] at hedges
    rw [← (Prod.mk.inj hedges).1]
    exact extends_map_append (settled_endEdge now found.exclusive _) hstart.createdAt

/-- A call of `add_edge` in a store keeps the past. -/
def HarmlessCall (onto : Ontology) (now : ℤ) (made : Store × Assertion) : Prop :=
  ∀ rel, onto.relation made.2.relation = .ok rel → CallKeepsPast onto rel made.2 now made.1.edges

theorem keepsPast_addEdge_iff (h : addEdge onto store call now = .ok (next, edge)) :
    KeepsPast now store.edges next.edges ↔ HarmlessCall onto now (store, call) := by
  obtain ⟨-, rel, -, hrel, -⟩ := addEdge_eq_ok_iff.mp h
  rw [keepsPast_addEdge h hrel]
  constructor
  · intro hkeeps other hother
    exact Except.ok.inj (hrel.symm.trans hother) ▸ hkeeps
  · exact fun hharmless ↦ hharmless rel hrel

/-- The call of `add_edge` in a turn of `merge`, and its store. -/
def turnCalls (keepId dupId : String) (now : ℤ) (store : Store) (place : ℕ) : List (Store × Assertion) :=
  match store.edges[place]? with
  | none => []
  | some edge =>
    if edge.invalidAt ≠ none ∨ dupId ≠ edge.source ∧ dupId ≠ edge.target then []
    else
      let closed := edge.close now now s!"merged into {keepId}"
      let call := movedCall keepId dupId closed
      if call.source = call.target then [] else [({ store with edges := store.edges.set place closed }, call)]

/-- The calls of `add_edge` in the loop of `merge` and after it. -/
def loopCalls (onto : Ontology) (keepId dupId : String) (evidence : Option Json) (now : ℤ) :
    Store × ℕ → List ℕ → List (Store × Assertion)
  | state, [] => [(state.1, supersedesCall keepId dupId evidence)]
  | state, place :: places =>
    turnCalls keepId dupId now state.1 place ++
      match moveEdge onto keepId dupId now state place with
      | .ok state => loopCalls onto keepId dupId evidence now state places
      | .error _ => []

/-- The calls of `add_edge` that `merge` makes. -/
def mergeCalls (onto : Ontology) (store : Store) (keep duplicate : String) (evidence : Option Json) (now : ℤ) :
    List (Store × Assertion) :=
  let keepId := onto.cleanId keep
  let dupId := onto.cleanId duplicate
  match mergedNodes onto store keepId dupId with
  | .ok nodes => loopCalls onto keepId dupId evidence now (⟨nodes, store.edges⟩, 0) (List.range store.edges.length)
  | .error _ => []

theorem recordsNow_movedCall (keepId dupId reason : String) (edge : Edge) :
    RecordsNow now (movedCall keepId dupId (edge.close now now reason)).properties := by
  refine .inr ?_
  simp [movedCall, Edge.close, lookup_assign]

theorem recordsNow_supersedesCall (keepId dupId : String) (evidence : Option Json) :
    RecordsNow now (supersedesCall keepId dupId evidence).properties := by
  refine .inl ?_
  cases evidence <;> rfl

theorem moveEdge_spec {keepId dupId : String} {state after : Store × ℕ} {place : ℕ}
    (h : moveEdge onto keepId dupId now state place = .ok after) :
    Extends now state.1.edges after.1.edges ∧ (KeepsPast now state.1.edges after.1.edges ↔
        ∀ made ∈ turnCalls keepId dupId now state.1 place, HarmlessCall onto now made) := by
  have hidle : Extends now state.1.edges state.1.edges ∧ KeepsPast now state.1.edges state.1.edges :=
    ⟨⟨fun _ edge hedge ↦ ⟨edge, hedge, .refl edge⟩, fun _ _ hnone hsome ↦ absurd (hnone.symm.trans hsome) (by simp)⟩,
      fun _ edge hedge ↦ ⟨edge, hedge, .refl edge⟩⟩
  have hnone : ∀ made ∈ ([] : List (Store × Assertion)), HarmlessCall onto now made := by simp
  unfold moveEdge at h
  unfold turnCalls
  split at h
  · next hplace =>
    obtain rfl := Except.ok.inj h
    exact ⟨hidle.1, iff_of_true hidle.2 hnone⟩
  · next edge hplace =>
    dsimp only at h ⊢
    split_ifs at h ⊢ with hskip hloop
    · obtain rfl := Except.ok.inj h
      exact ⟨hidle.1, iff_of_true hidle.2 hnone⟩
    all_goals
      have hopen : edge.invalidAt = none := by
        by_contra hclosed
        exact hskip (.inl hclosed)
      have hclose : Extends now state.1.edges
          (state.1.edges.set place (edge.close now now s!"merged into {keepId}")) :=
        extends_set hplace (settled_close edge now _)
      have hpast : KeepsPast now state.1.edges
          (state.1.edges.set place (edge.close now now s!"merged into {keepId}")) :=
        (keepsPast_set hplace).mpr ((samePast_close edge now now _).mpr (not_endShows_of_open hopen))
    · obtain rfl := Except.ok.inj h
      exact ⟨hclose, iff_of_true hpast hnone⟩
    · obtain ⟨⟨next, added⟩, hadded, h⟩ := Py.of_bind h
      obtain rfl := Except.ok.inj h
      have hextends := extends_addEdge hadded (recordsNow_movedCall keepId dupId _ edge)
      refine ⟨hclose.trans hextends, ?_⟩
      rw [keepsPast_trans_iff hclose hextends, and_iff_right hpast, keepsPast_addEdge_iff hadded]
      exact (List.forall_mem_singleton).symm

theorem keepsPast_loop {keepId dupId : String} {evidence : Option Json} {places : List ℕ} {state moved : Store × ℕ}
    (hloop : places.foldlM (moveEdge onto keepId dupId now) state = .ok moved)
    (hadded : addEdge onto moved.1 (supersedesCall keepId dupId evidence) now = .ok (next, edge)) :
    Extends now state.1.edges next.edges ∧ (KeepsPast now state.1.edges next.edges ↔
        ∀ made ∈ loopCalls onto keepId dupId evidence now state places, HarmlessCall onto now made) := by
  induction places generalizing state with
  | nil =>
    obtain rfl := Except.ok.inj hloop
    refine ⟨extends_addEdge hadded (recordsNow_supersedesCall keepId dupId evidence), ?_⟩
    rw [keepsPast_addEdge_iff hadded]
    exact (List.forall_mem_singleton).symm
  | cons place places ih =>
    rw [List.foldlM_cons] at hloop
    obtain ⟨between, hturn, hrest⟩ := Py.of_bind hloop
    obtain ⟨hextends, hkeeps⟩ := moveEdge_spec hturn
    obtain ⟨hextends', hkeeps'⟩ := ih hrest
    refine ⟨hextends.trans hextends', ?_⟩
    rw [keepsPast_trans_iff hextends hextends', hkeeps, hkeeps', loopCalls, hturn]
    exact (List.forall_mem_append).symm

/-! ## The operations -/

/-- The condition under which an operation keeps the past. -/
def Operation.Harmless (onto : Ontology) (store : Store) (now : ℤ) : Operation → Prop
  | addEdge call => HarmlessCall onto now (store, call)
  | merge keep duplicate evidence =>
    ∀ made ∈ mergeCalls onto store keep duplicate evidence now, HarmlessCall onto now made
  | forgetNode nodeId _ invalidateEdges undo =>
    ∀ node, store.nodes.lookup (onto.cleanId nodeId) = some node →
      ForgetKeepsPast (onto.cleanId nodeId) (momentOf (node.properties.lookup "forgotten_at")) invalidateEdges
        undo now store.edges

theorem keepsPast_merge {keep duplicate : String} {evidence : Option Json} {count : ℕ}
    (h : merge onto store keep duplicate evidence now = .ok (next, count)) :
    KeepsPast now store.edges next.edges ↔
      ∀ made ∈ mergeCalls onto store keep duplicate evidence now, HarmlessCall onto now made := by
  obtain ⟨_, h⟩ := Py.of_rest h
  obtain ⟨nodes, hnodes, h⟩ := Py.of_bind h
  obtain ⟨moved, hmoved, h⟩ := Py.of_bind h
  obtain ⟨⟨recorded, added⟩, hrecorded, h⟩ := Py.of_bind h
  obtain ⟨loser, -, h⟩ := Py.of_bind h
  obtain ⟨rfl, -⟩ := Prod.mk.inj (Except.ok.inj h)
  rw [mergeCalls, hnodes]
  exact (keepsPast_loop hmoved hrecorded).2

theorem keepsPast_forgetNode (onto : Ontology) (store : Store) (nodeId reason : String)
    (invalidateEdges undo : Bool) (now : ℤ) :
    KeepsPast now store.edges (forgetNode onto store nodeId reason invalidateEdges undo now).1.edges ↔
      ∀ node, store.nodes.lookup (onto.cleanId nodeId) = some node →
        ForgetKeepsPast (onto.cleanId nodeId) (momentOf (node.properties.lookup "forgotten_at")) invalidateEdges
          undo now store.edges := by
  unfold forgetNode
  cases hnode : store.nodes.lookup (onto.cleanId nodeId) with
  | none =>
    simp only [hnode]
    exact iff_of_true (fun _ edge hedge ↦ ⟨edge, hedge, .refl edge⟩) fun _ h ↦ absurd h (by simp)
  | some node =>
    simp only [hnode, Option.some.injEq, forall_eq']
    rw [← List.append_nil (List.map _ store.edges), keepsPast_map_append]
    exact forall₂_congr fun edge _ ↦ samePast_forgetEdge ..

/-- An operation keeps the answers for earlier record times exactly when it is harmless. -/
theorem keepsPast_iff_harmless (operation : Operation) (h : operation.apply onto store now = .ok next) :
    KeepsPast now store.edges next.edges ↔ operation.Harmless onto store now := by
  cases operation with
  | addEdge call =>
    obtain ⟨⟨_, edge⟩, hadded, h⟩ := Py.of_bind h
    obtain rfl := Except.ok.inj h
    exact keepsPast_addEdge_iff hadded
  | merge keep duplicate evidence =>
    obtain ⟨⟨_, count⟩, hmerged, h⟩ := Py.of_bind h
    obtain rfl := Except.ok.inj h
    exact keepsPast_merge hmerged
  | forgetNode nodeId reason invalidateEdges undo =>
    obtain rfl := Except.ok.inj h
    exact keepsPast_forgetNode onto store nodeId reason invalidateEdges undo now

namespace Sample

def home : Edge := ⟨"ada", "paris", "lives_in", 1, 0, none, none, [], 0⟩

def homes : Store :=
  ⟨[("ada", ⟨"ada", "concept", "ada", [], false⟩), ("paris", ⟨"paris", "concept", "paris", [], false⟩)], [home]⟩

def moving : Assertion := ⟨"ada", "london", "lives_in", 1, some 7, none, none, [], none⟩

def forgotten : Edge := { home with invalidAt := some 10 }

end Sample

/-- A store forgot that Ada lives in Paris at 15 when Ada was forgotten at 10. -/
theorem not_keepsPast : ¬∀ (onto : Ontology) (store next : Store) (operation : Operation) (now : ℤ),
    operation.apply onto store now = .ok next → KeepsPast now store.edges next.edges := by
  intro h
  obtain ⟨second, hsecond, hpast⟩ := h Sample.ontology Sample.homes _ (.forgetNode "ada" "superseded" true false) 10
    rfl 0 Sample.home rfl
  obtain rfl : Sample.forgotten = second := Option.some.inj hsecond
  exact absurd (hpast 15 5 (by decide)) (by decide)

/-- A new home keeps the past. -/
theorem keepsPast_iff_harmless_move :
    ∃ next, (Operation.addEdge Sample.moving).apply Sample.ontology Sample.homes 10 = .ok next ∧
      (KeepsPast 10 Sample.homes.edges next.edges ↔
        (Operation.addEdge Sample.moving).Harmless Sample.ontology Sample.homes 10) :=
  ⟨_, rfl, keepsPast_iff_harmless _ rfl⟩

end UniMem.Graph
