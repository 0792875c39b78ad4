import UniMem.Graph.Edges

/-!
# Snapshots of the graph files

Edges as they are stored, with times as texts, and the indexes of a snapshot: the positions of the edges at a node,
of a relation, and of both. How a text is read as a moment is a parameter.
-/

namespace UniMem.Graph

open Library

/-- `GraphEdge` with its times as texts. -/
structure StoredEdge where
  source : String
  target : String
  relation : String
  weight : ℚ
  validAt : Option String
  invalidAt : Option String
  expiredAt : Option String
  properties : Properties
  createdAt : String

/-- How moments are read. -/
structure Moments where
  /-- `lesson_cache.parse_moment`; `none` stands for a `ValueError`. -/
  parse : String → Option ℤ
  /-- `_at` on a value of a dictionary. -/
  ofProperty : Json → Option ℤ
  /-- `_MIN_MOMENT`. -/
  least : ℤ
  least_le : ∀ text moment, parse text = some moment → least ≤ moment

/-- A text that is not empty. -/
def filled (value : Option String) : Option String := value.filter (· ≠ "")

/-- `_at`. -/
def Moments.optionalMoment (moments : Moments) (value : Option String) : Option ℤ := (filled value).bind moments.parse

/-- `parse_moment(value) if value else None`. -/
def Moments.argument (moments : Moments) (value : Option String) : Py (Option ℤ) :=
  match filled value with
  | none => .ok none
  | some text =>
    match moments.parse text with
    | some moment => .ok (some moment)
    | none => .error (.valueError s!"could not parse {text} as a date/time; use YYYY-MM-DD or ISO 8601")

/-- The moments of a view: valid time, record time, and the clock. -/
structure View where
  moment : Option ℤ
  knownAt : Option ℤ
  currentAt : Option ℤ

/-- `_is_active_edge` on a stored edge. -/
def StoredEdge.isActive (moments : Moments) (edge : StoredEdge) (view : View) (now : ℤ) : Bool :=
  let closed := (edge.properties.lookup "closed_recorded_at").bind moments.ofProperty
  let created := moments.optionalMoment (some edge.createdAt)
  let invalidAt := if view.knownAt.any fun known ↦ closed.any (known < ·) then none else edge.invalidAt
  let moment := view.moment.getD (view.currentAt.getD (view.knownAt.getD now))
  if view.knownAt.any fun known ↦ created.any (known < ·) then false
  else if (moments.optionalMoment edge.validAt).any (moment < ·) then false
  else [moments.optionalMoment invalidAt, moments.optionalMoment edge.expiredAt].all fun stop ↦ !stop.any (· ≤ moment)

/-- Values under their keys, each appended to the list of its key. -/
def listsOf {κ : Type} [DecidableEq κ] (pairs : List (κ × ℕ)) : List (κ × List ℕ) :=
  (group Prod.fst pairs).map fun entry ↦ (entry.1, entry.2.map Prod.snd)

/-- `lists.get(key, [])`. -/
def positionsOf {κ : Type} [DecidableEq κ] (lists : List (κ × List ℕ)) (key : κ) : List ℕ :=
  (lists.lookup key).getD []

variable {κ : Type} {node : String} {position : ℕ} {edges : List StoredEdge}

theorem positionsOf_listsOf [DecidableEq κ] (pairs : List (κ × ℕ)) (key : κ) :
    positionsOf (listsOf pairs) key = (pairs.filter fun pair ↦ pair.1 = key).map Prod.snd := by
  have hlookup : (listsOf pairs).lookup key = ((group Prod.fst pairs).lookup key).map (List.map Prod.snd) := by
    unfold listsOf
    induction group Prod.fst pairs with
    | nil => rfl
    | cons entry entries ih =>
      rw [List.map_cons, List.lookup_cons, List.lookup_cons, ih]
      cases key == entry.1 <;> rfl
  rw [positionsOf, hlookup, lookup_group]
  split_ifs with hmem
  · rfl
  · have hnone : pairs.filter (fun pair ↦ pair.1 = key) = [] := by
      rw [List.filter_eq_nil_iff]
      intro pair hpair heq
      exact hmem (List.mem_map.mpr ⟨pair, hpair, of_decide_eq_true heq⟩)
    rw [hnone]
    rfl

/-- The ends of an edge, each once. -/
def StoredEdge.ends (edge : StoredEdge) : List String :=
  if edge.target ≠ edge.source then [edge.source, edge.target] else [edge.source]

theorem StoredEdge.mem_ends {edge : StoredEdge} :
    node ∈ edge.ends ↔ node = edge.source ∨ node = edge.target := by
  unfold ends
  split_ifs with h
  · simp
  · rw [not_not] at h
    rw [h, List.mem_singleton, or_self]

/-- The keys under which the edges are filed, with the positions of the edges. -/
def keyed {κ : Type} (keys : StoredEdge → List κ) (edges : List StoredEdge) : List (κ × ℕ) :=
  edges.zipIdx.flatMap fun (edge, position) ↦ (keys edge).map fun key ↦ (key, position)

/-- `_GraphFullIndex`. -/
structure FullIndex where
  nodes : Nodes
  edges : List StoredEdge
  byEntity : List (String × List ℕ)

/-- `values[position]`. -/
def itemAt {α : Type} (values : List α) (position : ℕ) : Py α :=
  match values[position]? with
  | some value => .ok value
  | none => .error (.indexError "list index out of range")

theorem itemAt_eq_ok_iff {α : Type} {values : List α} {value : α} :
    itemAt values position = .ok value ↔ values[position]? = some value := by
  unfold itemAt
  cases values[position]? <;> simp

/-- `index.edges[position]`. -/
def FullIndex.edge (index : FullIndex) (position : ℕ) : Py StoredEdge := itemAt index.edges position

/-- `_build_full_index`. -/
def buildFullIndex (nodes : Nodes) (edges : List StoredEdge) : FullIndex where
  nodes := nodes
  edges := edges
  byEntity := listsOf (keyed StoredEdge.ends edges)

@[simp]
theorem buildFullIndex_edges (nodes : Nodes) (edges : List StoredEdge) :
    (buildFullIndex nodes edges).edges = edges := rfl

/-- `by_relation`. -/
def FullIndex.byRelation (index : FullIndex) : List (String × List ℕ) :=
  listsOf (keyed (fun edge ↦ [edge.relation]) index.edges)

/-- `by_entity_relation`. -/
def FullIndex.byEntityRelation (index : FullIndex) : List ((String × String) × List ℕ) :=
  listsOf (keyed (fun edge ↦ edge.ends.map fun node ↦ (node, edge.relation)) index.edges)

theorem mem_positions [DecidableEq κ] {keys : StoredEdge → List κ} {key : κ} :
    position ∈ positionsOf (listsOf (keyed keys edges)) key ↔
      ∃ edge, edges[position]? = some edge ∧ key ∈ keys edge := by
  rw [positionsOf_listsOf, keyed]
  simp only [List.mem_map, List.mem_filter, List.mem_flatMap, decide_eq_true_eq, Prod.exists]
  constructor
  · rintro ⟨found, place, ⟨⟨edge, index, hmem, name, hname, hpair⟩, rfl⟩, rfl⟩
    obtain ⟨rfl, rfl⟩ := Prod.mk.inj hpair
    exact ⟨edge, List.mem_zipIdx_iff_getElem?.mp hmem, hname⟩
  · rintro ⟨edge, hedge, hkey⟩
    exact ⟨key, position, ⟨⟨edge, position, List.mem_zipIdx_iff_getElem?.mpr hedge, key, hkey, rfl⟩, rfl⟩, rfl⟩

/-- `_incident_positions`. -/
def incidentPositions (index : FullIndex) (node : String) (relations : Option (List String)) : List ℕ :=
  match relations with
  | none => positionsOf index.byEntity node
  | some [] => []
  | some [relation] => positionsOf index.byEntityRelation (node, relation)
  | some relations =>
    (relations.flatMap fun relation ↦ positionsOf index.byEntityRelation (node, relation)).insertionSort (· ≤ ·)

theorem mem_incidentPositions {nodes : Nodes} {relations : Option (List String)} :
    position ∈ incidentPositions (buildFullIndex nodes edges) node relations ↔
      ∃ edge, edges[position]? = some edge ∧ (node = edge.source ∨ node = edge.target) ∧
        ∀ names, relations = some names → edge.relation ∈ names := by
  have hone : ∀ relation, position ∈ positionsOf (buildFullIndex nodes edges).byEntityRelation (node, relation) ↔
      ∃ edge, edges[position]? = some edge ∧ (node = edge.source ∨ node = edge.target) ∧
        edge.relation = relation := by
    intro relation
    rw [FullIndex.byEntityRelation, buildFullIndex, mem_positions]
    simp only [List.mem_map, Prod.mk.injEq]
    constructor
    · rintro ⟨edge, hedge, name, hname, rfl, rfl⟩
      exact ⟨edge, hedge, StoredEdge.mem_ends.mp hname, rfl⟩
    · rintro ⟨edge, hedge, hname, rfl⟩
      exact ⟨edge, hedge, node, StoredEdge.mem_ends.mpr hname, rfl, rfl⟩
  match relations with
  | none =>
    rw [incidentPositions, buildFullIndex, mem_positions]
    simp [StoredEdge.mem_ends]
  | some [] => simp [incidentPositions]
  | some [relation] => simp [incidentPositions, hone]
  | some (first :: second :: rest) =>
    simp only [incidentPositions, List.mem_insertionSort, List.mem_flatMap, hone, Option.some.injEq, forall_eq']
    constructor
    · rintro ⟨relation, hrelation, edge, hedge, hnode, rfl⟩
      exact ⟨edge, hedge, hnode, hrelation⟩
    · rintro ⟨edge, hedge, hnode, hrelation⟩
      exact ⟨edge.relation, hrelation, edge, hedge, hnode, rfl⟩

end UniMem.Graph
