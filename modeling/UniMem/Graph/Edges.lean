import UniMem.Library.Grouping
import UniMem.Library.Json
import UniMem.Python

/-!
# The knowledge graph

Nodes and edges of `graph.py` and the call that adds an edge. Moments are microseconds in UTC. What an ontology
answers is a parameter.
-/

namespace UniMem.Graph

open Library

/-- The properties of a node or an edge. -/
abbrev Properties := List (String × Json)

/-- `{**first, **second}`: the second value of a key at its first place. -/
def merged (first second : Properties) : Properties :=
  (first.map fun entry ↦ (entry.1, (second.lookup entry.1).getD entry.2)) ++
    second.filter fun entry ↦ (first.lookup entry.1).isNone

theorem lookup_merged (first second : Properties) (wanted : String) :
    (merged first second).lookup wanted = (second.lookup wanted).or (first.lookup wanted) := by
  have hfirst : (first.map fun entry ↦ (entry.1, (second.lookup entry.1).getD entry.2)).lookup wanted =
      (first.lookup wanted).map fun value ↦ (second.lookup wanted).getD value := by
    induction first with
    | nil => rfl
    | cons entry entries ih =>
      obtain ⟨other, value⟩ := entry
      rw [List.map_cons, List.lookup_cons, List.lookup_cons, ih]
      by_cases hwanted : wanted = other
      · simp [hwanted]
      · rw [beq_eq_false_iff_ne.mpr hwanted]
  rw [merged, List.lookup_append, hfirst, lookup_filter_fst fun other ↦ (first.lookup other).isNone]
  cases first.lookup wanted with
  | none => simp
  | some value => cases second.lookup wanted <;> simp

/-- `_at` on what a dictionary holds: a text that is not a moment is none. -/
def momentOf : Option Json → Option ℤ
  | some (.int moment) => some moment
  | _ => none

/-- `GraphNode`. -/
structure Node where
  id : String
  entityType : String
  name : String
  properties : Properties
  isForgotten : Bool

/-- Source, target and relation of an edge. -/
structure Key where
  source : String
  target : String
  relation : String
  deriving DecidableEq

/-- `GraphEdge`. -/
structure Edge where
  source : String
  target : String
  relation : String
  weight : ℚ
  validAt : ℤ
  invalidAt : Option ℤ
  expiredAt : Option ℤ
  properties : Properties
  createdAt : ℤ

def Edge.key (edge : Edge) : Key := ⟨edge.source, edge.target, edge.relation⟩

/-- When the store learned that the edge ended. -/
def Edge.closedRecordedAt (edge : Edge) : Option ℤ := momentOf (edge.properties.lookup "closed_recorded_at")

/-- The nodes by their ids. -/
abbrev Nodes := List (String × Node)

/-- What the files of a graph hold. -/
structure Store where
  nodes : Nodes
  edges : List Edge

/-- `RelationType`. -/
structure Relation where
  name : String
  domain : List String
  range : List String
  exclusive : Bool

/-- The answers of an ontology, and `graph._clean_id`. -/
structure Ontology where
  cleanId : String → String
  canonicalId : String → String
  relation : String → Py Relation
  isInverse : String → Bool
  relations : List String
  entityType : String → Py String
  entityTypes : List String
  /-- `validate_properties` with the schema of an entity type. -/
  validateProperties : String → Properties → Py Unit
  checkEdge : Relation → String → String → Py (List String)

/-- `_is_active_edge`: valid at `moment`, as the store knew it at `knownAt`. -/
def isActiveEdge (edge : Edge) (moment knownAt currentAt : Option ℤ) (now : ℤ) : Bool :=
  let invalidAt :=
    if knownAt.any fun known ↦ edge.closedRecordedAt.any (known < ·) then none else edge.invalidAt
  let moment := moment.getD (currentAt.getD (knownAt.getD now))
  if knownAt.any (· < edge.createdAt) then false
  else if moment < edge.validAt then false
  else [invalidAt, edge.expiredAt].all fun stop ↦ !stop.any (· ≤ moment)

/-- `_close`. -/
def Edge.close (edge : Edge) (moment recorded : ℤ) (reason : String) : Edge :=
  { edge with
    invalidAt := some moment
    properties := assign "closed_reason" (.str reason)
      (assign "closed_recorded_at" (.int recorded) edge.properties) }

/-- The two edges are values of one source and relation. -/
def Competes (newEdge edge : Edge) : Prop :=
  edge.source = newEdge.source ∧ edge.relation = newEdge.relation ∧ edge.target ≠ newEdge.target

instance (newEdge edge : Edge) : Decidable (Competes newEdge edge) := by
  unfold Competes
  infer_instance

/-- The edge is valid when the new edge starts. -/
def Overtaken (newEdge edge : Edge) : Prop :=
  edge.validAt ≤ newEdge.validAt ∧ edge.invalidAt.all (newEdge.validAt < ·) = true

instance (newEdge edge : Edge) : Decidable (Overtaken newEdge edge) := by
  unfold Overtaken
  infer_instance

/-- One turn of the loop of `_resolve_exclusive`: both edges after it. -/
def resolveEdge (now : ℤ) (edge newEdge : Edge) : Edge × Edge :=
  if ¬Competes newEdge edge then (edge, newEdge)
  else if Overtaken newEdge edge then
    (edge.close newEdge.validAt now s!"superseded by {newEdge.target}", newEdge)
  else if newEdge.validAt < edge.validAt ∧ newEdge.invalidAt.all (edge.validAt < ·) then
    (edge, { newEdge with
      invalidAt := some edge.validAt
      properties := assign "closed_recorded_at" (.int now)
        (assign "closed_reason" (.str s!"superseded by {edge.target}") newEdge.properties) })
  else (edge, newEdge)

/-- `_resolve_exclusive`. -/
def resolveExclusive (now : ℤ) : List Edge → Edge → List Edge × Edge
  | [], newEdge => ([], newEdge)
  | edge :: edges, newEdge =>
    let first := resolveEdge now edge newEdge
    let rest := resolveExclusive now edges first.2
    (first.1 :: rest.1, rest.2)

/-- `_put_node` with an empty name. -/
def putNode (onto : Ontology) (nodes : Nodes) (nodeId entityType : String) (properties : Properties) :
    Py Nodes := do
  let cleanId := onto.cleanId (onto.canonicalId (onto.cleanId nodeId))
  Py.require (cleanId ≠ "") (.valueError "Node ID cannot be empty")
  let entityType ← onto.entityType entityType
  let node := nodes.lookup cleanId
  let schemaType := (node.map Node.entityType).getD entityType
  Py.require (schemaType ∈ onto.entityTypes)
    (.ontologyError s!"existing entity type is absent from the current ontology: {schemaType}")
  match node with
  | some node =>
    let properties := merged node.properties properties
    onto.validateProperties schemaType properties
    return assign cleanId { node with properties } nodes
  | none =>
    onto.validateProperties schemaType properties
    return assign cleanId ⟨cleanId, entityType, cleanId, properties, false⟩ nodes

/-- The type of a node that an edge names for the first time. -/
def prefixType (onto : Ontology) (nodeId : String) : String :=
  let first := String.ofList (nodeId.toList.takeWhile (· ≠ ':'))
  if ':' ∈ nodeId.toList ∧ first ∈ onto.entityTypes then first else "concept"

/-- An endpoint of a new edge is created when it is not known. -/
def ensureNode (onto : Ontology) (nodes : Nodes) (nodeId : String) : Py Nodes :=
  match nodes.lookup nodeId with
  | some _ => .ok nodes
  | none => putNode onto nodes nodeId (prefixType onto nodeId) []

/-- `txn.nodes[node_id]`. -/
def nodeOf (nodes : Nodes) (nodeId : String) : Py Node :=
  match nodes.lookup nodeId with
  | some node => .ok node
  | none => .error (.keyError nodeId)

/-- The endpoints of a new edge, and what the ontology warns about. -/
def admitEnds (onto : Ontology) (nodes : Nodes) (rel : Relation) (key : Key) : Py (Nodes × List String) := do
  let nodes ← ensureNode onto nodes key.source
  let nodes ← ensureNode onto nodes key.target
  let source ← nodeOf nodes key.source
  let target ← nodeOf nodes key.target
  let problems ← onto.checkEdge rel source.entityType target.entityType
  return (nodes, problems)

/-- The arguments of `add_edge`. -/
structure Assertion where
  source : String
  target : String
  relation : String
  weight : ℚ
  validAt : Option ℤ
  invalidAt : Option ℤ
  expiredAt : Option ℤ
  properties : Properties
  validFrom : Option ℤ

/-- `valid_at or valid_from`. -/
def Assertion.explicitValidAt (call : Assertion) : Option ℤ := call.validAt <|> call.validFrom

/-- `RELATIONS`. -/
def relations : List String :=
  ["depends_on", "causes", "resolves", "affects", "supersedes", "scoped_to", "uses", "violates", "relates_to",
    "contains", "mentions", "raises", "updates", "extends", "derives"]

def fallbackRelation : String := "relates_to"

/-- The name under which a relation is stored. -/
def Ontology.storedName (onto : Ontology) (rel : Relation) : String :=
  if rel.name ∈ Graph.relations ∨ rel.name ∈ onto.relations then rel.name else fallbackRelation

/-- The key of a stored edge: the ends of an inverse relation change places. -/
def Ontology.storedKey (onto : Ontology) (rel : Relation) (source target relation : String) : Key :=
  let ends := if onto.isInverse relation then (target, source) else (source, target)
  ⟨onto.cleanId (onto.canonicalId ends.1), onto.cleanId (onto.canonicalId ends.2), onto.storedName rel⟩

/-- The relation of an assertion, and its key in the store. -/
def resolveKey (onto : Ontology) (source target relation : String) : Py (Relation × Key) := do
  let rel ← onto.relation relation
  return (rel, onto.storedKey rel source target relation)

/-- `_clamp_weight`: between 0 and 1, rounded half to even at three digits. -/
def clampWeight (weight : ℚ) : ℚ :=
  let scaled := 1000 * min 1 (max 0 weight)
  let low := ⌊scaled⌋
  let up := if scaled - low < 1 / 2 then low else if 1 / 2 < scaled - low then low + 1
    else if low % 2 = 0 then low else low + 1
  up / 1000

/-- `max(matching, key=...)`: the first of the latest edges of a key, and its place. -/
def latest (key : Key) (edges : List Edge) : Option (ℕ × Edge) :=
  edges.zipIdx.foldl (fun best item ↦
    if item.1.key = key ∧ best.all (fun found ↦ found.2.validAt < item.1.validAt) then some (item.2, item.1)
    else best) none

/-- An assertion that only repeats the latest edge of its key. -/
def Repeats (call : Assertion) (now : ℤ) (edge : Edge) : Prop :=
  (call.explicitValidAt = none ∧ edge.invalidAt = none ∧ call.invalidAt = none) ∨
    call.explicitValidAt.getD now ≤ edge.validAt

instance (call : Assertion) (now : ℤ) (edge : Edge) : Decidable (Repeats call now edge) := by
  unfold Repeats
  infer_instance

/-- The latest edge of a key after an assertion that repeats it. -/
def Edge.restate (edge : Edge) (weight : ℚ) (properties : Properties) : Edge :=
  { edge with
    weight := if edge.weight < weight then weight else edge.weight
    properties := if properties.isEmpty then edge.properties else merged edge.properties properties }

/-- The edges of a key that are still open end where a later edge of the key starts. -/
def closeRestated (key : Key) (validAt now : ℤ) (edge : Edge) : Edge :=
  if edge.key = key ∧ edge.invalidAt = none then edge.close validAt now s!"restated from {validAt}" else edge

/-- A new edge is appended after the edges that it ends. -/
def insertEdge (now : ℤ) (exclusive : Bool) (newEdge : Edge) (edges : List Edge) : List Edge × Edge :=
  let edges := edges.map (closeRestated newEdge.key newEdge.validAt now)
  let resolved := if exclusive then resolveExclusive now edges newEdge else (edges, newEdge)
  (resolved.1 ++ [resolved.2], resolved.2)

/-- The edge of an assertion. -/
def Assertion.edge (call : Assertion) (key : Key) (properties : Properties) (now : ℤ) : Edge where
  source := key.source
  target := key.target
  relation := key.relation
  weight := clampWeight call.weight
  validAt := call.explicitValidAt.getD now
  invalidAt := call.invalidAt
  expiredAt := call.expiredAt
  properties := properties
  createdAt := now

/-- The properties of an assertion with the warnings of the ontology. -/
def Assertion.warned (call : Assertion) (problems : List String) : Properties :=
  if problems.isEmpty then call.properties
  else assign "ontology_warnings" (.arr (problems.map .str)) call.properties

/-- The edges after an assertion that is admitted, and the returned edge. -/
def assertEdge (edges : List Edge) (call : Assertion) (rel : Relation) (key : Key) (properties : Properties)
    (now : ℤ) : List Edge × Edge :=
  match latest key edges with
  | some (place, edge) =>
    if Repeats call now edge then
      let edge := edge.restate (clampWeight call.weight) properties
      (edges.set place edge, edge)
    else insertEdge now rel.exclusive (call.edge key properties now) edges
  | none => insertEdge now rel.exclusive (call.edge key properties now) edges

/-- An edge must end after it starts. -/
def checkEnd (invalidAt : Option ℤ) (validAt : ℤ) : Py Unit :=
  match invalidAt with
  | none => .ok ()
  | some moment => Py.require (validAt < moment)
      (.valueError s!"edge `invalid_at` ({moment}) must be after `valid_at` ({validAt})")

/-- `add_edge`. -/
def addEdge (onto : Ontology) (store : Store) (call : Assertion) (now : ℤ) : Py (Store × Edge) := do
  let source := onto.cleanId call.source
  let target := onto.cleanId call.target
  Py.require (source ≠ "" ∧ target ≠ "") (.valueError "Source and target must be non-empty")
  let validAt := call.explicitValidAt.getD now
  checkEnd call.invalidAt validAt
  let (rel, key) ← resolveKey onto source target call.relation
  let (nodes, problems) ← admitEnds onto store.nodes rel key
  let (edges, edge) := assertEdge store.edges call rel key (call.warned problems) now
  return (⟨nodes, edges⟩, edge)

variable {onto : Ontology} {store next : Store} {call : Assertion} {key : Key} {edges : List Edge}
  {edge newEdge : Edge} {now : ℤ}

theorem latest_concat (key : Key) (edges : List Edge) (edge : Edge) :
    latest key (edges ++ [edge]) =
      if edge.key = key ∧ (latest key edges).all (fun found ↦ found.2.validAt < edge.validAt)
      then some (edges.length, edge) else latest key edges := by
  rw [latest, List.zipIdx_append, List.foldl_append, latest]
  simp

theorem latest_eq_none (h : latest key edges = none) : ∀ edge ∈ edges, edge.key ≠ key := by
  induction edges using List.reverseRecOn with
  | nil => exact fun edge hmem ↦ absurd hmem List.not_mem_nil
  | append_singleton edges last ih =>
    rw [latest_concat] at h
    split_ifs at h with hlast
    intro edge hmem
    rcases List.mem_append.mp hmem with hmem | hmem
    · exact ih h edge hmem
    · obtain rfl := List.mem_singleton.mp hmem
      rw [h] at hlast
      exact fun hkey ↦ hlast ⟨hkey, rfl⟩

theorem latest_eq_some {place : ℕ} (h : latest key edges = some (place, edge)) :
    edges[place]? = some edge ∧ edge.key = key ∧ ∀ other ∈ edges, other.key = key → other.validAt ≤ edge.validAt := by
  induction edges using List.reverseRecOn generalizing place edge with
  | nil => cases h
  | append_singleton edges last ih =>
    rw [latest_concat] at h
    split_ifs at h with hlast
    · obtain ⟨rfl, rfl⟩ := Prod.mk.inj (Option.some.inj h)
      refine ⟨List.getElem?_concat_length, hlast.1, fun other hmem hkey ↦ ?_⟩
      rcases List.mem_append.mp hmem with hmem | hmem
      · cases hfound : latest key edges with
        | none => exact absurd hkey (latest_eq_none hfound other hmem)
        | some found =>
          obtain ⟨-, -, hmost⟩ := ih hfound
          have hlt : found.2.validAt < last.validAt := by simpa [hfound] using hlast.2
          exact (hmost other hmem hkey).trans hlt.le
      · exact (List.mem_singleton.mp hmem).symm ▸ le_rfl
    · obtain ⟨hplace, hkey, hmost⟩ := ih h
      refine ⟨?_, hkey, fun other hmem hother ↦ ?_⟩
      · obtain ⟨hlt, -⟩ := List.getElem?_eq_some_iff.mp hplace
        rw [List.getElem?_append_left hlt]
        exact hplace
      · rcases List.mem_append.mp hmem with hmem | hmem
        · exact hmost other hmem hother
        · obtain rfl := List.mem_singleton.mp hmem
          by_contra hnot
          exact hlast ⟨hother, by simpa [h] using hnot⟩

/-- The key of an assertion whose relation resolves. -/
def Assertion.storedKey (call : Assertion) (onto : Ontology) (rel : Relation) : Key :=
  onto.storedKey rel (onto.cleanId call.source) (onto.cleanId call.target) call.relation

/-- An assertion with names and a valid interval. -/
def Assertion.WellFormed (call : Assertion) (onto : Ontology) (now : ℤ) : Prop :=
  onto.cleanId call.source ≠ "" ∧ onto.cleanId call.target ≠ "" ∧
    ∀ stop, call.invalidAt = some stop → call.explicitValidAt.getD now < stop

theorem checkEnd_eq_ok_iff {invalidAt : Option ℤ} {validAt : ℤ} {result : Unit} :
    checkEnd invalidAt validAt = .ok result ↔ ∀ stop, invalidAt = some stop → validAt < stop := by
  cases invalidAt with
  | none => simp [checkEnd]
  | some stop => simp [checkEnd]

theorem addEdge_eq_ok_iff :
    addEdge onto store call now = .ok (next, edge) ↔ call.WellFormed onto now ∧
      ∃ rel problems, onto.relation call.relation = .ok rel ∧
        admitEnds onto store.nodes rel (call.storedKey onto rel) = .ok (next.nodes, problems) ∧
        assertEdge store.edges call rel (call.storedKey onto rel) (call.warned problems) now =
          (next.edges, edge) := by
  constructor
  · intro h
    obtain ⟨_, hnames, h⟩ := Py.of_bind h
    obtain ⟨_, hend, h⟩ := Py.of_bind h
    obtain ⟨⟨rel, key⟩, hkey, h⟩ := Py.of_bind h
    obtain ⟨⟨nodes, problems⟩, hends, h⟩ := Py.of_bind h
    obtain ⟨found, hrel, hname⟩ := Py.of_bind hkey
    obtain ⟨rfl, rfl⟩ := Prod.mk.inj (Except.ok.inj hname)
    obtain ⟨rfl, rfl⟩ := Prod.mk.inj (Except.ok.inj h)
    rw [Py.require_eq_ok_iff, decide_eq_true_eq] at hnames
    exact ⟨⟨hnames.1, hnames.2, checkEnd_eq_ok_iff.mp hend⟩, found, problems, hrel, hends, rfl⟩
  · rintro ⟨⟨hsource, htarget, hend⟩, rel, problems, hrel, hends, hedges⟩
    have hnames : (onto.cleanId call.source ≠ "" ∧ onto.cleanId call.target ≠ "") := ⟨hsource, htarget⟩
    have hchecked : checkEnd call.invalidAt (call.explicitValidAt.getD now) = .ok () :=
      checkEnd_eq_ok_iff.mpr hend
    simp only [addEdge, resolveKey, hrel, hchecked, decide_eq_true hnames, Py.require_true, Py.bind_ok, Py.pure_eq_ok]
    rw [Assertion.storedKey] at hends hedges
    rw [hends, Py.bind_ok]
    simp only [hedges]

theorem assertEdge_cases (edges : List Edge) (call : Assertion) (rel : Relation) (key : Key)
    (properties : Properties) (now : ℤ) :
    (∃ place edge, latest key edges = some (place, edge) ∧ Repeats call now edge ∧
      assertEdge edges call rel key properties now =
        (edges.set place (edge.restate (clampWeight call.weight) properties),
          edge.restate (clampWeight call.weight) properties)) ∨
    (∀ place edge, latest key edges = some (place, edge) → ¬Repeats call now edge) ∧
      assertEdge edges call rel key properties now =
        insertEdge now rel.exclusive (call.edge key properties now) edges := by
  unfold assertEdge
  cases hlatest : latest key edges with
  | none => exact .inr ⟨fun _ _ h ↦ absurd h (by simp), rfl⟩
  | some found =>
    obtain ⟨place, edge⟩ := found
    by_cases hrepeats : Repeats call now edge
    · exact .inl ⟨place, edge, rfl, hrepeats, by simp only [if_pos hrepeats]⟩
    · refine .inr ⟨fun _ _ h ↦ ?_, by simp only [if_neg hrepeats]⟩
      obtain ⟨rfl, rfl⟩ := Prod.mk.inj (Option.some.inj h)
      exact hrepeats

/-- What the loop leaves of the new edge besides its end. -/
structure SameStart (first second : Edge) : Prop where
  source : second.source = first.source
  target : second.target = first.target
  relation : second.relation = first.relation
  validAt : second.validAt = first.validAt
  createdAt : second.createdAt = first.createdAt

theorem SameStart.key_eq {first second : Edge} (h : SameStart first second) : second.key = first.key := by
  rw [Edge.key, h.source, h.target, h.relation, Edge.key]

theorem SameStart.competes_iff {first second : Edge} (h : SameStart first second) :
    Competes second edge ↔ Competes first edge := by
  rw [Competes, h.source, h.relation, h.target, Competes]

theorem SameStart.overtaken_iff {first second : Edge} (h : SameStart first second) :
    Overtaken second edge ↔ Overtaken first edge := by
  rw [Overtaken, h.validAt, Overtaken]

/-- The stored edges that the new edge ends. -/
def supersede (now : ℤ) (newEdge edge : Edge) : Edge :=
  if Competes newEdge edge ∧ Overtaken newEdge edge then
    edge.close newEdge.validAt now s!"superseded by {newEdge.target}"
  else edge

theorem resolveEdge_fst (now : ℤ) (edge newEdge : Edge) :
    (resolveEdge now edge newEdge).1 = supersede now newEdge edge := by
  unfold resolveEdge supersede
  by_cases hcompetes : Competes newEdge edge
  · by_cases hovertaken : Overtaken newEdge edge
    · rw [if_neg (not_not.mpr hcompetes), if_pos hovertaken, if_pos ⟨hcompetes, hovertaken⟩]
    · rw [if_neg (not_not.mpr hcompetes), if_neg hovertaken,
        if_neg (c := Competes newEdge edge ∧ _) fun h ↦ hovertaken h.2]
      split_ifs <;> rfl
  · rw [if_pos hcompetes, if_neg fun h ↦ hcompetes h.1]

theorem resolveEdge_snd (now : ℤ) (edge newEdge : Edge) :
    SameStart newEdge (resolveEdge now edge newEdge).2 := by
  unfold resolveEdge
  split_ifs <;> exact ⟨rfl, rfl, rfl, rfl, rfl⟩

theorem resolveExclusive_snd (now : ℤ) (edges : List Edge) (newEdge : Edge) :
    SameStart newEdge (resolveExclusive now edges newEdge).2 := by
  induction edges generalizing newEdge with
  | nil => exact ⟨rfl, rfl, rfl, rfl, rfl⟩
  | cons edge edges ih =>
    have hfirst := resolveEdge_snd now edge newEdge
    have hrest := ih (resolveEdge now edge newEdge).2
    exact ⟨hrest.source.trans hfirst.source, hrest.target.trans hfirst.target,
      hrest.relation.trans hfirst.relation, hrest.validAt.trans hfirst.validAt,
      hrest.createdAt.trans hfirst.createdAt⟩

theorem resolveExclusive_fst (now : ℤ) (edges : List Edge) (newEdge : Edge) :
    (resolveExclusive now edges newEdge).1 = edges.map (supersede now newEdge) := by
  induction edges generalizing newEdge with
  | nil => rfl
  | cons edge edges ih =>
    have hfirst := resolveEdge_snd now edge newEdge
    rw [List.map_cons, ← resolveEdge_fst, resolveExclusive]
    refine congrArg (_ :: ·) ((ih _).trans (List.map_congr_left fun other _ ↦ ?_))
    unfold supersede
    rw [hfirst.validAt, hfirst.target]
    exact if_congr (and_congr hfirst.competes_iff hfirst.overtaken_iff) rfl rfl

theorem invalidAt_resolveEdge (now : ℤ) (edge newEdge : Edge) :
    (resolveEdge now edge newEdge).2.invalidAt =
      if Competes newEdge edge ∧ newEdge.validAt < edge.validAt ∧ newEdge.invalidAt.all (edge.validAt < ·)
      then some edge.validAt else newEdge.invalidAt := by
  unfold resolveEdge
  by_cases hcompetes : Competes newEdge edge
  · rw [if_neg (not_not.mpr hcompetes)]
    by_cases hovertaken : Overtaken newEdge edge
    · rw [if_pos hovertaken, if_neg fun h ↦ absurd hovertaken.1 (not_le.mpr h.2.1)]
    · rw [if_neg hovertaken]
      simp only [hcompetes, true_and]
      split_ifs <;> rfl
  · rw [if_pos hcompetes, if_neg fun h ↦ hcompetes h.1]

/-- The edge has not ended at a moment. -/
def Edge.OpenAt (edge : Edge) (moment : ℤ) : Prop := ∀ stop, edge.invalidAt = some stop → moment < stop

theorem openAt_resolveEdge (now : ℤ) (edge newEdge : Edge) (moment : ℤ) :
    (resolveEdge now edge newEdge).2.OpenAt moment ↔ newEdge.OpenAt moment ∧
      (Competes newEdge edge → newEdge.validAt < edge.validAt → moment < edge.validAt) := by
  rw [Edge.OpenAt, invalidAt_resolveEdge]
  by_cases hcompetes : Competes newEdge edge ∧ newEdge.validAt < edge.validAt
  · cases hstop : newEdge.invalidAt with
    | none => simp [Edge.OpenAt, hcompetes, hstop]
    | some stop =>
      by_cases hlt : edge.validAt < stop
      · simp [Edge.OpenAt, hcompetes, hstop, hlt]
        omega
      · simp [Edge.OpenAt, hcompetes, hstop, hlt]
        omega
  · rw [if_neg fun h ↦ hcompetes ⟨h.1, h.2.1⟩]
    exact (and_iff_left fun h hlt ↦ absurd ⟨h, hlt⟩ hcompetes).symm

theorem openAt_resolveExclusive (now : ℤ) (edges : List Edge) (newEdge : Edge) (moment : ℤ) :
    (resolveExclusive now edges newEdge).2.OpenAt moment ↔ newEdge.OpenAt moment ∧
      ∀ edge ∈ edges, Competes newEdge edge → newEdge.validAt < edge.validAt → moment < edge.validAt := by
  induction edges generalizing newEdge with
  | nil => exact (and_iff_left fun edge hmem ↦ absurd hmem List.not_mem_nil).symm
  | cons edge edges ih =>
    have hfirst := resolveEdge_snd now edge newEdge
    rw [resolveExclusive, List.forall_mem_cons, ← and_assoc, ← openAt_resolveEdge now]
    refine (ih _).trans (and_congr_right fun _ ↦ forall₂_congr fun other _ ↦ ?_)
    rw [hfirst.competes_iff, hfirst.validAt]

variable {nodes added : Nodes} {rel : Relation} {nodeId entityType : String} {problems : List String}

/-- A new endpoint is created under its own id and with this type. -/
structure Created (onto : Ontology) (nodeId entityType : String) : Prop where
  canonical : onto.cleanId (onto.canonicalId (onto.cleanId nodeId)) = nodeId
  ne_empty : nodeId ≠ ""
  typed : onto.entityType (prefixType onto nodeId) = .ok entityType
  known : entityType ∈ onto.entityTypes
  valid : onto.validateProperties entityType [] = .ok ()

/-- An endpoint has a type, or gets it when it is created. -/
def HasType (onto : Ontology) (nodes : Nodes) (nodeId entityType : String) : Prop :=
  (∃ node, nodes.lookup nodeId = some node ∧ node.entityType = entityType) ∨
    nodes.lookup nodeId = none ∧ Created onto nodeId entityType

theorem putNode_of_created (h : Created onto nodeId entityType) (hnone : nodes.lookup nodeId = none) :
    putNode onto nodes nodeId (prefixType onto nodeId) [] =
      .ok (assign nodeId ⟨nodeId, entityType, nodeId, [], false⟩ nodes) := by
  simp only [putNode, h.canonical, h.ne_empty, h.typed, hnone, h.known, h.valid, Py.bind_ok, Py.require_true,
    Option.map_none, Option.getD_none, decide_true, ne_eq, not_false_eq_true, Py.pure_eq_ok]

theorem ensureNode_of_hasType (h : HasType onto nodes nodeId entityType) :
    ∃ added, ensureNode onto nodes nodeId = .ok added ∧
      (∃ node, added.lookup nodeId = some node ∧ node.entityType = entityType) ∧
      (∀ other node, nodes.lookup other = some node → added.lookup other = some node) ∧
      ∀ other otherType, HasType onto added other otherType ↔ HasType onto nodes other otherType := by
  rcases h with ⟨node, hnode, htype⟩ | ⟨hnone, hcreated⟩
  · refine ⟨nodes, ?_, ⟨node, hnode, htype⟩, fun _ _ h ↦ h, fun _ _ ↦ Iff.rfl⟩
    rw [ensureNode, hnode]
  · refine ⟨assign nodeId ⟨nodeId, entityType, nodeId, [], false⟩ nodes, ?_,
      ⟨_, by rw [lookup_assign, if_pos rfl], rfl⟩, fun other node hnode ↦ ?_, fun other otherType ↦ ?_⟩
    · rw [ensureNode, hnone]
      exact putNode_of_created hcreated hnone
    · have hother : other ≠ nodeId := by
        rintro rfl
        rw [hnone] at hnode
        cases hnode
      rw [lookup_assign, if_neg hother]
      exact hnode
    · by_cases hother : other = nodeId
      · subst hother
        have hunique : Created onto other otherType ↔ entityType = otherType :=
          ⟨fun h ↦ Except.ok.inj (hcreated.typed.symm.trans h.typed), fun heq ↦ heq ▸ hcreated⟩
        simp [HasType, lookup_assign, hnone, hunique]
      · simp only [HasType, lookup_assign, if_neg hother]

theorem ensureNode_cases (h : ensureNode onto nodes nodeId = .ok added) :
    (∃ entityType, HasType onto nodes nodeId entityType) ∨
      nodes.lookup nodeId = none ∧ ∃ created ≠ nodeId, ∃ node, added = assign created node nodes := by
  cases hnode : nodes.lookup nodeId with
  | some node => exact .inl ⟨_, .inl ⟨node, hnode, rfl⟩⟩
  | none =>
    rw [ensureNode, hnode] at h
    obtain ⟨_, hempty, h⟩ := Py.of_bind h
    obtain ⟨entityType, htype, h⟩ := Py.of_bind h
    obtain ⟨_, hknown, h⟩ := Py.of_bind h
    by_cases hcanonical : onto.cleanId (onto.canonicalId (onto.cleanId nodeId)) = nodeId
    · rw [hcanonical] at hempty hknown h
      simp only [hnode, Option.map_none, Option.getD_none] at hknown h
      obtain ⟨_, hvalid, -⟩ := Py.of_bind h
      exact .inl ⟨entityType, .inr ⟨hnode, hcanonical, by simpa using hempty, htype, by simpa using hknown, hvalid⟩⟩
    · refine .inr ⟨rfl, _, hcanonical, ?_⟩
      split at h
      · obtain ⟨_, h⟩ := Py.of_rest h
        exact ⟨_, (Except.ok.inj h).symm⟩
      · obtain ⟨_, h⟩ := Py.of_rest h
        exact ⟨_, (Except.ok.inj h).symm⟩

theorem nodeOf_eq_ok_iff {node : Node} : nodeOf nodes nodeId = .ok node ↔ nodes.lookup nodeId = some node := by
  unfold nodeOf
  cases nodes.lookup nodeId with
  | none => simp
  | some found => simp

theorem admitEnds_of_hasType {sourceType targetType : String} (hsource : HasType onto nodes key.source sourceType)
    (htarget : HasType onto nodes key.target targetType)
    (hcheck : onto.checkEdge rel sourceType targetType = .ok problems) :
    ∃ added, admitEnds onto nodes rel key = .ok (added, problems) ∧
      ∀ other otherType, HasType onto added other otherType ↔ HasType onto nodes other otherType := by
  obtain ⟨first, hfirst, ⟨source, hsourceNode, rfl⟩, -, hsame⟩ := ensureNode_of_hasType hsource
  obtain ⟨second, hsecond, ⟨target, htargetNode, rfl⟩, hstays, hsame'⟩ :=
    ensureNode_of_hasType ((hsame _ _).mpr htarget)
  refine ⟨second, ?_, fun other otherType ↦ (hsame' other otherType).trans (hsame other otherType)⟩
  rw [admitEnds, hfirst, Py.bind_ok, hsecond, Py.bind_ok, nodeOf_eq_ok_iff.mpr (hstays _ _ hsourceNode),
    Py.bind_ok, nodeOf_eq_ok_iff.mpr htargetNode, Py.bind_ok, hcheck]
  rfl

theorem hasType_of_admitEnds (h : admitEnds onto nodes rel key = .ok (added, problems)) :
    ∃ sourceType targetType, HasType onto nodes key.source sourceType ∧
      HasType onto nodes key.target targetType ∧ onto.checkEdge rel sourceType targetType = .ok problems := by
  obtain ⟨first, hfirst, h⟩ := Py.of_bind h
  obtain ⟨second, hsecond, h⟩ := Py.of_bind h
  obtain ⟨source, hsource, h⟩ := Py.of_bind h
  obtain ⟨target, htarget, h⟩ := Py.of_bind h
  obtain ⟨_, hcheck, h⟩ := Py.of_bind h
  rw [nodeOf_eq_ok_iff] at hsource htarget
  obtain rfl : _ = problems := (Prod.mk.inj (Except.ok.inj h)).2
  -- An endpoint that could not be created under its id would not be found.
  have htyped : ∃ targetType, HasType onto first key.target targetType := by
    obtain htyped | ⟨hnone, created, hne, node, rfl⟩ := ensureNode_cases hsecond
    · exact htyped
    · rw [lookup_assign, if_neg hne.symm, hnone] at htarget
      cases htarget
  obtain ⟨targetType, htargetType⟩ := htyped
  obtain ⟨second', hsecond', ⟨target', htarget', htargetEq⟩, hstays, hsame⟩ := ensureNode_of_hasType htargetType
  obtain rfl : second = second' := Except.ok.inj (hsecond.symm.trans hsecond')
  obtain rfl : target = target' := Option.some.inj (htarget.symm.trans htarget')
  have htypedSource : ∃ sourceType, HasType onto nodes key.source sourceType := by
    obtain htyped | ⟨hnone, created, hne, node, rfl⟩ := ensureNode_cases hfirst
    · exact htyped
    · have hsourceNone : (assign created node nodes).lookup key.source = none := by
        rw [lookup_assign, if_neg hne.symm, hnone]
      obtain ⟨other, hother, -⟩ | ⟨-, hcreated⟩ := (hsame key.source source.entityType).mp
        (.inl ⟨source, hsource, rfl⟩)
      · rw [hsourceNone] at hother
        cases hother
      · exact ⟨_, .inr ⟨hnone, hcreated⟩⟩
  obtain ⟨sourceType, hsourceType⟩ := htypedSource
  obtain ⟨first', hfirst', ⟨source', hsource', hsourceEq⟩, -, hsame'⟩ := ensureNode_of_hasType hsourceType
  obtain rfl : first = first' := Except.ok.inj (hfirst.symm.trans hfirst')
  obtain rfl : source' = source := Option.some.inj ((hstays _ _ hsource').symm.trans hsource)
  refine ⟨sourceType, targetType, hsourceType, (hsame' _ _).mp htargetType, ?_⟩
  rw [← hsourceEq, ← htargetEq]
  exact hcheck

theorem hasType_admitEnds (h : admitEnds onto nodes rel key = .ok (added, problems)) (other otherType : String) :
    HasType onto added other otherType ↔ HasType onto nodes other otherType := by
  obtain ⟨sourceType, targetType, hsource, htarget, hcheck⟩ := hasType_of_admitEnds h
  obtain ⟨same, hsame, htypes⟩ := admitEnds_of_hasType hsource htarget hcheck
  obtain rfl : same = added := (Prod.mk.inj (Except.ok.inj (hsame.symm.trans h))).1
  exact htypes other otherType

end UniMem.Graph
