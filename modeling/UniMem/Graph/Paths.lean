import UniMem.Graph.Snapshot
import UniMem.Library.BreadthFirst
import UniMem.Python.Collections

/-!
# Shortest paths in the graph

`shortest_path` is a bounded breadth-first search over the active edges of a snapshot. It finds a shortest path
within its number of hops unless it reports that a bound was reached.
-/

namespace UniMem.Graph

open Library Library.BreadthFirst

/-- The directions of a search. -/
inductive Direction where
  | incoming
  | outgoing
  | both
  deriving DecidableEq

/-- The check of a direction. -/
def directionOf (direction : String) : Py Direction :=
  if direction = "in" then .ok .incoming
  else if direction = "out" then .ok .outgoing
  else if direction = "both" then .ok .both
  else .error (.valueError "direction must be in, out or both")

/-- `_relation_filter`. -/
def relationFilter (relations : Option (List String)) : Py (Option (List String)) :=
  match relations with
  | none => .ok none
  | some names =>
    if 64 < names.length ∨ names.any fun name ↦ ¬(1 ≤ name.length ∧ name.length ≤ 128) then
      .error (.valueError "relations must contain at most 64 bounded relation names")
    else .ok (some names.dedup)

/-- `MAX_HOPS`. -/
def maxHopsLimit : ℤ := 4

/-- The arguments of `shortest_path`. -/
structure PathCall where
  source : String
  target : String
  maxHops : ℤ
  relations : Option (List String)
  direction : String
  asOf : Option String
  knownAt : Option String
  maxNodes : ℤ
  maxExaminedEdges : ℤ

/-- The arguments after their checks. -/
structure Query where
  source : String
  target : String
  maxHops : ℕ
  relations : Option (List String)
  direction : Direction
  view : View
  maxNodes : ℕ
  maxExaminedEdges : ℕ

/-- A bound of `shortest_path`. -/
def bounded (name : String) (value lower upper : ℤ) : Py ℕ :=
  if lower ≤ value ∧ value ≤ upper then .ok value.toNat
  else .error (.valueError s!"{name} must be an integer in {lower}..{upper}")

/-- The checks of `shortest_path`, and the clock of a view of the present. -/
def PathCall.query (call : PathCall) (moments : Moments) (cleanId : String → String) (now : ℤ) : Py Query := do
  let maxHops ← bounded "max_hops" call.maxHops 0 maxHopsLimit
  let maxNodes ← bounded "max_nodes" call.maxNodes 1 100_000
  let maxExaminedEdges ← bounded "max_examined_edges" call.maxExaminedEdges 1 1_000_000
  let direction ← directionOf call.direction
  let relations ← relationFilter call.relations
  let moment ← moments.argument call.asOf
  let knownAt ← moments.argument call.knownAt
  let currentAt := if moment = none ∧ knownAt = none then some now else none
  return ⟨cleanId call.source, cleanId call.target, maxHops, relations, direction, ⟨moment, knownAt, currentAt⟩,
    maxNodes, maxExaminedEdges⟩

theorem query_bounds {call : PathCall} {moments : Moments} {cleanId : String → String} {now : ℤ} {query : Query}
    (h : call.query moments cleanId now = .ok query) : 1 ≤ query.maxNodes := by
  obtain ⟨maxHops, -, h⟩ := Py.of_bind h
  obtain ⟨maxNodes, hnodes, h⟩ := Py.of_bind h
  obtain ⟨maxExaminedEdges, -, h⟩ := Py.of_bind h
  obtain ⟨direction, -, h⟩ := Py.of_bind h
  obtain ⟨relations, -, h⟩ := Py.of_bind h
  obtain ⟨moment, -, h⟩ := Py.of_bind h
  obtain ⟨knownAt, -, h⟩ := Py.of_bind h
  obtain rfl := Except.ok.inj h
  unfold bounded at hnodes
  split_ifs at hnodes with hrange
  have hvalue := Except.ok.inj hnodes
  dsimp only
  omega

/-- The bound that a search has reached. -/
inductive Budget where
  | edges
  | nodes
  deriving DecidableEq

/-- The state of the loops. -/
structure Search where
  parents : Parents String ℕ
  queue : List (String × ℕ)
  examined : ℕ
  found : Bool
  exhausted : Option Budget

/-- What a search runs on. -/
structure Setup where
  moments : Moments
  index : FullIndex
  query : Query
  now : ℤ

/-- A node that exists and is not forgotten. -/
def Setup.live (setup : Setup) (node : String) : Bool :=
  (setup.index.nodes.lookup node).any fun found ↦ !found.isForgotten

/-- An edge whose direction does not allow a step from a node. -/
def Setup.against (setup : Setup) (edge : StoredEdge) (current : String) : Bool :=
  match setup.query.direction with
  | .outgoing => edge.source ≠ current
  | .incoming => edge.target ≠ current
  | .both => false

/-- The other end of an edge. -/
def neighbor (edge : StoredEdge) (current : String) : String :=
  if edge.source = current then edge.target else edge.source

/-- Whether the search takes the edge to a new node. -/
def Setup.admits (setup : Setup) (parents : Parents String ℕ) (edge : StoredEdge) (current : String) : Bool :=
  !setup.against edge current && !decide (neighbor edge current ∈ seen parents) &&
    setup.live (neighbor edge current) && edge.isActive setup.moments setup.query.view setup.now

/-- The loop over the edges of a node. -/
def Setup.scan (setup : Setup) (current : String) (depth : ℕ) : List ℕ → Search → Py Search
  | [], search => .ok search
  | position :: rest, search =>
    if setup.query.maxExaminedEdges ≤ search.examined then .ok { search with exhausted := some .edges }
    else
      match setup.index.edges[position]? with
      | none => .error (.indexError "list index out of range")
      | some edge =>
        let search := { search with examined := search.examined + 1 }
        if ¬setup.admits search.parents edge current then setup.scan current depth rest search
        else if setup.query.maxNodes ≤ search.parents.length then .ok { search with exhausted := some .nodes }
        else
          let next := neighbor edge current
          let parents := search.parents ++ [(next, some (current, position))]
          if next = setup.query.target then .ok { search with parents, found := true }
          else setup.scan current depth rest { search with parents, queue := search.queue ++ [(next, depth + 1)] }

/-- The loop over the queue, for at most `fuel` nodes. -/
def Setup.loop (setup : Setup) : ℕ → Search → Py Search
  | 0, _ => .error (.runtimeError "the search goes on")
  | fuel + 1, search =>
    if search.found ∨ search.exhausted.isSome then .ok search
    else
      match search.queue with
      | [] => .ok search
      | (current, depth) :: queue =>
        if setup.query.maxHops ≤ depth then setup.loop fuel { search with queue }
        else do
          let search ← setup.scan current depth (incidentPositions setup.index current setup.query.relations)
            { search with queue }
          setup.loop fuel search

inductive Status where
  | found
  | notFound
  | budgetExhausted
  deriving DecidableEq

/-- One step of a path. -/
structure PathStep where
  start : String
  stop : String
  direction : String

/-- What `shortest_path` returns, with the nodes and the positions of the edges. -/
structure PathResult where
  status : Status
  reason : Option String
  identities : List String
  positions : List ℕ
  nodes : List Node
  edges : List StoredEdge
  steps : List PathStep
  hops : Option ℕ
  visitedNodes : ℕ
  examinedEdges : ℕ

/-- A result without a path. -/
def PathResult.without (status : Status) (reason : String) (visited examined : ℕ) : PathResult :=
  ⟨status, some reason, [], [], [], [], [], none, visited, examined⟩

/-- The step along an edge from a node to the next one. -/
def pathStep (edge : StoredEdge) (start stop : String) : PathStep :=
  ⟨start, stop, if edge.source = start then "out" else "in"⟩

/-- A result with a path. -/
def PathResult.along (identities : List String) (positions : List ℕ) (nodes : List Node) (edges : List StoredEdge)
    (visited examined : ℕ) : PathResult where
  status := .found
  reason := none
  identities := identities
  positions := positions
  nodes := nodes
  edges := edges
  steps := (edges.zip (identities.zip identities.tail)).map fun (edge, start, stop) ↦ pathStep edge start stop
  hops := some positions.length
  visitedNodes := visited
  examinedEdges := examined

/-- The result of a search that has found its target. -/
def Setup.pathTo (setup : Setup) (search : Search) : Py PathResult :=
  match back search.parents (search.parents.length + 1) setup.query.target with
  | none => .error (.keyError setup.query.target)
  | some links => do
    let identities := (setup.query.target :: links.map Prod.fst).reverse
    let positions := (links.map Prod.snd).reverse
    let nodes ← Py.collect (Py.always (nodeOf setup.index.nodes)) identities
    let edges ← Py.collect (Py.always setup.index.edge) positions
    return .along identities positions nodes edges search.parents.length search.examined

/-- The result of a search that has ended. -/
def Setup.report (setup : Setup) (search : Search) : Py PathResult :=
  match search.exhausted with
  | some .edges => .ok (.without .budgetExhausted "edge-budget" search.parents.length search.examined)
  | some .nodes => .ok (.without .budgetExhausted "node-budget" search.parents.length search.examined)
  | none =>
    if search.found then setup.pathTo search
    else .ok (.without .notFound "no-path-within-hop-limit" search.parents.length search.examined)

/-- The state before the loop. -/
def Query.start (query : Query) : Search :=
  ⟨[(query.source, none)], [(query.source, 0)], 0, query.source = query.target, none⟩

/-- `shortest_path` on a snapshot. -/
def shortestPath (moments : Moments) (cleanId : String → String) (index : FullIndex) (call : PathCall) (now : ℤ) :
    Py PathResult := do
  let query ← call.query moments cleanId now
  let setup : Setup := ⟨moments, index, query, now⟩
  if setup.live query.source ∧ setup.live query.target then
    let search ← setup.loop (index.nodes.length + 2) query.start
    setup.report search
  else return .without .notFound "missing-or-forgotten-endpoint" 0 0

/-- The edge leads from one node to another in a direction. -/
def Connects (direction : Direction) (edge : StoredEdge) (start stop : String) : Prop :=
  match direction with
  | .outgoing => edge.source = start ∧ edge.target = stop
  | .incoming => edge.target = start ∧ edge.source = stop
  | .both => (edge.source = start ∧ edge.target = stop) ∨ (edge.target = start ∧ edge.source = stop)

/-- An active edge of the filter that leads to a node which exists and is not forgotten. -/
def Setup.Hop (setup : Setup) (start : String) (position : ℕ) (stop : String) : Prop :=
  ∃ edge, setup.index.edges[position]? = some edge ∧ Connects setup.query.direction edge start stop ∧
    (∀ names, setup.query.relations = some names → edge.relation ∈ names) ∧
    edge.isActive setup.moments setup.query.view setup.now = true ∧ setup.live stop = true

/-- The nodes and the positions of the edges of a path between the endpoints. -/
def Setup.Path (setup : Setup) (identities : List String) (positions : List ℕ) : Prop :=
  setup.live setup.query.source = true ∧
    Leads setup.Hop setup.query.source setup.query.target identities positions

/-- A step names the ends of its edge in the direction that it reports. -/
def Along (step : PathStep) (edge : StoredEdge) : Prop :=
  (step.direction = "out" ∧ edge.source = step.start ∧ edge.target = step.stop) ∨
    (step.direction = "in" ∧ edge.target = step.start ∧ edge.source = step.stop)

section Search

variable {setup : Setup}

variable {edge : StoredEdge} {stop current : String} {identities : List String} {positions : List ℕ}

theorem connects_iff {direction : Direction} {start : String} :
    Connects direction edge start stop ↔ (start = edge.source ∨ start = edge.target) ∧
      (direction = .outgoing → edge.source = start) ∧ (direction = .incoming → edge.target = start) ∧
      neighbor edge start = stop := by
  unfold Connects neighbor
  cases direction with
  | outgoing =>
    constructor
    · rintro ⟨rfl, rfl⟩
      simp
    · rintro ⟨-, hsource, -, hstop⟩
      have hstart := hsource rfl
      rw [if_pos hstart] at hstop
      exact ⟨hstart, hstop⟩
  | incoming =>
    constructor
    · rintro ⟨rfl, rfl⟩
      refine ⟨Or.inr rfl, by simp, fun _ ↦ rfl, ?_⟩
      split_ifs with hloop
      · exact hloop.symm
      · rfl
    · rintro ⟨-, -, htarget, hstop⟩
      have hstart := htarget rfl
      refine ⟨hstart, ?_⟩
      split_ifs at hstop with hloop
      · rw [hloop, ← hstart, hstop]
      · exact hstop
  | both =>
    simp only [reduceCtorEq, false_implies, true_and]
    constructor
    · rintro (⟨rfl, rfl⟩ | ⟨rfl, rfl⟩)
      · simp
      · refine ⟨Or.inr rfl, ?_⟩
        split_ifs with hloop
        · exact hloop.symm
        · rfl
    · rintro ⟨hends, hstop⟩
      split_ifs at hstop with hsource
      · exact Or.inl ⟨hsource, hstop⟩
      · exact Or.inr ⟨(hends.resolve_left fun heq ↦ hsource heq.symm).symm, hstop⟩

theorem not_against_iff :
    setup.against edge current = false ↔ (setup.query.direction = .outgoing → edge.source = current) ∧
      (setup.query.direction = .incoming → edge.target = current) := by
  unfold Setup.against
  cases setup.query.direction <;> simp

theorem hop_iff {nodes : Nodes} {edges : List StoredEdge} (hindex : setup.index = buildFullIndex nodes edges)
    {current stop : String} {position : ℕ} {edge : StoredEdge} (hedge : edges[position]? = some edge)
    (hlisted : position ∈ incidentPositions setup.index current setup.query.relations) :
    setup.Hop current position stop ↔ setup.against edge current = false ∧ neighbor edge current = stop ∧
      setup.live stop = true ∧ edge.isActive setup.moments setup.query.view setup.now = true := by
  have hedges : setup.index.edges = edges := by rw [hindex]; rfl
  rw [hindex] at hlisted
  obtain ⟨found, hfound, hends, hrelation⟩ := mem_incidentPositions.mp hlisted
  obtain rfl := Option.some.inj (hedge.symm.trans hfound)
  rw [not_against_iff]
  unfold Setup.Hop
  rw [hedges]
  constructor
  · rintro ⟨other, hother, hconnects, -, hactive, hlive⟩
    obtain rfl := Option.some.inj (hedge.symm.trans hother)
    obtain ⟨-, hsource, htarget, hstop⟩ := connects_iff.mp hconnects
    exact ⟨⟨hsource, htarget⟩, hstop, hlive, hactive⟩
  · rintro ⟨⟨hsource, htarget⟩, hstop, hlive, hactive⟩
    exact ⟨edge, hedge, connects_iff.mpr ⟨hends, hsource, htarget, hstop⟩, hrelation, hactive, hlive⟩

theorem listed_of_hop {nodes : Nodes} {edges : List StoredEdge}
    (hindex : setup.index = buildFullIndex nodes edges) {position : ℕ} (h : setup.Hop current position stop) :
    position ∈ incidentPositions setup.index current setup.query.relations := by
  obtain ⟨edge, hedge, hconnects, hrelation, -, -⟩ := h
  rw [hindex] at hedge ⊢
  exact mem_incidentPositions.mpr ⟨edge, hedge, (connects_iff.mp hconnects).1, hrelation⟩

/-- The bounds that a search respects. -/
structure Search.Within (search : Search) (setup : Setup) : Prop where
  examined : search.examined ≤ setup.query.maxExaminedEdges
  visited : search.parents.length ≤ setup.query.maxNodes
  live : ∀ node ∈ seen search.parents, setup.live node = true

/-- A search that has reached a bound. -/
def Search.Spent (search : Search) (setup : Setup) : Prop :=
  (search.exhausted = some .edges ∧ search.examined = setup.query.maxExaminedEdges) ∨
    (search.exhausted = some .nodes ∧ search.parents.length = setup.query.maxNodes)

/-- A search that has found its target at its distance from the source. -/
def Search.Reached (search : Search) (setup : Setup) : Prop :=
  search.found = true ∧ search.exhausted = none ∧
    ∃ depth, Tree setup.Hop setup.query.source search.parents depth ∧
      setup.query.target ∈ seen search.parents ∧ depth setup.query.target ≤ setup.query.maxHops ∧
      ∀ identities positions, Leads setup.Hop setup.query.source setup.query.target identities positions →
        depth setup.query.target ≤ positions.length

/-- A search that goes on, without its target. -/
structure Search.Open (search : Search) (setup : Setup) : Prop where
  found : search.found = false
  exhausted : search.exhausted = none
  target : setup.query.target ∉ seen search.parents

theorem scan_spec {nodes : Nodes} {edges : List StoredEdge} (hindex : setup.index = buildFullIndex nodes edges)
    {current : String} {level : ℕ} (positions : List ℕ)
    (hlisted : ∀ position ∈ positions, position ∈ incidentPositions setup.index current setup.query.relations)
    {search : Search} {depth : String → ℕ} {done : ℕ → Prop}
    (hscanning : Scanning setup.Hop setup.query.maxHops setup.query.source search.parents search.queue depth current
      level done) (hwithin : search.Within setup) (hopen : search.Open setup) :
    ∃ last, setup.scan current level positions search = .ok last ∧ last.Within setup ∧
      (last.Spent setup ∨ last.Reached setup ∨
        (last.Open setup ∧ search.queue.length + last.parents.length = last.queue.length + search.parents.length ∧
          ∃ depth, Scanning setup.Hop setup.query.maxHops setup.query.source last.parents last.queue depth current
            level fun position ↦ done position ∨ position ∈ positions)) := by
  induction positions generalizing search depth done with
  | nil =>
    refine ⟨search, rfl, hwithin, Or.inr (Or.inr ⟨hopen, rfl, depth, ?_⟩)⟩
    simpa using hscanning
  | cons position rest ih =>
    have hrest : ∀ other ∈ rest, other ∈ incidentPositions setup.index current setup.query.relations :=
      fun other hother ↦ hlisted other (List.mem_cons_of_mem _ hother)
    have hposition := hlisted position List.mem_cons_self
    obtain ⟨edge, hedge, -, -⟩ := mem_incidentPositions.mp (hindex ▸ hposition)
    have hfound : setup.index.edges[position]? = some edge := by rw [hindex]; exact hedge
    have hhop := fun stop ↦ @hop_iff setup nodes edges hindex current stop position edge hedge hposition
    rw [Setup.scan]
    by_cases hbudget : setup.query.maxExaminedEdges ≤ search.examined
    · rw [if_pos hbudget]
      exact ⟨_, rfl, ⟨hwithin.examined, hwithin.visited, hwithin.live⟩,
        Or.inl (Or.inl ⟨rfl, hwithin.examined.antisymm hbudget⟩)⟩
    · rw [if_neg hbudget, hfound]
      dsimp only
      have hcounted : search.examined + 1 ≤ setup.query.maxExaminedEdges := not_le.mp hbudget
      by_cases hadmits : setup.admits search.parents edge current = true
      · rw [if_neg (not_not.mpr hadmits)]
        simp only [Setup.admits, Bool.and_eq_true, Bool.not_eq_true', decide_eq_false_iff_not] at hadmits
        obtain ⟨⟨⟨hagainst, hnew⟩, hlive⟩, hactive⟩ := hadmits
        have hstep : setup.Hop current position (neighbor edge current) :=
          (hhop _).mpr ⟨hagainst, rfl, hlive, hactive⟩
        have honly : ∀ other, setup.Hop current position other → other = neighbor edge current :=
          fun other hother ↦ ((hhop other).mp hother).2.1.symm
        by_cases hfull : setup.query.maxNodes ≤ search.parents.length
        · rw [if_pos hfull]
          exact ⟨_, rfl, ⟨hcounted, hwithin.visited, hwithin.live⟩,
            Or.inl (Or.inr ⟨rfl, hwithin.visited.antisymm hfull⟩)⟩
        · rw [if_neg hfull]
          have hinsert := hscanning.insert hstep honly hnew
          have hwithin' : ∀ queue found, Search.Within
              ⟨search.parents ++ [(neighbor edge current, some (current, position))], queue, search.examined + 1,
                found, search.exhausted⟩ setup := by
            intro queue found
            refine ⟨hcounted, ?_, ?_⟩
            · rw [List.length_append, List.length_singleton]
              exact not_le.mp hfull
            · intro node hnode
              rw [seen_concat, List.mem_append, List.mem_singleton] at hnode
              obtain hnode | rfl := hnode
              · exact hwithin.live node hnode
              · exact hlive
          by_cases htarget : neighbor edge current = setup.query.target
          · rw [if_pos htarget]
            refine ⟨_, rfl, hwithin' _ _, Or.inr (Or.inl ⟨rfl, hopen.exhausted, _, hinsert.tree, ?_, ?_, ?_⟩)⟩
            · rw [seen_concat, htarget]
              exact List.mem_append_right _ List.mem_cons_self
            · rw [← htarget, Function.update_self]
              exact hscanning.level_lt
            · intro identities found hleads
              rw [← htarget, Function.update_self]
              exact hscanning.lt_length hopen.target hleads
          · rw [if_neg htarget]
            have hopen' : Search.Open ⟨search.parents ++ [(neighbor edge current, some (current, position))],
                search.queue ++ [(neighbor edge current, level + 1)], search.examined + 1, search.found,
                search.exhausted⟩ setup := by
              refine ⟨hopen.found, hopen.exhausted, ?_⟩
              rw [seen_concat, List.mem_append, List.mem_singleton, not_or]
              exact ⟨hopen.target, Ne.symm htarget⟩
            obtain ⟨last, hlast, hlastWithin, hcases⟩ := ih hrest hinsert (hwithin' _ _) hopen'
            refine ⟨last, hlast, hlastWithin, hcases.imp_right (Or.imp_right ?_)⟩
            rintro ⟨hlastOpen, hlength, depth', hlastScanning⟩
            refine ⟨hlastOpen, ?_, depth', ?_⟩
            · simp only [List.length_append, List.length_singleton] at hlength
              omega
            · simpa only [List.mem_cons, or_assoc] using hlastScanning
      · rw [if_pos hadmits]
        have hskipped : ∀ next, setup.Hop current position next → next ∈ seen search.parents := by
          intro next hnext
          obtain ⟨hagainst, rfl, hlive, hactive⟩ := (hhop next).mp hnext
          by_contra hnew
          refine hadmits ?_
          simp only [Setup.admits, hagainst, hnew, hlive, hactive, Bool.not_false, decide_false, Bool.and_self]
        obtain ⟨last, hlast, hlastWithin, hcases⟩ := @ih hrest { search with examined := search.examined + 1 } depth _
          (hscanning.advance hskipped) ⟨hcounted, hwithin.visited, hwithin.live⟩
          ⟨hopen.found, hopen.exhausted, hopen.target⟩
        refine ⟨last, hlast, hlastWithin, hcases.imp_right (Or.imp_right ?_)⟩
        rintro ⟨hlastOpen, hlength, depth', hlastScanning⟩
        refine ⟨hlastOpen, hlength, depth', ?_⟩
        simpa only [List.mem_cons, or_assoc] using hlastScanning

theorem loop_ended {search : Search} (h : search.found = true ∨ search.exhausted.isSome = true) {fuel : ℕ}
    (hfuel : 0 < fuel) : setup.loop fuel search = .ok search := by
  obtain ⟨fuel, rfl⟩ := Nat.exists_eq_add_of_lt hfuel
  rw [Nat.zero_add, Setup.loop, if_pos h]

theorem Search.Within.length_le {search : Search} (h : search.Within setup) (hnodup : (seen search.parents).Nodup) :
    search.parents.length ≤ setup.index.nodes.length := by
  have hsubset : seen search.parents ⊆ setup.index.nodes.map Prod.fst := by
    intro node hnode
    have hlive := h.live node hnode
    unfold Setup.live at hlive
    cases hlookup : setup.index.nodes.lookup node with
    | none => simp [hlookup] at hlive
    | some found => exact List.mem_map_of_mem (mem_of_lookup hlookup)
  have hlength := (hnodup.subperm hsubset).length_le
  rwa [seen, List.length_map, List.length_map] at hlength

theorem loop_spec {nodes : Nodes} {edges : List StoredEdge} (hindex : setup.index = buildFullIndex nodes edges)
    {fuel : ℕ} {search : Search} {depth : String → ℕ}
    (hfrontier : Frontier setup.Hop setup.query.maxHops setup.query.source search.parents search.queue depth)
    (hwithin : search.Within setup) (hopen : search.Open setup)
    (hfuel : search.queue.length + (setup.index.nodes.length - search.parents.length) < fuel) :
    ∃ last, setup.loop fuel search = .ok last ∧ last.Within setup ∧
      (last.Spent setup ∨ last.Reached setup ∨ (last.Open setup ∧
        ∃ depth, Frontier setup.Hop setup.query.maxHops setup.query.source last.parents [] depth)) := by
  induction fuel generalizing search depth with
  | zero => omega
  | succ fuel ih =>
    have hgoing : ¬(search.found = true ∨ search.exhausted.isSome = true) := by
      rw [hopen.found, hopen.exhausted]
      simp
    rw [Setup.loop, if_neg hgoing]
    cases hqueue : search.queue with
    | nil => exact ⟨search, rfl, hwithin, Or.inr (Or.inr ⟨hopen, depth, hqueue ▸ hfrontier⟩)⟩
    | cons entry queue =>
      obtain ⟨current, level⟩ := entry
      rw [hqueue] at hfrontier hfuel
      rw [List.length_cons] at hfuel
      dsimp only
      by_cases hlevel : setup.query.maxHops ≤ level
      · rw [if_pos hlevel]
        exact @ih { search with queue } depth (hfrontier.skip hlevel)
          ⟨hwithin.examined, hwithin.visited, hwithin.live⟩ ⟨hopen.found, hopen.exhausted, hopen.target⟩
          (by dsimp only; omega)
      · rw [if_neg hlevel]
        obtain ⟨last, hlast, hlastWithin, hcases⟩ := @scan_spec setup nodes edges hindex
          current level (incidentPositions setup.index current setup.query.relations) (fun _ h ↦ h)
          { search with queue } depth _ (hfrontier.scan (not_le.mp hlevel))
          ⟨hwithin.examined, hwithin.visited, hwithin.live⟩ ⟨hopen.found, hopen.exhausted, hopen.target⟩
        rw [hlast, Py.bind_ok]
        obtain hspent | hreached | ⟨hlastOpen, hlength, depth', hscanning⟩ := hcases
        · have hended : last.exhausted.isSome = true := by
            obtain ⟨hexhausted, -⟩ | ⟨hexhausted, -⟩ := hspent <;> rw [hexhausted] <;> rfl
          exact ⟨last, loop_ended (Or.inr hended) (by omega), hlastWithin, Or.inl hspent⟩
        · exact ⟨last, loop_ended (Or.inl hreached.1) (by omega), hlastWithin, Or.inr (Or.inl hreached)⟩
        · have hdone : Frontier setup.Hop setup.query.maxHops setup.query.source last.parents last.queue depth' :=
            hscanning.finish fun position next hstep ↦ Or.inr (listed_of_hop hindex hstep)
          have hbound := hlastWithin.length_le hdone.tree.nodup
          dsimp only at hlength
          exact ih hdone hlastWithin hlastOpen (by omega)

theorem live_of_trail (h : Trail setup.Hop identities positions) :
    (∀ first ∈ identities.head?, setup.live first = true) → ∀ node ∈ identities, setup.live node = true := by
  induction h with
  | single node =>
    intro hhead other hother
    obtain rfl := List.mem_singleton.mp hother
    exact hhead other rfl
  | cons hstep _ ih =>
    intro hhead other hother
    obtain rfl | hother := List.mem_cons.mp hother
    · exact hhead other rfl
    · obtain ⟨-, -, -, -, -, hlive⟩ := hstep
      refine ih (fun first hfirst ↦ ?_) other hother
      obtain rfl := Option.some.inj hfirst
      exact hlive

theorem along_of_trail (h : Trail setup.Hop identities positions) :
    ∃ edges, positions.map (fun position ↦ setup.index.edges[position]?) = edges.map some ∧
      List.Forall₂ Along ((edges.zip (identities.zip identities.tail)).map fun (edge, start, stop) ↦
        pathStep edge start stop) edges ∧
      ((edges.zip (identities.zip identities.tail)).map fun (edge, start, stop) ↦ pathStep edge start stop).map
        (fun step ↦ (step.start, step.stop)) = identities.zip identities.tail := by
  induction h with
  | single node => exact ⟨[], rfl, List.Forall₂.nil, rfl⟩
  | @cons node next position identities positions hstep hrest ih =>
    obtain ⟨edge, hedge, hconnects, -⟩ := hstep
    obtain ⟨edges, hedges, halong, hsteps⟩ := ih
    refine ⟨edge :: edges, ?_, ?_, ?_⟩
    · rw [List.map_cons, hedge, hedges, List.map_cons]
    · refine List.Forall₂.cons ?_ halong
      obtain ⟨hends, -, -, hstop⟩ := connects_iff.mp hconnects
      unfold neighbor at hstop
      unfold Along pathStep
      split_ifs at hstop with hsource
      · exact Or.inl ⟨if_pos hsource, hsource, hstop⟩
      · exact Or.inr ⟨if_neg hsource, (hends.resolve_left fun heq ↦ hsource heq.symm).symm, hstop⟩
    · rw [List.tail_cons, List.zip_cons_cons, List.zip_cons_cons, List.map_cons, List.map_cons]
      exact congrArg (List.cons (node, next)) hsteps

/-- What a result says about the path that it reports. -/
structure PathResult.Describes (result : PathResult) (setup : Setup) : Prop where
  path : setup.Path result.identities result.positions
  hops : result.hops = some result.positions.length
  hops_le : result.positions.length ≤ setup.query.maxHops
  shortest : ∀ identities positions, setup.Path identities positions → result.positions.length ≤ positions.length
  nodes : (result.identities.map fun node ↦ setup.index.nodes.lookup node) = result.nodes.map some
  edges : (result.positions.map fun position ↦ setup.index.edges[position]?) = result.edges.map some
  steps : result.steps.map (fun step ↦ (step.start, step.stop)) = result.identities.zip result.identities.tail
  directions : List.Forall₂ Along result.steps result.edges

theorem collect_of_map_some {α β : Type} {read : α → Py β} {pick : α → Option β}
    (hread : ∀ value found, pick value = some found → read value = .ok found) {values : List α} {results : List β}
    (h : values.map pick = results.map some) : Py.collect (Py.always read) values = .ok results := by
  rw [Py.collect_always_eq_ok_iff]
  refine forall₂_of_map_eq h fun value _ result _ heq ↦ ?_
  exact hread value result heq

theorem pathTo_spec {search : Search} (hreached : search.Reached setup)
    (hsource : setup.live setup.query.source = true) :
    ∃ result, setup.pathTo search = .ok result ∧ result.status = .found ∧ result.Describes setup := by
  obtain ⟨-, -, depth, htree, htarget, hlimit, hshortest⟩ := hreached
  obtain ⟨links, hback, hlength, hleads⟩ :=
    htree.back_spec htarget ((htree.depth_lt _ htarget).trans (Nat.lt_succ_self _))
  have hlive : ∀ node ∈ (setup.query.target :: links.map Prod.fst).reverse, setup.live node = true := by
    refine live_of_trail hleads.trail fun first hfirst ↦ ?_
    obtain rfl := Option.some.inj (hleads.head.symm.trans hfirst)
    exact hsource
  have hnodes : ∃ nodes : List Node,
      ((setup.query.target :: links.map Prod.fst).reverse).map (fun node ↦ setup.index.nodes.lookup node) =
        nodes.map some := by
    refine ⟨((setup.query.target :: links.map Prod.fst).reverse).filterMap
      fun node ↦ setup.index.nodes.lookup node, ?_⟩
    generalize (setup.query.target :: links.map Prod.fst).reverse = identities at hlive
    induction identities with
    | nil => rfl
    | cons node rest ih =>
      have hhead := hlive node List.mem_cons_self
      unfold Setup.live at hhead
      cases hlookup : setup.index.nodes.lookup node with
      | none => simp [hlookup] at hhead
      | some found =>
        rw [List.map_cons, ih fun other hother ↦ hlive other (List.mem_cons_of_mem _ hother), List.filterMap_cons,
          hlookup, List.map_cons]
  obtain ⟨nodes, hnodes⟩ := hnodes
  obtain ⟨edges, hedges, halong, hsteps⟩ := along_of_trail hleads.trail
  have hcollectNodes : Py.collect (Py.always (nodeOf setup.index.nodes))
      (setup.query.target :: links.map Prod.fst).reverse = .ok nodes := by
    refine collect_of_map_some (fun node found hfound ↦ ?_) hnodes
    rw [nodeOf, hfound]
  have hcollectEdges : Py.collect (Py.always setup.index.edge) (links.map Prod.snd).reverse = .ok edges := by
    refine collect_of_map_some (fun position found hfound ↦ ?_) hedges
    exact itemAt_eq_ok_iff.mpr hfound
  have hcount : (links.map Prod.snd).reverse.length = depth setup.query.target := by
    rw [List.length_reverse, List.length_map, hlength]
  refine ⟨.along (setup.query.target :: links.map Prod.fst).reverse (links.map Prod.snd).reverse nodes edges
    search.parents.length search.examined, ?_, ?_⟩
  · rw [Setup.pathTo, hback]
    simp only [hcollectNodes, hcollectEdges, Py.bind_ok, Py.pure_eq_ok]
  · refine ⟨rfl, ⟨hsource, hleads⟩, rfl, hcount.trans_le hlimit, ?_, hnodes, hedges, hsteps, halong⟩
    intro identities positions hpath
    exact hcount.trans_le (hshortest identities positions hpath.2)

end Search

theorem path_of_start {setup : Setup} {identities : List String} {positions : List ℕ}
    (h : setup.Path identities positions) :
    setup.live setup.query.source = true ∧ setup.live setup.query.target = true := by
  refine ⟨h.1, live_of_trail h.2.trail (fun first hfirst ↦ ?_) _ (List.mem_of_getLast? h.2.last)⟩
  obtain rfl := Option.some.inj (h.2.head.symm.trans hfirst)
  exact h.1

/-- A search that reaches no bound finds a shortest path, if there is one within the hops. -/
theorem shortestPath_exact (moments : Moments) (cleanId : String → String) (nodes : Nodes) (edges : List StoredEdge)
    (call : PathCall) (now : ℤ) {query : Query} (h : call.query moments cleanId now = .ok query) :
    ∃ result, shortestPath moments cleanId (buildFullIndex nodes edges) call now = .ok result ∧
      (result.status = .budgetExhausted →
        result.examinedEdges = query.maxExaminedEdges ∨ result.visitedNodes = query.maxNodes) ∧
      (result.status ≠ .budgetExhausted → (result.status = .found ↔ ∃ identities positions,
          Setup.Path ⟨moments, buildFullIndex nodes edges, query, now⟩ identities positions ∧
            positions.length ≤ query.maxHops)) ∧
      (result.status = .found → result.Describes ⟨moments, buildFullIndex nodes edges, query, now⟩) := by
  generalize hsetup : (⟨moments, buildFullIndex nodes edges, query, now⟩ : Setup) = setup
  have hindex : setup.index = buildFullIndex nodes edges := by rw [← hsetup]
  have hquery : setup.query = query := by rw [← hsetup]
  have hcall : shortestPath moments cleanId (buildFullIndex nodes edges) call now =
      if setup.live query.source ∧ setup.live query.target then do
        let search ← setup.loop (setup.index.nodes.length + 2) query.start
        setup.report search
      else return .without .notFound "missing-or-forgotten-endpoint" 0 0 := by
    rw [shortestPath, h, Py.bind_ok, ← hsetup]
  rw [hcall]
  by_cases hlive : setup.live query.source = true ∧ setup.live query.target = true
  · rw [if_pos hlive]
    have hsource : setup.live setup.query.source = true := by rw [hquery]; exact hlive.1
    have hwithin : query.start.Within setup := by
      have hbounds := query_bounds h
      refine ⟨Nat.zero_le _, ?_, ?_⟩
      · rw [hquery]
        exact hbounds
      · intro node hnode
        obtain rfl := List.mem_singleton.mp hnode
        exact hlive.1
    obtain ⟨last, hlast, hlastWithin, hcases⟩ : ∃ last, setup.loop (setup.index.nodes.length + 2) query.start =
        .ok last ∧ last.Within setup ∧ (last.Spent setup ∨ last.Reached setup ∨ (last.Open setup ∧
          ∃ depth, Frontier setup.Hop setup.query.maxHops setup.query.source last.parents [] depth)) := by
      have hinitial := Frontier.initial setup.Hop setup.query.maxHops setup.query.source
      by_cases hsame : query.source = query.target
      · refine ⟨_, loop_ended (Or.inl (decide_eq_true hsame)) (Nat.succ_pos _), hwithin, Or.inr (Or.inl ?_)⟩
        refine ⟨decide_eq_true hsame, rfl, fun _ ↦ 0, ?_, ?_, Nat.zero_le _, fun _ _ _ ↦ Nat.zero_le _⟩
        · have htree := hinitial.tree
          rwa [hquery] at htree ⊢
        · rw [hquery, ← hsame]
          exact List.mem_singleton.mpr rfl
      · refine @loop_spec setup nodes edges hindex _ query.start (fun _ ↦ 0) ?_ hwithin
          ⟨decide_eq_false hsame, rfl, ?_⟩ ?_
        · rw [hquery] at hinitial ⊢
          exact hinitial
        · rw [hquery]
          exact fun hmem ↦ hsame (List.mem_singleton.mp hmem).symm
        · simp only [Query.start, List.length_singleton]
          omega
    rw [hlast, Py.bind_ok]
    obtain hspent | hreached | ⟨hopen, depth, hfrontier⟩ := hcases
    · obtain ⟨hexhausted, hcount⟩ | ⟨hexhausted, hcount⟩ := hspent
      · refine ⟨.without .budgetExhausted "edge-budget" last.parents.length last.examined, ?_, ?_, ?_, ?_⟩
        · rw [Setup.report, hexhausted]
        · exact fun _ ↦ Or.inl (hcount.trans (by rw [hquery]))
        · exact fun hne ↦ absurd rfl hne
        · exact fun hfound ↦ nomatch hfound
      · refine ⟨.without .budgetExhausted "node-budget" last.parents.length last.examined, ?_, ?_, ?_, ?_⟩
        · rw [Setup.report, hexhausted]
        · exact fun _ ↦ Or.inr (hcount.trans (by rw [hquery]))
        · exact fun hne ↦ absurd rfl hne
        · exact fun hfound ↦ nomatch hfound
    · obtain ⟨result, hresult, hstatus, hdescribes⟩ := pathTo_spec hreached hsource
      refine ⟨result, ?_, ?_, ?_, fun _ ↦ hdescribes⟩
      · rw [Setup.report, hreached.2.1, hreached.1]
        exact hresult
      · rw [hstatus]
        exact fun hexhausted ↦ nomatch hexhausted
      · intro _
        refine iff_of_true hstatus ⟨_, _, hdescribes.path, ?_⟩
        rw [← hquery]
        exact hdescribes.hops_le
    · refine ⟨.without .notFound "no-path-within-hop-limit" last.parents.length last.examined, ?_, ?_, ?_, ?_⟩
      · rw [Setup.report, hopen.exhausted, hopen.found]
        rfl
      · exact fun hexhausted ↦ nomatch hexhausted
      · intro _
        refine iff_of_false (fun hfound ↦ nomatch hfound) ?_
        rintro ⟨identities, positions, hpath, hle⟩
        have hfar := hfrontier.unreachable hopen.target hpath.2
        rw [hquery] at hfar
        omega
      · exact fun hfound ↦ nomatch hfound
  · rw [if_neg hlive]
    refine ⟨_, rfl, (nomatch ·), fun _ ↦ iff_of_false (nomatch ·) ?_, (nomatch ·)⟩
    rintro ⟨identities, positions, hpath, -⟩
    have hends := path_of_start hpath
    rw [hquery] at hends
    exact hlive hends

namespace Sample

def moments : Moments where
  parse text := if text = "1970-01-01T00:00:00+00:00" then some 0 else none
  ofProperty _ := none
  least := -62_135_596_800_000_000
  least_le := by
    intro text moment h
    split_ifs at h
    obtain rfl := Option.some.inj h
    decide

def named (name : String) : String × Node := (name, ⟨name, "concept", name, [], false⟩)

def uses (source target : String) : StoredEdge :=
  ⟨source, target, "uses", 1, some "1970-01-01T00:00:00+00:00", none, none, [], "1970-01-01T00:00:00+00:00"⟩

def services : FullIndex :=
  buildFullIndex (["api", "web", "json"].map named) [uses "api" "json", uses "web" "json"]

def between : PathCall := ⟨"api", "web", 4, some ["uses"], "both", none, none, 100, 1_000⟩

end Sample

/-- One service is two hops away from the other. -/
theorem shortestPath_exact_services : ∃ query result, Sample.between.query Sample.moments id 1 = .ok query ∧
      shortestPath Sample.moments id Sample.services Sample.between 1 = .ok result ∧ result.hops = some 2 ∧
      (result.status = .budgetExhausted →
        result.examinedEdges = query.maxExaminedEdges ∨ result.visitedNodes = query.maxNodes) ∧
      (result.status ≠ .budgetExhausted → (result.status = .found ↔ ∃ identities positions,
          Setup.Path ⟨Sample.moments, Sample.services, query, 1⟩ identities positions ∧
            positions.length ≤ query.maxHops)) ∧
      (result.status = .found → result.Describes ⟨Sample.moments, Sample.services, query, 1⟩) := by
  obtain ⟨result, hresult, hexact⟩ := @shortestPath_exact Sample.moments id _ _ Sample.between 1 _ rfl
  refine ⟨_, result, rfl, hresult, ?_, hexact⟩
  have hhops : (shortestPath Sample.moments id Sample.services Sample.between 1).map PathResult.hops =
      .ok (some 2) := by decide +kernel
  have hmapped := (congrArg (Except.map PathResult.hops) hresult).symm.trans hhops
  exact Except.ok.inj hmapped

end UniMem.Graph
