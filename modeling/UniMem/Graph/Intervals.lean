import UniMem.Graph.Snapshot
import UniMem.Library.Windows
import UniMem.Python.Collections

/-!
# Edges of an interval

`edges_between` takes its candidates from one of four lists. It returns the edges that are valid in the interval, in
the order in which they begin, when edges end after they begin.
-/

namespace UniMem.Graph

open Library

/-- `edge.valid_at or edge.created_at`. -/
def StoredEdge.beginning (edge : StoredEdge) : String := (filled edge.validAt).getD edge.createdAt

/-- The moment at which an edge begins. -/
def Moments.beginOf (moments : Moments) (edge : StoredEdge) : Option ℤ := moments.parse edge.beginning

/-- The earliest end of an edge that can be read. -/
def Moments.finishOf (moments : Moments) (edge : StoredEdge) : Option ℤ :=
  ([edge.invalidAt, edge.expiredAt].filterMap moments.optionalMoment).min?

/-- `begins`. -/
def FullIndex.begins (index : FullIndex) (moments : Moments) : List (Option ℤ) := index.edges.map moments.beginOf

/-- `ends`. -/
def FullIndex.ends (index : FullIndex) (moments : Moments) : List (Option ℤ) := index.edges.map moments.finishOf

/-- `self.begins[position] or _MIN_MOMENT`. -/
def FullIndex.beginKey (index : FullIndex) (moments : Moments) (position : ℕ) : ℤ :=
  ((index.begins moments)[position]?.join).getD moments.least

/-- `order_by_valid`. -/
def FullIndex.orderByValid (index : FullIndex) (moments : Moments) : List ℕ :=
  sortBy (index.beginKey moments) (List.range index.edges.length)

/-- `sorted_begins`. -/
def FullIndex.sortedBegins (index : FullIndex) (moments : Moments) : List ℤ :=
  (index.orderByValid moments).map (index.beginKey moments)

/-- A `cached_property`: what the dictionary of the object holds of its value. -/
structure Cached {α : Type} (value : α) where
  stored : Option α
  stored_eq : ∀ found, stored = some found → found = value

/-- The value, which is computed when it is not stored. -/
def Cached.get {α : Type} {value : α} (cached : Cached value) : α := cached.stored.getD value

@[simp]
theorem Cached.get_eq {α : Type} {value : α} (cached : Cached value) : cached.get = value := by
  unfold get
  cases hstored : cached.stored with
  | none => rfl
  | some found => exact cached.stored_eq found hstored

/-- What was built of an index, in any order, and the moments that were parsed. -/
structure Lazies (moments : Moments) (index : FullIndex) where
  begins : Cached (index.begins moments)
  ends : Cached (index.ends moments)
  byRelation : Cached index.byRelation
  orderByValid : Cached (index.orderByValid moments)
  sortedBegins : Cached (index.sortedBegins moments)
  memo : List (String × Option ℤ)
  memo_eq : ∀ text moment, memo.lookup text = some moment → moment = moments.parse text

variable {moments : Moments} {index : FullIndex}

/-- `_parsed_moment`. -/
def Lazies.parsedMoment (lazies : Lazies moments index) (text : String) : Option ℤ :=
  (lazies.memo.lookup text).getD (moments.parse text)

@[simp]
theorem Lazies.parsedMoment_eq (lazies : Lazies moments index) (text : String) :
    lazies.parsedMoment text = moments.parse text := by
  unfold parsedMoment
  cases hlookup : lazies.memo.lookup text with
  | none => rfl
  | some moment => exact lazies.memo_eq text moment hlookup

/-- The arguments of `edges_between`. -/
structure IntervalCall where
  start : Option String
  stop : Option String
  relation : Option String
  entity : Option String

/-- The arguments after their checks. -/
structure IntervalQuery where
  lo : Option ℤ
  hi : Option ℤ
  relation : Option String
  entity : Option String

/-- The checks of `edges_between`. -/
def IntervalCall.query (call : IntervalCall) (moments : Moments) (cleanId : String → String) : Py IntervalQuery := do
  let lo ← moments.argument call.start
  let hi ← moments.argument call.stop
  Py.require (∀ first ∈ lo, ∀ last ∈ hi, first ≤ last) (.valueError "the interval ends before it starts")
  return ⟨lo, hi, call.relation, (filled call.entity).map cleanId⟩

/-- The edges of both filters come from the shorter list. -/
def shorter (first second : List ℕ) : List ℕ := if first.length ≤ second.length then first else second

/-- The positions that `edges_between` looks at. -/
def IntervalQuery.candidates (query : IntervalQuery) (lazies : Lazies moments index) : List ℕ :=
  match query.entity, query.relation with
  | some entity, some relation =>
    shorter (positionsOf index.byEntity entity) (positionsOf lazies.byRelation.get relation)
  | some entity, none => positionsOf index.byEntity entity
  | none, some relation => positionsOf lazies.byRelation.get relation
  | none, none =>
    match query.hi with
    | some hi => lazies.orderByValid.get.take (bisectRight lazies.sortedBegins.get hi)
    | none => List.range index.edges.length

/-- An edge that a filter of the loop skips. -/
def IntervalQuery.skips (query : IntervalQuery) (edge : StoredEdge) : Bool :=
  (filled query.relation).any (edge.relation ≠ ·) ||
    (filled query.entity).any fun entity ↦ entity ≠ edge.source ∧ entity ≠ edge.target

/-- `begins[i]`, or the parsed moment when the list is not built. -/
def Lazies.beginAt (lazies : Lazies moments index) (built : Option (List (Option ℤ))) (position : ℕ)
    (edge : StoredEdge) : Py (Option ℤ) :=
  match built with
  | some begins => itemAt begins position
  | none => .ok (lazies.parsedMoment edge.beginning)

/-- A beginning that cannot be read is parsed again, which raises. -/
def Moments.readable (moments : Moments) (edge : StoredEdge) (begin : Option ℤ) : Py ℤ :=
  match begin <|> moments.parse edge.beginning with
  | some begin => .ok begin
  | none => .error (.valueError s!"could not parse {edge.beginning} as a date/time; use YYYY-MM-DD or ISO 8601")

/-- `ends[i]`, or the earliest parsed end when the list is not built. -/
def Lazies.finishAt (lazies : Lazies moments index) (built : Option (List (Option ℤ))) (position : ℕ)
    (edge : StoredEdge) : Py (Option ℤ) :=
  match built with
  | some ends => itemAt ends position
  | none => .ok (([edge.invalidAt, edge.expiredAt].filterMap fun value ↦
      (filled value).bind lazies.parsedMoment).min?)

/-- One turn of the loop. -/
def IntervalQuery.examine (query : IntervalQuery) (lazies : Lazies moments index) (position : ℕ) :
    Py (Option StoredEdge) := do
  let begins := if query.entity = none then some lazies.begins.get else lazies.begins.stored
  let ends := if query.entity = none then some lazies.ends.get else lazies.ends.stored
  let edge ← index.edge position
  if query.skips edge then return none
  else
    let begin ← lazies.beginAt begins position edge
    let begin ← moments.readable edge begin
    if query.hi.any (· < begin) then return none
    else
      let finish ← lazies.finishAt ends position edge
      return if query.lo.any fun lo ↦ finish.any (· ≤ lo) then none else some edge

/-- `edges_between` on a snapshot. -/
def edgesBetween (cleanId : String → String) (lazies : Lazies moments index) (call : IntervalCall) :
    Py (List StoredEdge) := do
  let query ← call.query moments cleanId
  let out ← Py.collect (query.examine lazies) (query.candidates lazies)
  return sortBy StoredEdge.beginning out

/-- The edge is valid at a moment. -/
def Moments.ValidAt (moments : Moments) (edge : StoredEdge) (moment : ℤ) : Prop :=
  (∃ begin, moments.beginOf edge = some begin ∧ begin ≤ moment) ∧
    ∀ stop ∈ [edge.invalidAt, edge.expiredAt].filterMap moments.optionalMoment, moment < stop

/-- A moment of the interval. -/
def IntervalQuery.Covers (query : IntervalQuery) (moment : ℤ) : Prop :=
  (∀ lo, query.lo = some lo → lo ≤ moment) ∧ ∀ hi, query.hi = some hi → moment ≤ hi

/-- The edge has the relation and the entity that are asked for. -/
def IntervalQuery.Matches (query : IntervalQuery) (edge : StoredEdge) : Prop :=
  (∀ relation, query.relation = some relation → edge.relation = relation) ∧
    ∀ entity, query.entity = some entity → entity = edge.source ∨ entity = edge.target

/-- An edge that the interval query asks for. -/
def IntervalQuery.Wants (query : IntervalQuery) (moments : Moments) (edge : StoredEdge) : Prop :=
  query.Matches edge ∧ ∃ moment, query.Covers moment ∧ moments.ValidAt edge moment

/-- What a result must be: the edges that are wanted, the oldest first. -/
structure IntervalQuery.Answers (query : IntervalQuery) (moments : Moments) (index : FullIndex)
    (result : List StoredEdge) : Prop where
  exact : open Classical in result.Perm (index.edges.filter fun edge ↦ query.Wants moments edge)
  chronological : result.Pairwise fun first second ↦ ∀ earlier later, moments.beginOf first = some earlier →
    moments.beginOf second = some later → earlier ≤ later

/-- An edge of the list from which the candidates are taken. -/
def IntervalQuery.Listed (query : IntervalQuery) (index : FullIndex) (edge : StoredEdge) : Prop :=
  match query.entity, query.relation with
  | some entity, some relation =>
    if (positionsOf index.byEntity entity).length ≤ (positionsOf index.byRelation relation).length then
      entity = edge.source ∨ entity = edge.target
    else edge.relation = relation
  | some entity, none => entity = edge.source ∨ entity = edge.target
  | none, some relation => edge.relation = relation
  | none, none => True

/-- An edge that the loop looks at and does not skip. -/
def IntervalQuery.Selects (query : IntervalQuery) (index : FullIndex) (edge : StoredEdge) : Prop :=
  query.skips edge = false ∧ query.Listed index edge

/-- An edge that begins by the end of the interval and does not end by its start. -/
def IntervalQuery.Meets (query : IntervalQuery) (moments : Moments) (edge : StoredEdge) : Prop :=
  (∀ hi begin, query.hi = some hi → moments.beginOf edge = some begin → begin ≤ hi) ∧
    ∀ lo, query.lo = some lo → ∀ stop ∈ [edge.invalidAt, edge.expiredAt].filterMap moments.optionalMoment, lo < stop

/-- The condition on the edges that the loop looks at. -/
structure IntervalQuery.Fits (query : IntervalQuery) (moments : Moments) (index : FullIndex) : Prop where
  readable : ∀ edge ∈ index.edges, query.Selects index edge → ∃ begin, moments.beginOf edge = some begin
  nonempty : ∀ edge ∈ index.edges, query.Selects index edge → query.Meets moments edge →
    ∀ begin, moments.beginOf edge = some begin →
      ∀ stop ∈ [edge.invalidAt, edge.expiredAt].filterMap moments.optionalMoment, begin < stop
  named : ∀ edge ∈ index.edges, query.Selects index edge → query.Meets moments edge → query.Matches edge
  ordered : ∀ first ∈ index.edges, ∀ second ∈ index.edges, query.Selects index first → query.Selects index second →
    query.Meets moments first → query.Meets moments second → first.beginning < second.beginning →
    ∀ earlier later, moments.beginOf first = some earlier → moments.beginOf second = some later → earlier ≤ later

section Facts

variable {nodes : Nodes} {edges : List StoredEdge} {query : IntervalQuery} {edge : StoredEdge} {position : ℕ}

theorem nodup_positions {κ : Type} [DecidableEq κ] {keys : StoredEdge → List κ} (hkeys : ∀ edge, (keys edge).Nodup)
    (key : κ) : (positionsOf (listsOf (keyed keys edges)) key).Nodup := by
  have hpositions : edges.zipIdx.Pairwise fun first second ↦ first.2 ≠ second.2 := by
    have hrange : (edges.zipIdx.map Prod.snd).Nodup := by
      rw [List.zipIdx_map_snd]
      exact List.nodup_range'
    exact List.pairwise_map.mp hrange
  have hkeyed : (keyed keys edges).Nodup := by
    rw [keyed, List.nodup_flatMap]
    refine ⟨fun entry _ ↦ (hkeys entry.1).map fun _ _ heq ↦ (Prod.mk.inj heq).1, hpositions.imp ?_⟩
    intro first second hne pair hfirst hsecond
    obtain ⟨_, -, rfl⟩ := List.mem_map.mp hfirst
    obtain ⟨_, -, heq⟩ := List.mem_map.mp hsecond
    exact hne (Prod.mk.inj heq).2.symm
  rw [positionsOf_listsOf]
  refine (hkeyed.filter _).map_on fun first hfirst second hsecond heq ↦ ?_
  have hkey := of_decide_eq_true (List.mem_filter.mp hfirst).2
  have hkey' := of_decide_eq_true (List.mem_filter.mp hsecond).2
  exact Prod.ext (hkey.trans hkey'.symm) heq

theorem StoredEdge.nodup_ends (edge : StoredEdge) : edge.ends.Nodup := by
  unfold ends
  split_ifs with h
  · exact List.nodup_cons.mpr ⟨fun hmem ↦ h (List.mem_singleton.mp hmem).symm, List.nodup_singleton _⟩
  · exact List.nodup_singleton _

theorem mem_orderByValid : position ∈ index.orderByValid moments ↔ position < index.edges.length := by
  rw [FullIndex.orderByValid, mem_sortBy, List.mem_range]

theorem beginKey_eq (h : index.edges[position]? = some edge) :
    index.beginKey moments position = (moments.beginOf edge).getD moments.least := by
  rw [FullIndex.beginKey, FullIndex.begins, List.getElem?_map, h]
  rfl

theorem mem_positions_byRelation (index : FullIndex) (relation : String) :
    position ∈ positionsOf index.byRelation relation ↔
      ∃ edge, index.edges[position]? = some edge ∧ edge.relation = relation := by
  rw [FullIndex.byRelation, mem_positions]
  simp only [List.mem_singleton, eq_comm]

theorem mem_candidates_iff {lazies : Lazies moments (buildFullIndex nodes edges)} :
    position ∈ query.candidates lazies ↔
      ∃ edge, edges[position]? = some edge ∧ query.Listed (buildFullIndex nodes edges) edge ∧
        (query.entity = none → query.relation = none → ∀ hi, query.hi = some hi →
          (moments.beginOf edge).getD moments.least ≤ hi) := by
  have hentity : ∀ entity, position ∈ positionsOf (buildFullIndex nodes edges).byEntity entity ↔
      ∃ edge, edges[position]? = some edge ∧ (entity = edge.source ∨ entity = edge.target) := fun entity ↦ by
    rw [buildFullIndex, mem_positions]
    simp only [StoredEdge.mem_ends]
  have hrelation : ∀ relation, position ∈ positionsOf (buildFullIndex nodes edges).byRelation relation ↔
      ∃ edge, edges[position]? = some edge ∧ edge.relation = relation := fun relation ↦
    mem_positions_byRelation (buildFullIndex nodes edges) relation
  have hpresent : position < edges.length ↔ ∃ edge, edges[position]? = some edge := by
    constructor
    · exact fun hlt ↦ ⟨_, List.getElem?_eq_getElem hlt⟩
    · rintro ⟨edge, hedge⟩
      exact (List.getElem?_eq_some_iff.mp hedge).1
  unfold IntervalQuery.candidates IntervalQuery.Listed
  cases query.entity with
  | some entity =>
    cases query.relation with
    | none => simp [hentity]
    | some relation =>
      dsimp only
      rw [Cached.get_eq, shorter]
      split_ifs with hle
      · simp [hentity]
      · simpa using hrelation relation
  | none =>
    cases query.relation with
    | some relation => simpa using hrelation relation
    | none =>
      cases hhi : query.hi with
      | none => simpa [hhi] using hpresent
      | some hi =>
        dsimp only
        have hsorted : ((buildFullIndex nodes edges).orderByValid moments).Pairwise fun first second ↦
            (buildFullIndex nodes edges).beginKey moments first ≤
              (buildFullIndex nodes edges).beginKey moments second :=
          List.pairwise_map.mp (sorted_map_sortBy _ _)
        rw [Cached.get_eq, Cached.get_eq, FullIndex.sortedBegins, take_bisectRight hsorted, List.mem_filter,
          mem_orderByValid, decide_eq_true_eq]
        constructor
        · rintro ⟨hlt, hle⟩
          obtain ⟨edge, hedge⟩ := hpresent.mp hlt
          refine ⟨edge, hedge, trivial, fun _ _ other hother ↦ ?_⟩
          obtain rfl := Option.some.inj hother
          rwa [← @beginKey_eq moments (buildFullIndex nodes edges) edge position hedge]
        · rintro ⟨edge, hedge, -, hbegin⟩
          refine ⟨hpresent.mpr ⟨edge, hedge⟩, ?_⟩
          rw [@beginKey_eq moments (buildFullIndex nodes edges) edge position hedge]
          exact hbegin rfl rfl hi rfl

theorem nodup_candidates (lazies : Lazies moments (buildFullIndex nodes edges)) :
    (query.candidates lazies).Nodup := by
  have hentity : ∀ entity, (positionsOf (buildFullIndex nodes edges).byEntity entity).Nodup := fun entity ↦
    nodup_positions StoredEdge.nodup_ends entity
  have hrelation : ∀ relation, (positionsOf lazies.byRelation.get relation).Nodup := fun relation ↦ by
    rw [Cached.get_eq]
    exact nodup_positions (fun edge ↦ List.nodup_singleton _) relation
  have horder : (lazies.orderByValid.get).Nodup := by
    rw [Cached.get_eq]
    exact (sortBy_perm _ _).nodup_iff.mpr List.nodup_range
  unfold IntervalQuery.candidates
  cases query.entity with
  | some entity =>
    cases query.relation with
    | none => exact hentity entity
    | some relation =>
      dsimp only
      unfold shorter
      split_ifs
      · exact hentity entity
      · exact hrelation relation
  | none =>
    cases query.relation with
    | some relation => exact hrelation relation
    | none =>
      cases query.hi with
      | none => exact List.nodup_range
      | some hi => exact horder.sublist (List.take_sublist _ _)

theorem finishOf_any_le {lo : ℤ} : (moments.finishOf edge).any (· ≤ lo) = true ↔
    ∃ stop ∈ [edge.invalidAt, edge.expiredAt].filterMap moments.optionalMoment, stop ≤ lo := by
  unfold Moments.finishOf
  cases hmin : ([edge.invalidAt, edge.expiredAt].filterMap moments.optionalMoment).min? with
  | none =>
    rw [List.min?_eq_none_iff] at hmin
    simp [hmin]
  | some least =>
    obtain ⟨hmem, hleast⟩ := List.min?_eq_some_iff.mp hmin
    rw [Option.any_some, decide_eq_true_eq]
    constructor
    · exact fun hle ↦ ⟨least, hmem, hle⟩
    · rintro ⟨stop, hstop, hle⟩
      exact (hleast stop hstop).trans hle

/-- What the loop tests of the moments of an edge. -/
def IntervalQuery.keeps (query : IntervalQuery) (moments : Moments) (edge : StoredEdge) (begin : ℤ) : Bool :=
  !query.hi.any (· < begin) && !query.lo.any fun lo ↦ (moments.finishOf edge).any (· ≤ lo)

theorem keeps_iff {begin : ℤ} (h : moments.beginOf edge = some begin) :
    query.keeps moments edge begin = true ↔ query.Meets moments edge := by
  unfold IntervalQuery.keeps IntervalQuery.Meets
  rw [Bool.and_eq_true, Bool.not_eq_true', Bool.not_eq_true']
  refine and_congr ?_ ?_
  · cases query.hi with
    | none => simp
    | some hi => simp [h]
  · cases query.lo with
    | none => simp
    | some lo =>
      rw [Option.any_some, ← Bool.not_eq_true, finishOf_any_le]
      simp

theorem beginAt_eq {lazies : Lazies moments index} (hedge : index.edges[position]? = some edge)
    (built : Option (List (Option ℤ))) (hbuilt : ∀ list, built = some list → list = index.begins moments) :
    lazies.beginAt built position edge = .ok (moments.beginOf edge) := by
  unfold Lazies.beginAt
  cases built with
  | none =>
    dsimp only
    rw [Lazies.parsedMoment_eq]
    rfl
  | some list =>
    dsimp only
    rw [itemAt_eq_ok_iff, hbuilt list rfl, FullIndex.begins, List.getElem?_map, hedge]
    rfl

theorem readable_some (begin : ℤ) : moments.readable edge (some begin) = .ok begin := rfl

theorem readable_none (h : moments.beginOf edge = none) : moments.readable edge none =
    .error (.valueError s!"could not parse {edge.beginning} as a date/time; use YYYY-MM-DD or ISO 8601") := by
  have hparse : (none <|> moments.parse edge.beginning) = none := h
  rw [Moments.readable, hparse]

theorem finishAt_eq {lazies : Lazies moments index} (hedge : index.edges[position]? = some edge)
    (built : Option (List (Option ℤ))) (hbuilt : ∀ list, built = some list → list = index.ends moments) :
    lazies.finishAt built position edge = .ok (moments.finishOf edge) := by
  unfold Lazies.finishAt
  cases built with
  | none =>
    simp only [Lazies.parsedMoment_eq]
    rfl
  | some list =>
    dsimp only
    rw [itemAt_eq_ok_iff, hbuilt list rfl, FullIndex.ends, List.getElem?_map, hedge]
    rfl

theorem examine_eq {lazies : Lazies moments index} (hedge : index.edges[position]? = some edge) :
    query.examine lazies position = if query.skips edge then .ok none
      else match moments.beginOf edge with
        | some begin => .ok (if query.keeps moments edge begin then some edge else none)
        | none => .error (.valueError
            s!"could not parse {edge.beginning} as a date/time; use YYYY-MM-DD or ISO 8601") := by
  have hbuilt : ∀ {value : List (Option ℤ)} (cached : Cached value) (list : List (Option ℤ)),
      (if query.entity = none then some cached.get else cached.stored) = some list → list = value := by
    intro value cached list hlist
    split_ifs at hlist
    · rw [← Option.some.inj hlist, Cached.get_eq]
    · exact cached.stored_eq list hlist
  unfold IntervalQuery.examine
  dsimp only
  rw [FullIndex.edge, itemAt_eq_ok_iff.mpr hedge, Py.bind_ok]
  by_cases hskips : query.skips edge = true
  · rw [if_pos hskips, if_pos hskips]
    rfl
  · rw [if_neg hskips, if_neg hskips, beginAt_eq hedge _ (hbuilt lazies.begins), Py.bind_ok]
    cases hbegin : moments.beginOf edge with
    | none =>
      rw [readable_none hbegin]
      rfl
    | some begin =>
      rw [readable_some, Py.bind_ok]
      dsimp only
      unfold IntervalQuery.keeps
      cases query.hi.any (· < begin) with
      | true => rfl
      | false =>
        rw [finishAt_eq hedge _ (hbuilt lazies.ends)]
        cases hlo : query.lo.any fun lo ↦ (moments.finishOf edge).any (· ≤ lo) with
        | true => simp [hlo]
        | false => simp [hlo]

theorem exists_covers_iff {begin : ℤ} (hbegin : moments.beginOf edge = some begin)
    (hrange : ∀ lo hi, query.lo = some lo → query.hi = some hi → lo ≤ hi) :
    (∃ moment, query.Covers moment ∧ moments.ValidAt edge moment) ↔ query.Meets moments edge ∧
      ∀ stop ∈ [edge.invalidAt, edge.expiredAt].filterMap moments.optionalMoment, begin < stop := by
  constructor
  · rintro ⟨moment, ⟨hlo, hhi⟩, ⟨found, hfound, hle⟩, hstop⟩
    obtain rfl := Option.some.inj (hbegin.symm.trans hfound)
    refine ⟨⟨fun hi other heq hother ↦ ?_, fun lo heq stop hmem ↦ ?_⟩, fun stop hmem ↦ ?_⟩
    · obtain rfl := Option.some.inj (hbegin.symm.trans hother)
      exact hle.trans (hhi hi heq)
    · exact (hlo lo heq).trans_lt (hstop stop hmem)
    · exact hle.trans_lt (hstop stop hmem)
  · rintro ⟨⟨hhi, hlo⟩, hstop⟩
    cases hstart : query.lo with
    | none =>
      refine ⟨begin, ⟨fun lo heq ↦ ?_, fun hi heq ↦ hhi hi begin heq hbegin⟩, ⟨begin, hbegin, le_rfl⟩, hstop⟩
      exact nomatch hstart.symm.trans heq
    | some lo =>
      refine ⟨max begin lo, ⟨fun other heq ↦ ?_, fun hi heq ↦ ?_⟩, ⟨begin, hbegin, le_max_left _ _⟩, ?_⟩
      · obtain rfl := Option.some.inj (hstart.symm.trans heq)
        exact le_max_right _ _
      · exact max_le (hhi hi begin heq hbegin) (hrange lo hi hstart heq)
      · exact fun stop hmem ↦ max_lt (hstop stop hmem) (hlo lo hstart stop hmem)

theorem IntervalQuery.Matches.selects (h : query.Matches edge) : query.Selects index edge := by
  obtain ⟨hrelation, hentity⟩ := h
  refine ⟨?_, ?_⟩
  · unfold IntervalQuery.skips
    rw [Bool.or_eq_false_iff]
    refine ⟨?_, ?_⟩
    · cases hquery : query.relation with
      | none => rfl
      | some relation =>
        unfold filled
        by_cases hblank : relation = ""
        · simp [hblank]
        · simp [hblank, hrelation relation hquery]
    · cases hquery : query.entity with
      | none => rfl
      | some entity =>
        unfold filled
        by_cases hblank : entity = ""
        · simp [hblank]
        · obtain heq | heq := hentity entity hquery <;> simp [heq]
  · unfold IntervalQuery.Listed
    cases hentities : query.entity with
    | some entity =>
      cases hrelations : query.relation with
      | none => exact hentity entity hentities
      | some relation =>
        dsimp only
        split_ifs
        · exact hentity entity hentities
        · exact hrelation relation hrelations
    | none =>
      cases hrelations : query.relation with
      | none => trivial
      | some relation => exact hrelation relation hrelations

theorem query_spec {call : IntervalCall} {cleanId : String → String} (h : call.query moments cleanId = .ok query) :
    (∀ lo hi, query.lo = some lo → query.hi = some hi → lo ≤ hi) ∧ ∀ hi, query.hi = some hi → moments.least ≤ hi := by
  obtain ⟨lo, -, h⟩ := Py.of_bind h
  obtain ⟨hi, hhi, h⟩ := Py.of_bind h
  obtain ⟨_, hrequire, h⟩ := Py.of_bind h
  obtain rfl := Except.ok.inj h
  have hrange := of_decide_eq_true (Py.require_eq_ok_iff.mp hrequire)
  refine ⟨fun first last hfirst hlast ↦ hrange first hfirst last hlast, fun last hlast ↦ ?_⟩
  unfold Moments.argument at hhi
  split at hhi
  · obtain rfl := Except.ok.inj hhi
    cases hlast
  · split at hhi
    · next moment hparse =>
      obtain rfl := Except.ok.inj hhi
      obtain rfl := Option.some.inj hlast
      exact moments.least_le _ _ hparse
    · cases hhi

theorem filterMap_range_getElem? {α : Type} (test : α → Bool) (values : List α) :
    ((List.range values.length).filterMap fun position ↦ values[position]?.filter test) = values.filter test := by
  induction values with
  | nil => rfl
  | cons value values ih =>
    rw [List.length_cons, List.range_succ_eq_map, List.filterMap_cons, List.filterMap_map, List.filter_cons]
    have hrest : (List.range values.length).filterMap
        ((fun position ↦ (value :: values)[position]?.filter test) ∘ Nat.succ) = values.filter test := ih
    rw [hrest]
    cases htest : test value <;> simp [Option.filter, htest]

theorem rel_of_sorted {α κ : Type} [LinearOrder κ] {key : α → κ} {rel : α → α → Prop} {values : List α}
    (hsorted : values.Pairwise fun first second ↦ key first ≤ key second) (hrel : values.Pairwise rel)
    {first second : α} (hfirst : first ∈ values) (hsecond : second ∈ values) (hlt : key first < key second) :
    rel first second := by
  obtain ⟨i, hi, rfl⟩ := List.mem_iff_getElem.mp hfirst
  obtain ⟨j, hj, rfl⟩ := List.mem_iff_getElem.mp hsecond
  obtain hij | rfl | hji := lt_trichotomy i j
  · exact List.pairwise_iff_getElem.mp hrel i j hi hj hij
  · exact absurd hlt (lt_irrefl _)
  · exact absurd (List.pairwise_iff_getElem.mp hsorted j i hj hi hji) (not_le.mpr hlt)

theorem mem_candidates {lazies : Lazies moments (buildFullIndex nodes edges)} (hedge : edges[position]? = some edge)
    (hselects : query.Selects (buildFullIndex nodes edges) edge)
    (hbegin : ∀ hi, query.hi = some hi → (moments.beginOf edge).getD moments.least ≤ hi) :
    position ∈ query.candidates lazies :=
  mem_candidates_iff.mpr ⟨edge, hedge, hselects.2, fun _ _ hi hhi ↦ hbegin hi hhi⟩

end Facts

section Paths

variable {nodes : Nodes} {edges : List StoredEdge} {query : IntervalQuery} {cleanId : String → String}
  {lazies : Lazies moments (buildFullIndex nodes edges)} {call : IntervalCall}

theorem IntervalQuery.Fits.collect (hfits : query.Fits moments (buildFullIndex nodes edges))
    (hrange : ∀ lo hi, query.lo = some lo → query.hi = some hi → lo ≤ hi) :
    ∃ out, Py.collect (query.examine lazies) (query.candidates lazies) = .ok out ∧
      (open Classical in out.Perm (edges.filter fun edge ↦ query.Wants moments edge)) := by
  classical
  have hwants : ∀ edge ∈ edges, ∀ begin, query.Selects (buildFullIndex nodes edges) edge →
      moments.beginOf edge = some begin → (query.Wants moments edge ↔ query.Meets moments edge) := by
    intro edge hedge begin hselects hbegin
    unfold IntervalQuery.Wants
    rw [exists_covers_iff hbegin hrange]
    constructor
    · exact fun hwants ↦ hwants.2.1
    · intro hmeets
      exact ⟨hfits.named edge hedge hselects hmeets, hmeets, hfits.nonempty edge hedge hselects hmeets begin hbegin⟩
  have hread : ∀ position ∈ query.candidates lazies, query.examine lazies position =
      .ok (edges[position]?.filter fun edge ↦ query.Wants moments edge) := by
    intro position hposition
    obtain ⟨edge, hedge, hlisted, -⟩ := mem_candidates_iff.mp hposition
    have hmem := List.mem_of_getElem? hedge
    rw [@examine_eq moments (buildFullIndex nodes edges) query edge position lazies hedge, hedge]
    by_cases hskips : query.skips edge = true
    · have hnot : ¬query.Wants moments edge := by
        intro hwanted
        have hselects : query.Selects (buildFullIndex nodes edges) edge := hwanted.1.selects
        exact absurd (hskips.symm.trans hselects.1) (by simp)
      rw [if_pos hskips, Option.filter_some, if_neg (by simpa using hnot)]
    · have hselects : query.Selects (buildFullIndex nodes edges) edge := ⟨by simpa using hskips, hlisted⟩
      obtain ⟨begin, hbegin⟩ := hfits.readable edge hmem hselects
      rw [if_neg hskips, hbegin, Option.filter_some]
      simp only [keeps_iff hbegin, hwants edge hmem begin hselects hbegin, decide_eq_true_eq]
  refine ⟨_, Py.collect_eq_ok hread, ?_⟩
  rw [← filterMap_range_getElem?]
  have hsplit : ∀ positions : List ℕ,
      (positions.filterMap fun position ↦ edges[position]?.filter fun edge ↦ query.Wants moments edge) =
        (positions.filter fun position ↦
          (edges[position]?.filter fun edge ↦ query.Wants moments edge).isSome).filterMap
          fun position ↦ edges[position]?.filter fun edge ↦ query.Wants moments edge := by
    intro positions
    rw [List.filterMap_filter]
    refine List.filterMap_congr fun position _ ↦ ?_
    cases edges[position]?.filter fun edge ↦ query.Wants moments edge <;> rfl
  rw [hsplit (query.candidates lazies), hsplit (List.range edges.length)]
  refine List.Perm.filterMap _ ((List.perm_ext_iff_of_nodup ((nodup_candidates lazies).filter _)
    (List.nodup_range.filter _)).mpr fun position ↦ ?_)
  rw [List.mem_filter, List.mem_filter, List.mem_range]
  refine and_congr_left fun hsome ↦ ?_
  obtain ⟨edge, hfound⟩ := Option.isSome_iff_exists.mp hsome
  obtain ⟨hedge, hwanted⟩ := Option.filter_eq_some_iff.mp hfound
  refine iff_of_true ?_ (List.getElem?_eq_some_iff.mp hedge).1
  have hselects : query.Selects (buildFullIndex nodes edges) edge := (of_decide_eq_true hwanted).1.selects
  obtain ⟨begin, hbegin⟩ := hfits.readable edge (List.mem_of_getElem? hedge) hselects
  have hmeets := (hwants edge (List.mem_of_getElem? hedge) begin hselects hbegin).mp (of_decide_eq_true hwanted)
  refine mem_candidates hedge hselects fun hi hhi ↦ ?_
  rw [hbegin]
  exact hmeets.1 hi begin hhi hbegin

/-- An interval query is answered exactly when the edges it looks at can be read and are in order. -/
theorem edgesBetween_answers_iff (h : call.query moments cleanId = .ok query) :
    (∃ result, edgesBetween cleanId lazies call = .ok result ∧
      query.Answers moments (buildFullIndex nodes edges) result) ↔
      query.Fits moments (buildFullIndex nodes edges) := by
  classical
  obtain ⟨hrange, hleast⟩ := query_spec h
  have hcall : edgesBetween cleanId lazies call =
      (Py.collect (query.examine lazies) (query.candidates lazies)).map (sortBy StoredEdge.beginning) := by
    rw [edgesBetween, h, Py.bind_ok]
    cases Py.collect (query.examine lazies) (query.candidates lazies) <;> rfl
  rw [hcall]
  constructor
  · rintro ⟨result, hresult, hanswers⟩
    obtain ⟨out, hout, rfl⟩ := Py.map_eq_ok_iff.mp hresult
    have hreadable : ∀ edge ∈ edges, query.Selects (buildFullIndex nodes edges) edge →
        ∃ begin, moments.beginOf edge = some begin := by
      intro edge hedge hselects
      obtain ⟨position, hposition⟩ := List.mem_iff_getElem?.mp hedge
      cases hbegin : moments.beginOf edge with
      | some begin => exact ⟨begin, rfl⟩
      | none =>
        have hcandidate : position ∈ query.candidates lazies := by
          refine mem_candidates hposition hselects fun hi hhi ↦ ?_
          rw [hbegin]
          exact hleast hi hhi
        obtain ⟨found, hfound⟩ := Py.read_of_collect hout position hcandidate
        rw [@examine_eq moments (buildFullIndex nodes edges) query edge position lazies hposition,
          if_neg (by simp [hselects.1]), hbegin] at hfound
        cases hfound
    have hmem : ∀ edge ∈ edges, query.Selects (buildFullIndex nodes edges) edge → query.Meets moments edge →
        edge ∈ sortBy StoredEdge.beginning out := by
      intro edge hedge hselects hmeets
      obtain ⟨position, hposition⟩ := List.mem_iff_getElem?.mp hedge
      obtain ⟨begin, hbegin⟩ := hreadable edge hedge hselects
      have hcandidate : position ∈ query.candidates lazies := by
        refine mem_candidates hposition hselects fun hi hhi ↦ ?_
        rw [hbegin]
        exact hmeets.1 hi begin hhi hbegin
      refine mem_sortBy.mpr ((Py.mem_collect_iff hout edge).mpr ⟨position, hcandidate, ?_⟩)
      rw [@examine_eq moments (buildFullIndex nodes edges) query edge position lazies hposition,
        if_neg (by simp [hselects.1]), hbegin]
      dsimp only
      rw [if_pos ((keeps_iff hbegin).mpr hmeets)]
    have hwants : ∀ edge ∈ edges, query.Selects (buildFullIndex nodes edges) edge → query.Meets moments edge →
        query.Wants moments edge := fun edge hedge hselects hmeets ↦
      of_decide_eq_true (List.mem_filter.mp (hanswers.exact.mem_iff.mp (hmem edge hedge hselects hmeets))).2
    refine ⟨hreadable, fun edge hedge hselects hmeets begin hbegin ↦ ?_, fun edge hedge hselects hmeets ↦
      (hwants edge hedge hselects hmeets).1, ?_⟩
    · exact ((exists_covers_iff hbegin hrange).mp (hwants edge hedge hselects hmeets).2).2
    · intro first hfirst second hsecond hselects hselects' hmeets hmeets' hlt
      exact rel_of_sorted (List.pairwise_map.mp (sorted_map_sortBy _ _)) hanswers.chronological
        (hmem first hfirst hselects hmeets) (hmem second hsecond hselects' hmeets') hlt
  · intro hfits
    obtain ⟨out, hout, hperm⟩ := hfits.collect hrange
    refine ⟨_, Py.map_eq_ok_iff.mpr ⟨out, hout, rfl⟩, (sortBy_perm _ _).trans hperm, ?_⟩
    have hsorted : (sortBy StoredEdge.beginning out).Pairwise fun first second ↦
        first.beginning ≤ second.beginning := List.pairwise_map.mp (sorted_map_sortBy _ _)
    refine hsorted.imp_of_mem fun {first second} hfirst hsecond hle earlier later hearlier hlater ↦ ?_
    obtain heq | hlt := hle.eq_or_lt
    · have hsame : moments.beginOf first = moments.beginOf second := congrArg moments.parse heq
      exact (Option.some.inj (hearlier.symm.trans (hsame.trans hlater))).le
    · have hwanted : ∀ edge ∈ sortBy StoredEdge.beginning out, edge ∈ edges ∧ query.Wants moments edge :=
        fun edge hedge ↦ by
          obtain ⟨hedge, hwants⟩ := List.mem_filter.mp (hperm.mem_iff.mp (mem_sortBy.mp hedge))
          exact ⟨hedge, of_decide_eq_true hwants⟩
      obtain ⟨hmem, hwants⟩ := hwanted first hfirst
      obtain ⟨hmem', hwants'⟩ := hwanted second hsecond
      exact hfits.ordered first hmem second hmem' hwants.1.selects hwants'.1.selects
        ((exists_covers_iff hearlier hrange).mp hwants.2).1 ((exists_covers_iff hlater hrange).mp hwants'.2).1 hlt
        earlier later hearlier hlater

end Paths

namespace Sample

def days : Moments where
  parse text :=
    if text = "1970-01-01T00:00:00+00:00" then some 0
    else if text = "1970-01-02T00:00:00+00:00" then some 86_400_000_000
    else none
  ofProperty _ := none
  least := -62_135_596_800_000_000
  least_le := by
    intro text moment h
    split_ifs at h <;> obtain rfl := Option.some.inj h <;> decide

def replaced : StoredEdge :=
  ⟨"ada", "paris", "lives_in", 1, some "1970-01-02T00:00:00+00:00", some "1970-01-02T00:00:00+00:00", none, [],
    "1970-01-02T00:00:00+00:00"⟩

def fresh (moments : Moments) (index : FullIndex) : Lazies moments index :=
  ⟨⟨none, fun _ ↦ nofun⟩, ⟨none, fun _ ↦ nofun⟩, ⟨none, fun _ ↦ nofun⟩, ⟨none, fun _ ↦ nofun⟩,
    ⟨none, fun _ ↦ nofun⟩, [], fun _ _ ↦ nofun⟩

def sinceFirst : IntervalCall := ⟨some "1970-01-01T00:00:00+00:00", none, none, none⟩

def sinceFirstQuery : IntervalQuery := ⟨some 0, none, none, none⟩

end Sample

/-- An edge that was closed when it began is returned, although it is never valid. -/
theorem not_edgesBetween_answers :
    ¬∀ (moments : Moments) (cleanId : String → String) (nodes : Nodes) (edges : List StoredEdge)
      (lazies : Lazies moments (buildFullIndex nodes edges)) (call : IntervalCall) (query : IntervalQuery),
      call.query moments cleanId = .ok query → ∃ result, edgesBetween cleanId lazies call = .ok result ∧
        query.Answers moments (buildFullIndex nodes edges) result := by
  classical
  intro h
  obtain ⟨result, hresult, hanswers⟩ := h Sample.days id [] [Sample.replaced] (Sample.fresh _ _) Sample.sinceFirst
    Sample.sinceFirstQuery rfl
  have hreturned : edgesBetween id (Sample.fresh Sample.days (buildFullIndex [] [Sample.replaced]))
      Sample.sinceFirst = .ok [Sample.replaced] := rfl
  obtain rfl := Except.ok.inj (hreturned.symm.trans hresult)
  have hmem := hanswers.exact.mem_iff.mp (List.mem_singleton.mpr rfl)
  obtain ⟨-, moment, -, ⟨begin, hbegin, hle⟩, hstop⟩ := of_decide_eq_true (List.mem_filter.mp hmem).2
  have hsame : begin = 86_400_000_000 := (Option.some.inj hbegin).symm
  have hlt := hstop 86_400_000_000 (List.mem_of_mem_head? rfl)
  omega

/-- The condition on a replaced value. -/
theorem edgesBetween_answers_iff_replaced :
    (∃ result, edgesBetween id (Sample.fresh Sample.days (buildFullIndex [] [Sample.replaced])) Sample.sinceFirst =
      .ok result ∧ Sample.sinceFirstQuery.Answers Sample.days (buildFullIndex [] [Sample.replaced]) result) ↔
      Sample.sinceFirstQuery.Fits Sample.days (buildFullIndex [] [Sample.replaced]) :=
  edgesBetween_answers_iff rfl

end UniMem.Graph
