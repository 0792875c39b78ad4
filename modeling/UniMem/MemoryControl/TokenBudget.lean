import UniMem.Library.Json
import UniMem.MemoryControl.Reflection

/-!
# The token budget of a reflection

Lines are counted with the line break before them, and directives are not. The text stays within the budget where
the line breaks between directives fit. Rows with one text are selected once.
-/

namespace UniMem.MemoryControl

open Library

/-! ## Bytes and tokens -/

/-- The bytes of some lines with the line breaks between them. -/
def joinedBytes (lines : List String) : ℕ := (lines.map String.utf8ByteSize).sum + (lines.length - 1)

theorem utf8ByteSize_joinLines (lines : List String) : (joinLines lines).utf8ByteSize = joinedBytes lines := by
  induction lines using joinLines.induct with
  | case1 => rfl
  | case2 text => simp [joinLines, joinedBytes]
  | case3 text other rest ih =>
    have hbreak : "\n".utf8ByteSize = 1 := rfl
    rw [joinLines, String.utf8ByteSize_append, String.utf8ByteSize_append, ih, hbreak]
    simp only [joinedBytes, List.map_cons, List.sum_cons, List.length_cons]
    omega

theorem bytes_le_tokens (text : String) : text.utf8ByteSize ≤ 4 * tokens text := by
  unfold tokens
  omega

variable {α : Type} {lines : List String} {count : ℕ}

theorem sum_bytes_le (text : α → String) (values : List α) :
    (values.map fun value ↦ (text value).utf8ByteSize).sum ≤ 4 *
      (values.map fun value ↦ tokens (text value)).sum := by
  induction values with
  | nil => exact le_rfl
  | cons value values ih =>
    have hvalue := bytes_le_tokens (text value)
    rw [List.map_cons, List.sum_cons, List.map_cons, List.sum_cons]
    omega

theorem tokens_joinLines_le (h : joinedBytes lines ≤ 4 * count) :
    tokens (joinLines lines) ≤ count := by
  rw [tokens, utf8ByteSize_joinLines]
  omega

theorem lt_tokens_joinLines (h : 4 * count < joinedBytes lines) :
    count < tokens (joinLines lines) := by
  rw [tokens, utf8ByteSize_joinLines]
  omega

/-- The line breaks that rows are charged for. -/
def separators (directives : List String) (count : ℕ) : ℕ := if directives = [] then count - 1 else count

/-- What rows are charged for. -/
def charged (directives : List String) (selected : List Selected) : ℕ :=
  (selected.map fun row ↦ tokens row.line).sum + separators directives selected.length

theorem charged_le_of_sublist {directives : List String} {kept selected : List Selected} (h : kept.Sublist selected) :
    charged directives kept ≤ charged directives selected := by
  have hsum := (h.map fun row ↦ tokens row.line).sum_le_sum fun _ _ ↦ Nat.zero_le _
  have hlength := h.length_le
  unfold charged separators
  split_ifs <;> omega

theorem joinedBytes_le {directives : List String} (h : joinedBytes directives ≤ 4 * (directives.map tokens).sum)
    (rows : List Selected) (facts : List Fact) :
    joinedBytes (directives ++ rows.map Selected.line ++ facts.map Fact.line) ≤
      4 * ((directives.map tokens).sum + charged directives rows + (facts.map Fact.cost).sum) := by
  have hrows := sum_bytes_le Selected.line rows
  have hfacts := sum_bytes_le Fact.line facts
  have hcost : (facts.map Fact.cost).sum = (facts.map fun fact ↦ tokens fact.line).sum + facts.length := by
    unfold Fact.cost
    exact List.sum_map_add.trans (congrArg _ (by simp))
  unfold joinedBytes at h ⊢
  simp only [List.map_append, List.sum_append, List.length_append, List.length_map, List.map_map, Function.comp_def]
  unfold charged separators
  split_ifs with hempty
  · subst hempty
    simp only [List.map_nil, List.sum_nil, List.length_nil]
    omega
  · have hpos := List.length_pos_iff.mpr hempty
    omega

/-! ## Filling -/

section Filling

variable {setting : Setting} {directives : List String} {candidates : List (String × List Row)} {room : ℤ}

/-- What holds of the state of `fill` after every turn. -/
structure Filled (candidates : List (String × List Row)) (directives : List String) (room : ℤ) (state : Filling) :
    Prop where
  rendered : state.rendered = directives ++ state.selected.map Selected.line
  used : state.used = (directives.map tokens).sum + charged directives state.selected
  room : state.selected = [] ∨ (state.used : ℤ) ≤ room
  texts : state.texts = state.selected.map fun selected ↦ selected.row.text
  nodup : state.texts.Nodup
  consumed : state.consumed = state.selected.flatMap fun selected ↦ selected.row.sources
  mem : ∀ selected ∈ state.selected, ∃ layer ∈ candidates, selected.row ∈ layer.2

theorem charged_append (directives : List String) (selected : List Selected) (row : Selected) :
    charged directives (selected ++ [row]) = charged directives selected +
      (tokens row.line + if directives ++ selected.map Selected.line = [] then 0 else 1) := by
  unfold charged separators
  rw [List.map_append, List.sum_append, List.length_append]
  cases selected with
  | nil => by_cases hempty : directives = [] <;> simp [hempty]
  | cons first rest =>
    have hne : directives ++ (first :: rest).map Selected.line ≠ [] := by simp
    rw [if_neg hne]
    simp only [List.map_cons, List.map_nil, List.sum_cons, List.sum_nil, List.length_cons, List.length_nil]
    split_ifs <;> omega

theorem filled_consider {layer : String × List Row} {row : Row} {state : Filling} (hlayer : layer ∈ candidates)
    (hrow : row ∈ layer.2) (h : Filled candidates directives room state) :
    Filled candidates directives room (consider setting room layer.1 state row) := by
  unfold consider
  by_cases hflagged : setting.flagged row.text
  · rwa [if_pos hflagged]
  rw [if_neg hflagged]
  by_cases hseen : row.id ∈ state.consumed ∨ row.text ∈ state.texts
  · rwa [if_pos hseen]
  rw [if_neg hseen]
  dsimp only
  by_cases hfits : ((state.used + (tokens (line layer.1 row.id row.text) + if state.rendered = [] then 0 else 1) :
    ℕ) : ℤ) ≤
      room
  · rw [if_pos hfits]
    refine ⟨?_, ?_, Or.inr hfits, ?_, ?_, ?_, ?_⟩
    · rw [h.rendered, List.map_append, List.append_assoc]
      rfl
    · have hcharged := charged_append directives state.selected ⟨layer.1, row⟩
      have hused := h.used
      rw [← h.rendered] at hcharged
      rw [hcharged]
      change state.used + (tokens (line layer.1 row.id row.text) + _) =
        _ + (_ + (tokens (line layer.1 row.id row.text) + _))
      omega
    · rw [h.texts, List.map_append]
      rfl
    · rw [List.nodup_append]
      refine ⟨h.nodup, List.nodup_singleton _, ?_⟩
      rintro text htext _ hother rfl
      exact hseen (Or.inr (List.mem_singleton.mp hother ▸ htext))
    · rw [h.consumed, List.flatMap_append, List.flatMap_singleton]
    · intro selected hselected
      obtain hold | hnew := List.mem_append.mp hselected
      · exact h.mem selected hold
      · obtain rfl := List.mem_singleton.mp hnew
        exact ⟨layer, hlayer, hrow⟩
  · rw [if_neg hfits]
    exact ⟨h.rendered, h.used, h.room, h.texts, h.nodup, h.consumed, h.mem⟩

theorem filled_fill (reserve limit : ℕ) :
    Filled candidates directives ((limit : ℤ) - reserve) (fill setting candidates directives reserve limit) := by
  have hstart : Filled candidates directives ((limit : ℤ) - reserve)
    ⟨directives, [], (directives.map tokens).sum, [], [], 0⟩ := by
    refine ⟨by simp, ?_, Or.inl rfl, rfl, List.nodup_nil, rfl, by simp⟩
    unfold charged separators
    split_ifs <;> simp
  unfold fill
  refine List.foldlRecOn candidates _ hstart fun state h layer hlayer ↦ ?_
  exact List.foldlRecOn layer.2 _ h fun state h row hrow ↦ filled_consider hlayer hrow h

theorem selected_fill_eq_nil {reserve limit : ℕ} (h : limit ≤ (directives.map tokens).sum + reserve) :
    (fill setting candidates directives reserve limit).selected = [] := by
  have hfilled := @filled_fill setting directives candidates reserve limit
  obtain hnil | hroom := hfilled.room
  · exact hnil
  · by_contra hne
    have hcharged : 1 ≤ charged directives (fill setting candidates directives reserve limit).selected := by
      obtain ⟨first, rest, hselected⟩ := List.exists_cons_of_ne_nil hne
      have hpos : 1 ≤ tokens first.line := by
        have hbracket : "[".utf8ByteSize = 1 := rfl
        unfold tokens Selected.line line
        simp only [String.utf8ByteSize_append, hbracket]
        omega
      rw [hselected, charged, List.map_cons, List.sum_cons]
      omega
    have hused := hfilled.used
    omega

theorem grow_spec {fillAt : ℕ → Filling} {cap : ℕ} (steps : ℕ) {budget : ℕ} :
    budget ≤ (grow setting fillAt cap steps budget (fillAt budget)).1 ∧
      (grow setting fillAt cap steps budget (fillAt budget)).2 =
        fillAt (grow setting fillAt cap steps budget (fillAt budget)).1 := by
  induction steps generalizing budget with
  | zero => exact ⟨le_rfl, rfl⟩
  | succ steps ih =>
    rw [grow]
    split_ifs with hgrow
    · obtain ⟨hle, hstate⟩ := @ih (min cap (budget * 2))
      refine ⟨le_trans ?_ hle, hstate⟩
      omega
    · exact ⟨le_rfl, rfl⟩

end Filling

/-! ## Exploration -/

section Exploration

variable {setting : Setting} {chance : Chance} {facts pool : List Fact} {slots room : ℕ} {state : Filling}

theorem le_foldl_max (values : List ℕ) (start : ℕ) : start ≤ values.foldl max start ∧
    ∀ value ∈ values, value ≤ values.foldl max start := by
  induction values generalizing start with
  | nil => exact ⟨le_rfl, by simp⟩
  | cons value values ih =>
    obtain ⟨hstart, hall⟩ := ih (max start value)
    rw [List.foldl_cons, List.forall_mem_cons]
    exact ⟨(le_max_left _ _).trans hstart, (le_max_right _ _).trans hstart, hall⟩

theorem foldl_max_le {values : List ℕ} {start bound : ℕ} (hstart : start ≤ bound)
    (h : ∀ value ∈ values, value ≤ bound) :
    values.foldl max start ≤ bound := by
  induction values generalizing start with
  | nil => exact hstart
  | cons value values ih =>
    rw [List.forall_mem_cons] at h
    exact ih (max_le hstart h.1) h.2

theorem reserveFor_explorationPool_le : reserveFor (explorationPool setting facts slots room) slots ≤ room := by
  unfold reserveFor explorationPool
  split_ifs with hslots
  · simp
  · have hmax : ((facts.filter fun fact ↦ fact.cost ≤ room / slots ∧ Explorable setting fact).map Fact.cost).foldl
      max 0 ≤
        room / slots := by
      refine foldl_max_le (Nat.zero_le _) fun cost hcost ↦ ?_
      obtain ⟨fact, hfact, rfl⟩ := List.mem_map.mp hcost
      exact (of_decide_eq_true (List.mem_filter.mp hfact).2).1
    calc
      _ ≤ room / slots * slots := Nat.mul_le_mul hmax (min_le_left _ _)
      _ ≤ room := Nat.div_mul_le_self _ _

theorem map_id_filterMap_find? (available : List Fact) (identities : List String) :
    ((identities.filterMap fun identity ↦ available.find? fun fact ↦ fact.id = identity).map Fact.id).Sublist
      identities := by
  induction identities with
  | nil => exact List.Sublist.refl _
  | cons identity identities ih =>
    rw [List.filterMap_cons]
    cases hfind : available.find? fun fact ↦ fact.id = identity with
    | none => exact ih.cons identity
    | some fact =>
      have hid : fact.id = identity := by simpa using List.find?_some hfind
      dsimp only
      rw [List.map_cons, hid]
      exact ih.cons_cons _

/-- Delivered facts are new facts of the pool, in at most all slots. -/
structure Delivered (pool : List Fact) (slots : ℕ) (state : Filling) (facts : List Fact) : Prop where
  mem : ∀ fact ∈ facts, fact ∈ pool
  unconsumed : ∀ fact ∈ facts, fact.id ∉ state.consumed
  unranked : ∀ fact ∈ facts, ∀ selected ∈ state.selected, selected.row.id ≠ fact.id
  nodup : (facts.map Fact.id).Nodup
  length_le : facts.length ≤ min slots pool.length

theorem delivered_explored (hpool : (pool.map Fact.id).Nodup) :
    Delivered pool slots state (explored chance pool slots state) := by
  unfold explored
  dsimp only
  have hmem : ∀ available : List Fact, ∀ identities : List String, ∀ fact ∈
      identities.filterMap (fun identity ↦ available.find? fun fact ↦ fact.id = identity), fact ∈ available := by
    intro available identities fact hfact
    obtain ⟨identity, -, hfind⟩ := List.mem_filterMap.mp hfact
    exact List.mem_of_find?_eq_some hfind
  have hkept : ∀ fact ∈ pool.filter fun fact ↦ fact.id ∉ state.consumed ∧
      fact.id ∉ state.selected.map fun selected ↦ selected.row.id,
      fact ∈ pool ∧ fact.id ∉ state.consumed ∧ fact.id ∉ state.selected.map fun selected ↦ selected.row.id := by
    intro fact hfact
    obtain ⟨hpool, hfree⟩ := List.mem_filter.mp hfact
    exact ⟨hpool, of_decide_eq_true hfree⟩
  obtain ⟨available, havailable⟩ : ∃ available, (pool.filter fun fact ↦ fact.id ∉ state.consumed ∧
      fact.id ∉ state.selected.map fun selected ↦ selected.row.id) = available := ⟨_, rfl⟩
  rw [havailable] at hkept ⊢
  have hsublist : available.Sublist pool := havailable ▸ List.filter_sublist
  have hsorted : ((available.map Fact.id).insertionSort (· ≤ ·)).Nodup :=
    (List.perm_insertionSort _ _).nodup_iff.mpr ((hsublist.map Fact.id).nodup hpool)
  have hids := map_id_filterMap_find? available (explore chance ((available.map Fact.id).insertionSort (· ≤ ·)) slots)
  have hlength := hids.length_le
  have hdrawn : (explore chance ((available.map Fact.id).insertionSort (· ≤ ·)) slots).length ≤ min slots
    available.length := by
    have hsample := chance.sample_length ((available.map Fact.id).insertionSort (· ≤ ·))
      (min slots ((available.map Fact.id).insertionSort (· ≤ ·)).length)
    rw [List.length_insertionSort, List.length_map] at hsample
    unfold explore
    rw [List.length_insertionSort, List.length_map]
    exact (List.length_filter_le _ _).trans hsample
  rw [List.length_map] at hlength
  refine ⟨fun fact hfact ↦ (hkept fact (hmem _ _ fact hfact)).1, fun fact hfact ↦
    (hkept fact (hmem _ _ fact hfact)).2.1,
    fun fact hfact selected hselected heq ↦ ?_, ?_, ?_⟩
  · exact (hkept fact (hmem _ _ fact hfact)).2.2 (List.mem_map.mpr ⟨selected, hselected, heq⟩)
  · exact hids.nodup (List.filter_sublist.nodup (chance.sample_nodup _ _ hsorted))
  · have hle := hsublist.length_le
    omega

theorem Delivered.sum_cost_le (h : Delivered pool slots state facts) :
    (facts.map Fact.cost).sum ≤ reserveFor pool slots := by
  have hcost : ∀ fact ∈ facts, fact.cost ≤ (pool.map Fact.cost).foldl max 0 :=
    fun fact hfact ↦ (le_foldl_max _ 0).2 _ (List.mem_map_of_mem (h.mem fact hfact))
  calc
    _ ≤ facts.length • (pool.map Fact.cost).foldl max 0 := by
      rw [← List.length_map Fact.cost]
      exact List.sum_le_card_nsmul _ _ (by simpa using hcost)
    _ ≤ reserveFor pool slots := by
      rw [smul_eq_mul, mul_comm, reserveFor]
      exact Nat.mul_le_mul_left _ h.length_le

end Exploration

/-! ## Reflections -/

section Reflections

variable {setting : Setting} {chance : Chance} {gathered : Gathered} {request : Request} {directives : List String}
  {result : Result} {budget cap : ℕ}

/-- The line breaks between the directives fit into their tokens. -/
def BreaksFit (directives : List String) : Prop := joinedBytes directives ≤ 4 * (directives.map tokens).sum

/-- The largest budget. -/
def maxBudget : ℕ := 100_000

/-- Facts that may be explored at once have different texts. -/
def FactsApart (setting : Setting) (facts : List Fact) (used : ℕ) : Prop :=
  ∀ fact ∈ facts, Explorable setting fact → ∀ other ∈ facts, Explorable setting other →
    other.statement = fact.statement → used + 2 * max other.cost fact.cost ≤ maxBudget → other.id = fact.id

/-- A row with the text of a fact that may be explored stands for this fact. -/
def RowsApart (setting : Setting) (gathered : Gathered) : Prop :=
  ∀ fact ∈ gathered.facts, Explorable setting fact →
    ∀ row ∈ gathered.curated ++ gathered.consolidated ++ gathered.raw, row.text = fact.statement →
      row.id = fact.id ∨ fact.id ∈ row.sources

theorem mem_of_mem_layers {layer : String × List Row} {row : Row} (hlayer : layer ∈ layers setting gathered)
    (hrow : row ∈ layer.2) : row ∈ gathered.curated ++ gathered.consolidated ++ gathered.raw := by
  simp only [layers, List.mem_cons, List.not_mem_nil, or_false] at hlayer
  simp only [List.mem_append]
  rcases hlayer with rfl | rfl | rfl
  · exact Or.inl (Or.inl ((List.mem_insertionSort _).mp hrow))
  · exact Or.inl (Or.inr ((List.mem_insertionSort _).mp hrow))
  · exact Or.inr ((List.mem_insertionSort _).mp hrow)

variable {slots : ℕ} {fact : Fact} {row : Revision} {revisions : List Revision} {context : List String}

theorem mem_explorationPool_iff {room : ℕ} :
    fact ∈ explorationPool setting gathered.facts slots room ↔
      slots ≠ 0 ∧ fact ∈ gathered.facts ∧ fact.cost ≤ room / slots ∧ Explorable setting fact := by
  unfold explorationPool
  split_ifs with hslots
  · simp [hslots]
  · rw [List.mem_filter, decide_eq_true_eq]
    exact (and_iff_right hslots).symm

theorem two_le_length_of_mem {values : List α} {first second : α} (hfirst : first ∈ values)
    (hsecond : second ∈ values) (hne : first ≠ second) : 2 ≤ values.length := by
  match values with
  | [] => cases hfirst
  | [value] => exact absurd ((List.mem_singleton.mp hfirst).trans (List.mem_singleton.mp hsecond).symm) hne
  | value :: other :: rest => simp

theorem nodup_explorationPool (slots room : ℕ) :
    ((explorationPool setting gathered.facts slots room).map Fact.id).Nodup := by
  unfold explorationPool
  split_ifs
  · exact List.nodup_nil
  · exact (List.filter_sublist.map Fact.id).nodup gathered.nodup

/-- What a selection from given directives keeps. -/
structure Selects (directives : List String) (result : Result) : Prop where
  text_le : tokens result.context ≤ result.tokensEstimate
  estimate_le : result.tokensEstimate ≤ result.budget
  included : ∃ rest, result.context = joinLines (directives ++ rest)
  nodup : (result.evidence.map fun selected ↦ selected.row.text).Nodup

theorem selects_selectRows (hbreaks : BreaksFit directives)
    (hapart : FactsApart setting gathered.facts (directives.map tokens).sum) (hrows : RowsApart setting gathered)
    (hbudget : (directives.map tokens).sum ≤ budget) (hmax : budget ≤ maxBudget) :
    Selects directives (selectRows setting chance request gathered directives budget cap) := by
  unfold selectRows
  dsimp only
  generalize hpool : explorationPool setting gathered.facts request.slots (budget - (directives.map tokens).sum) =
    pool
  have hreserve : (directives.map tokens).sum + reserveFor pool request.slots ≤ budget := by
    have hle := @reserveFor_explorationPool_le setting gathered.facts request.slots
      (budget - (directives.map tokens).sum)
    rw [hpool] at hle
    omega
  obtain ⟨hgrown, hstate⟩ := @grow_spec setting
    (fill setting (layers setting gathered) directives (reserveFor pool request.slots)) cap maxGrowthSteps budget
  generalize grow setting (fill setting (layers setting gathered) directives (reserveFor pool request.slots)) cap
    maxGrowthSteps budget (fill setting (layers setting gathered) directives (reserveFor pool request.slots) budget)
      = grown
    at hgrown hstate ⊢
  obtain ⟨effective, state⟩ := grown
  dsimp only at hgrown hstate ⊢
  have hfilled := @filled_fill setting directives (layers setting gathered) (reserveFor pool request.slots) effective
  rw [← hstate] at hfilled
  have hused : state.used + reserveFor pool request.slots ≤ effective := by
    obtain hnil | hroom := hfilled.room
    · have hused := hfilled.used
      rw [hnil] at hused
      have hnone : charged directives [] = 0 := by simp [charged, separators]
      omega
    · omega
  by_cases hcausal : request.causal
  · rw [if_pos hcausal]
    generalize hdelivered : (if request.slots = 0 then [] else explored chance pool request.slots state) = delivered
    have hdelivery : Delivered pool request.slots state delivered := by
      rw [← hdelivered]
      split_ifs with hslots
      · exact ⟨by simp, by simp, by simp, List.nodup_nil, Nat.zero_le _⟩
      · exact delivered_explored (hpool ▸ nodup_explorationPool _ _)
    have hkept : (state.selected.filter (chance.keep state.selected)).Sublist state.selected := List.filter_sublist
    have hfacts : ∀ fact ∈ delivered, request.slots ≠ 0 ∧ fact ∈ gathered.facts ∧
        fact.cost ≤ (budget - (directives.map tokens).sum) / request.slots ∧ Explorable setting fact :=
      fun fact hfact ↦ mem_explorationPool_iff.mp (hpool ▸ hdelivery.mem fact hfact)
    refine ⟨le_rfl, ?_, ⟨_, by rw [List.append_assoc]⟩, ?_⟩
    · have hbytes := joinedBytes_le hbreaks (state.selected.filter (chance.keep state.selected)) delivered
      have hcharged := @charged_le_of_sublist directives _ _ hkept
      have hcost := hdelivery.sum_cost_le
      have hsum := hfilled.used
      have htotal : (directives.map tokens).sum + charged directives
        (state.selected.filter (chance.keep state.selected)) +
          (delivered.map Fact.cost).sum ≤ effective := by omega
      exact (tokens_joinLines_le hbytes).trans htotal
    · rw [List.map_append, List.nodup_append]
      refine ⟨?_, ?_, ?_⟩
      · exact (hkept.map _).nodup (hfilled.texts ▸ hfilled.nodup)
      · rw [List.map_map]
        refine List.Nodup.map_on (fun fact hfact other hother heq ↦ ?_) (List.Nodup.of_map Fact.id hdelivery.nodup)
        by_contra hne
        obtain ⟨hslots, hmem, hcost, hexplorable⟩ := hfacts other hother
        obtain ⟨-, hmem', hcost', hexplorable'⟩ := hfacts fact hfact
        have htwo : 2 ≤ request.slots :=
          (two_le_length_of_mem hfact hother hne).trans (hdelivery.length_le.trans (min_le_left _ _))
        have hshare : 2 * max fact.cost other.cost ≤ budget - (directives.map tokens).sum := by
          have hle := Nat.mul_le_mul htwo (max_le hcost' hcost)
          exact hle.trans (Nat.mul_div_le _ _)
        refine hne (List.inj_on_of_nodup_map hdelivery.nodup hfact hother ?_)
        exact hapart other hmem hexplorable fact hmem' hexplorable' heq (by omega)
      · intro text htext other hother heq
        obtain ⟨selected, hselected, rfl⟩ := List.mem_map.mp htext
        obtain ⟨explored, hexplored, rfl⟩ := List.mem_map.mp hother
        obtain ⟨fact, hfact, rfl⟩ := List.mem_map.mp hexplored
        have hrow := hkept.subset hselected
        obtain ⟨layer, hlayer, hin⟩ := hfilled.mem selected hrow
        obtain ⟨-, hmem, -, hexplorable⟩ := hfacts fact hfact
        have hunconsumed := hdelivery.unconsumed fact hfact
        obtain hid | hsource := hrows fact hmem hexplorable selected.row (mem_of_mem_layers hlayer hin) heq
        · exact hdelivery.unranked fact hfact selected hrow hid
        · rw [hfilled.consumed] at hunconsumed
          exact hunconsumed (List.mem_flatMap.mpr ⟨selected, hrow, hsource⟩)
  · rw [if_neg hcausal]
    refine ⟨?_, ?_, ⟨_, by rw [hfilled.rendered]⟩, ?_⟩
    · have hbytes := joinedBytes_le hbreaks state.selected []
      rw [List.map_nil, List.append_nil, ← hfilled.rendered] at hbytes
      have hsum := hfilled.used
      exact (tokens_joinLines_le hbytes).trans (by simp [hsum])
    · exact (Nat.le_add_right _ _).trans hused
    · exact hfilled.texts ▸ hfilled.nodup

/-! ### Directives of the context -/

theorem supersedes_iff {before : Revision} : supersedes row before = true ↔
    toLex (before.recordedAt, before.revision) < toLex (row.recordedAt, row.revision) := by
  rw [supersedes, Bool.or_eq_true, Bool.and_eq_true, decide_eq_true_eq, decide_eq_true_eq, decide_eq_true_eq,
    Prod.Lex.toLex_lt_toLex]

/-- What is kept is a revision of its identity that no other one supersedes. -/
structure Latest (revisions : List Revision) (latest : List (String × Revision)) : Prop where
  mem : ∀ identity row, latest.lookup identity = some row → row ∈ revisions ∧ row.id = identity
  kept : ∀ row ∈ revisions, ∃ found, latest.lookup row.id = some found ∧ supersedes row found = false

theorem latest_keepLatest {latest : List (String × Revision)} (h : Latest revisions latest) (row : Revision) :
    Latest (revisions ++ [row]) (keepLatest latest row) := by
  have hassign : ∀ (hnewer : ∀ other ∈ revisions, other.id = row.id → supersedes other row = false),
      Latest (revisions ++ [row]) (assign row.id row latest) := by
    intro hnewer
    refine ⟨fun identity found hfound ↦ ?_, fun other hother ↦ ?_⟩
    · rw [lookup_assign] at hfound
      split_ifs at hfound with hid
      · obtain rfl := Option.some.inj hfound
        exact ⟨List.mem_append_right _ (List.mem_singleton.mpr rfl), hid.symm⟩
      · obtain ⟨hmem, hidentity⟩ := h.mem identity found hfound
        exact ⟨List.mem_append_left _ hmem, hidentity⟩
    · rw [lookup_assign]
      obtain hold | hnew := List.mem_append.mp hother
      · split_ifs with hid
        · exact ⟨row, rfl, hnewer other hold hid⟩
        · exact h.kept other hold
      · obtain rfl := List.mem_singleton.mp hnew
        refine ⟨other, if_pos rfl, ?_⟩
        rw [Bool.eq_false_iff, Ne, supersedes_iff]
        exact lt_irrefl _
  unfold keepLatest
  cases hbefore : latest.lookup row.id with
  | none =>
    refine hassign fun other hother hid ↦ ?_
    obtain ⟨found, hfound, -⟩ := h.kept other hother
    rw [hid, hbefore] at hfound
    cases hfound
  | some before =>
    dsimp only
    by_cases hnewer : supersedes row before = true
    · rw [if_pos hnewer]
      refine hassign fun other hother hid ↦ ?_
      obtain ⟨found, hfound, holder⟩ := h.kept other hother
      rw [hid, hbefore] at hfound
      obtain rfl := Option.some.inj hfound
      rw [Bool.eq_false_iff, Ne, supersedes_iff] at holder ⊢
      exact fun hlater ↦ holder ((supersedes_iff.mp hnewer).trans hlater)
    · rw [if_neg hnewer]
      refine ⟨fun identity found hfound ↦ ?_, fun other hother ↦ ?_⟩
      · obtain ⟨hmem, hid⟩ := h.mem identity found hfound
        exact ⟨List.mem_append_left _ hmem, hid⟩
      · obtain hold | hnew := List.mem_append.mp hother
        · exact h.kept other hold
        · obtain rfl := List.mem_singleton.mp hnew
          exact ⟨before, hbefore, Bool.eq_false_iff.mpr hnewer⟩

theorem latest_foldl (revisions : List Revision) : Latest revisions (revisions.foldl keepLatest []) := by
  induction revisions using List.reverseRecOn with
  | nil => exact ⟨fun _ _ h ↦ (nomatch h), fun _ h ↦ (nomatch h)⟩
  | append_singleton revisions row ih =>
    rw [List.foldl_append]
    exact latest_keepLatest ih row

/-- The last revision of a directive that applies in a context. -/
def Applies (revisions : List Revision) (context : List String) (row : Revision) : Prop :=
  row ∈ revisions ∧ (∀ other ∈ revisions, other.id = row.id → other = row ∨ supersedes row other = true) ∧
    matchesContext row.scopes context = true

theorem mem_records {rows : List Revision} (h : records revisions context = .ok rows)
    (happlies : Applies revisions context row) : row ∈ rows := by
  obtain ⟨_, h⟩ := Py.of_rest h
  obtain rfl := Except.ok.inj h
  obtain ⟨hmem, hlatest, hmatches⟩ := happlies
  have hfold := latest_foldl revisions
  obtain ⟨found, hfound, holder⟩ := hfold.kept row hmem
  obtain ⟨hin, hid⟩ := hfold.mem _ _ hfound
  obtain rfl : found = row := by
    obtain heq | hlater := hlatest found hin hid
    · exact heq
    · rw [hlater] at holder
      cases holder
  exact List.mem_filter.mpr ⟨List.mem_map.mpr ⟨_, mem_of_lookup hfound, rfl⟩, hmatches⟩

/-- The line of a directive that applies, or of a compression that was promoted to one. -/
def ApplicableLine (gathered : Gathered) (context : List String) (text : String) : Prop :=
  (∃ row, Applies gathered.directives context row ∧ text = line "directive" row.id row.text) ∨
    ∃ artifact ∈ gathered.promoted, artifact.level = "directive" ∧ text = line "directive" artifact.id artifact.text

theorem mem_directiveLines {text : String} (h : directiveLines gathered context = .ok directives)
    (happlicable : ApplicableLine gathered context text) : text ∈ directives := by
  obtain ⟨rules, hrules, h⟩ := Py.of_bind h
  obtain rfl := Except.ok.inj h
  obtain ⟨row, happlies, rfl⟩ | ⟨artifact, hmem, hlevel, rfl⟩ := happlicable
  · exact List.mem_append_left _ (List.mem_map.mpr ⟨row, mem_records hrules happlies, rfl⟩)
  · refine List.mem_append_right _ (List.mem_map.mpr ⟨artifact, List.mem_filter.mpr ⟨hmem, ?_⟩, rfl⟩)
    exact decide_eq_true hlevel

/-! ### Requests -/

theorem shapedBudget_le (hbudget : request.budget ≤ maxBudget)
    (hmax : ¬(request.adaptive = true ∧ 0 < request.budget) ∨ request.maxBudget.getD 0 ≤ maxBudget) :
    (shapedBudget setting request).1 ≤ maxBudget := by
  unfold shapedBudget
  split_ifs with hadaptive
  · have hbound := hmax.resolve_left (not_not.mpr hadaptive)
    have hcap : request.maxBudget.getD adaptiveCap ≤ maxBudget := by
      cases hgiven : request.maxBudget with
      | none => exact (by decide : adaptiveCap ≤ maxBudget)
      | some bound =>
        rw [hgiven] at hbound
        exact hbound
    exact (min_le_left _ _).trans (max_le hbudget hcap)
  · exact hbudget

theorem reflect_eq_ok (h : reflect setting chance gathered request = .ok result)
    (hlines : directiveLines gathered request.context = .ok directives) :
    ∃ budget cap, (directives.map tokens).sum ≤ budget ∧ budget ≤ maxBudget ∧
      result = selectRows setting chance request gathered directives budget cap := by
  obtain ⟨_, hbudget, h⟩ := Py.of_bind h
  obtain ⟨_, hmax, h⟩ := Py.of_bind h
  obtain ⟨_, h⟩ := Py.of_rest h
  obtain ⟨_, h⟩ := Py.of_rest h
  rw [hlines, Py.bind_ok] at h
  obtain ⟨_, hfits, h⟩ := Py.of_bind h
  rw [Py.require_eq_ok_iff, decide_eq_true_eq] at hbudget hmax hfits
  exact ⟨_, _, hfits, shapedBudget_le hbudget hmax, (Except.ok.inj h).symm⟩

theorem reflect_of_budget {budget : ℕ} (hlines : directiveLines gathered context = .ok directives)
    (hfits : (directives.map tokens).sum ≤ budget) (hbudget : budget ≤ maxBudget) (hslots : slots ≤ 100) :
    reflect setting chance gathered ⟨context, budget, true, slots, false, none⟩ =
      .ok (selectRows setting chance ⟨context, budget, true, slots, false, none⟩ gathered directives budget
        budget) := by
  have hbound : decide (budget ≤ 100_000) = true := decide_eq_true hbudget
  have hcount : decide (slots ≤ 100) = true := decide_eq_true hslots
  unfold reflect
  dsimp only
  rw [hbound, Py.require_true, Py.bind_ok, hcount]
  have hshaped : shapedBudget setting ⟨context, budget, true, slots, false, none⟩ = (budget, budget) := rfl
  simp only [Bool.false_eq_true, false_and, not_false_eq_true, true_or, or_true, decide_true, Py.require_true,
    Py.bind_ok, hlines, hshaped, hfits, Py.pure_eq_ok]

/-! ### What fails -/

theorem selectRows_of_budget :
    selectRows setting chance ⟨context, budget, true, slots, false, none⟩ gathered directives budget budget =
      (let pool := explorationPool setting gathered.facts slots (budget - (directives.map tokens).sum)
      let state := fill setting (layers setting gathered) directives (reserveFor pool slots) budget
      let kept := state.selected.filter (chance.keep state.selected)
      let delivered := if slots = 0 then [] else explored chance pool slots state
      let rendered := directives ++ kept.map Selected.line ++ delivered.map Fact.line
      ⟨joinLines rendered, tokens (joinLines rendered), budget, kept ++ delivered.map Fact.selected⟩) := by
  have hgrow : ∀ fillAt : ℕ → Filling, grow setting fillAt budget maxGrowthSteps budget (fillAt budget) =
      (budget, fillAt budget) := fun fillAt ↦ if_neg fun h ↦ absurd h.1 (lt_irrefl _)
  unfold selectRows
  dsimp only
  rw [hgrow]
  rfl

/-- A chance that keeps every row and delivers every fact that is drawn. -/
def everything : Chance where
  keep _ _ := true
  sample pool count := pool.take count
  sample_nodup _ _ h := (List.take_sublist _ _).nodup h
  sample_subset _ _ _ h := List.mem_of_mem_take h
  sample_length _ _ := List.length_take_le _ _
  delivered _ := true

theorem exceeds_of_breaks {context : List String} (hlines : directiveLines gathered context = .ok directives)
    (hbudget : (directives.map tokens).sum ≤ maxBudget) (hbreaks : ¬BreaksFit directives) :
    ∃ result, reflect setting chance gathered ⟨context, (directives.map tokens).sum, true, 0, false, none⟩ =
      .ok result ∧ result.budget < result.tokensEstimate := by
  refine ⟨_, reflect_of_budget hlines le_rfl hbudget (Nat.zero_le _), ?_⟩
  rw [selectRows_of_budget]
  have hnone := @selected_fill_eq_nil setting directives (layers setting gathered)
    (reserveFor (explorationPool setting
    gathered.facts 0 ((directives.map tokens).sum - (directives.map tokens).sum)) 0) (directives.map tokens).sum
    (Nat.le_add_right _ _)
  dsimp only
  rw [hnone, if_pos rfl, List.filter_nil, List.map_nil, List.map_nil, List.append_nil, List.append_nil]
  exact lt_tokens_joinLines (not_le.mp hbreaks)

/-- A draw of two identities where both are there. -/
def drawing (first second : String) (hne : first ≠ second) : Chance where
  keep _ _ := true
  sample pool count := if count = 2 ∧ first ∈ pool ∧ second ∈ pool then [first, second] else pool.take count
  sample_nodup pool count h := by
    split_ifs
    · simpa using hne
    · exact (List.take_sublist _ _).nodup h
  sample_subset pool count identity h := by
    split_ifs at h with hboth
    · simp only [List.mem_cons, List.not_mem_nil, or_false] at h
      rcases h with rfl | rfl
      · exact hboth.2.1
      · exact hboth.2.2
    · exact List.mem_of_mem_take h
  sample_length pool count := by
    split_ifs with hboth
    · exact hboth.1.ge
    · exact List.length_take_le _ _
  delivered _ := true

theorem repeats_of_facts {other : Fact} (hlines : directiveLines gathered context = .ok directives)
    (hfact : fact ∈ gathered.facts) (hother : other ∈ gathered.facts) (hexplorable : Explorable setting fact)
    (hexplorable' : Explorable setting other) (htext : other.statement = fact.statement)
    (hne : fact.id ≠ other.id) (hbudget : (directives.map tokens).sum + 2 * max other.cost fact.cost ≤ maxBudget) :
    ∃ chance request result, request.context = context ∧ reflect setting chance gathered request = .ok result ∧
      ¬(result.evidence.map fun selected ↦ selected.row.text).Nodup := by
  refine ⟨drawing fact.id other.id hne, ⟨context, (directives.map tokens).sum + 2 * max other.cost fact.cost, true,
    2, false,
    none⟩, _, rfl, reflect_of_budget hlines (Nat.le_add_right _ _) hbudget (by decide), ?_⟩
  rw [selectRows_of_budget]
  dsimp only
  rw [Nat.add_sub_cancel_left]
  generalize hpool : explorationPool setting gathered.facts 2 (2 * max other.cost fact.cost) = pool
  have hin : ∀ value ∈ gathered.facts, Explorable setting value → value.cost ≤ max other.cost fact.cost →
    value ∈ pool := by
    intro value hvalue hfree hcost
    rw [← hpool, mem_explorationPool_iff, Nat.mul_div_cancel_left _ (by decide)]
    exact ⟨by decide, hvalue, hcost, hfree⟩
  have hfirst : fact ∈ pool := hin fact hfact hexplorable (le_max_right _ _)
  have hsecond : other ∈ pool := hin other hother hexplorable' (le_max_left _ _)
  have hnodup : (pool.map Fact.id).Nodup := hpool ▸ nodup_explorationPool _ _
  have hlength : 2 ≤ pool.length := two_le_length_of_mem hfirst hsecond fun heq ↦ hne (congrArg Fact.id heq)
  have hreserve : 2 * max other.cost fact.cost ≤ reserveFor pool 2 := by
    have hmax := (le_foldl_max (pool.map Fact.cost) 0).2
    rw [reserveFor, min_eq_left hlength, mul_comm]
    exact Nat.mul_le_mul_right _ (max_le (hmax _ (List.mem_map_of_mem hsecond)) (hmax _ (List.mem_map_of_mem hfirst)))
  have hfilled := @filled_fill setting directives (layers setting gathered) (reserveFor pool 2)
    ((directives.map tokens).sum + 2 * max other.cost fact.cost)
  have hnone := @selected_fill_eq_nil setting directives (layers setting gathered) (reserveFor pool 2)
    ((directives.map tokens).sum + 2 * max other.cost fact.cost) (by omega)
  generalize fill setting (layers setting gathered) directives (reserveFor pool 2)
    ((directives.map tokens).sum + 2 * max other.cost fact.cost) = state at hfilled hnone
  have hconsumed : state.consumed = [] := by rw [hfilled.consumed, hnone, List.flatMap_nil]
  have hexplored : explored (drawing fact.id other.id hne) pool 2 state = [fact, other] := by
    have havailable : pool.filter (fun value ↦ value.id ∉ state.consumed ∧
        value.id ∉ state.selected.map fun selected ↦ selected.row.id) = pool := by
      rw [hconsumed, hnone]
      exact List.filter_eq_self.mpr fun value _ ↦ by simp
    have hmem : ∀ value ∈ pool, value.id ∈ (pool.map Fact.id).insertionSort (· ≤ ·) :=
      fun value hvalue ↦ (List.mem_insertionSort _).mpr (List.mem_map_of_mem hvalue)
    have hdraw : explore (drawing fact.id other.id hne) ((pool.map Fact.id).insertionSort (· ≤ ·)) 2 =
        [fact.id, other.id] := by
      have hcount : min 2 ((pool.map Fact.id).insertionSort (· ≤ ·)).length = 2 := by
        rw [List.length_insertionSort, List.length_map, min_eq_left hlength]
      unfold explore
      rw [hcount]
      change (if _ then _ else _ : List String).filter _ = _
      rw [if_pos ⟨rfl, hmem fact hfirst, hmem other hsecond⟩]
      rfl
    have hfind : ∀ value ∈ pool, (pool.find? fun found ↦ found.id = value.id) = some value := by
      intro value hvalue
      cases hfound : pool.find? fun found ↦ found.id = value.id with
      | none => exact absurd (List.find?_eq_none.mp hfound value hvalue) (by simp)
      | some found =>
        have hid : found.id = value.id := by simpa using List.find?_some hfound
        rw [List.inj_on_of_nodup_map hnodup (List.mem_of_find?_eq_some hfound) hvalue hid]
    unfold explored
    dsimp only
    rw [havailable, hdraw, List.filterMap_cons, hfind fact hfirst, List.filterMap_cons, hfind other hsecond]
    rfl
  rw [if_neg (by decide), hexplored, hnone]
  simp [Fact.selected, htext]

/-! ### Exactly when reflections are sound -/

/-- The text fits, every applicable directive is in it, and no two rows have one text. -/
structure Sound (gathered : Gathered) (context : List String) (result : Result) : Prop where
  text_le : tokens result.context ≤ result.tokensEstimate
  estimate_le : result.tokensEstimate ≤ result.budget
  included : ∃ lines, result.context = joinLines lines ∧ ∀ text, ApplicableLine gathered context text → text ∈ lines
  nodup : (result.evidence.map fun selected ↦ selected.row.text).Nodup

/-- Every reflection of a context is sound, whatever chance keeps and delivers. -/
def AlwaysSound (setting : Setting) (gathered : Gathered) (context : List String) : Prop :=
  ∀ chance request result, request.context = context → reflect setting chance gathered request = .ok result →
    Sound gathered context result

end Reflections

namespace Sample

def gathered : Gathered where
  directives :=
    [⟨"a", "2026-10-18", "1", [], "no", true⟩, ⟨"b", "2026-10-18", "2", [], "no", true⟩]
  promoted := []
  curated := []
  consolidated := []
  raw := []
  facts := []
  nodup := List.nodup_nil

def setting : Setting := ⟨fun _ ↦ 0, fun _ ↦ false, fun _ ↦ false, fun _ ↦ false, 1⟩

def single : Gathered := { gathered with directives := [⟨"a", "2026-10-18", "1", [], "no", true⟩] }

end Sample

end UniMem.MemoryControl
