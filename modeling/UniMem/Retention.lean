import UniMem.FrontierProtocol.Numbers

/-!
# Token budgets

`retention.dream_budget` selects items by utility for each token, and `retention.evict` forgets what does not fit
and is not protected. Rounding is a parameter.
-/

namespace UniMem.Retention

open Library FrontierProtocol

/-- An item, with a utility that was predicted for it. -/
structure Item where
  id : String
  effect : ℚ
  futureRetrieval : ℚ
  tokens : ℤ

/-- What `dream_budget` weighs of an item. -/
structure Weighed where
  id : String
  effect : ℚ
  ratio : ℚ
  cost : ℤ
  utility : ℚ

/-- An item that was selected. -/
structure Change where
  id : String
  tokens : ℤ
  predictedUtility : ℚ

/-- The result of `dream_budget`. -/
structure Selection where
  changes : List Change
  quarantine : List String
  tokens : ℤ
  kind : String

/-- The checks on an item and its weight. -/
def weigh (round : ℚ → ℚ) (guarded : List String) (item : Item) : Py (Option Weighed) := do
  let identity ← text item.id "identifier" 512
  let effect ← number item.effect unitLimits "number"
  let frequency ← number item.futureRetrieval shareLimits "number"
  let cost ← count item.tokens 1 1_000_000 "count"
  if identity ∈ guarded then return none
  else
    let utility := round (frequency * effect)
    return some ⟨identity, effect, round (utility / cost), cost, utility⟩

/-- The items from the heaviest on. -/
def heaviest (items : List Weighed) : List Weighed :=
  sortBy (fun item ↦ OrderDual.toDual (toLex (item.ratio, toLex (item.id, toLex (item.cost, item.utility))))) items

/-- The items with a positive utility that still fit into the budget, one by one. -/
def choose (budget : ℤ) : ℤ → List Weighed → List Weighed
  | _, [] => []
  | spent, item :: items =>
    if spent + item.cost ≤ budget ∧ 0 < item.utility then item :: choose budget (spent + item.cost) items
    else choose budget spent items

/-- `dream_budget`. -/
def dreamBudget (round : ℚ → ℚ) (items : List Item) (tokens : ℤ) (guarded : List String) : Py Selection := do
  let _ ← count tokens 0 1_000_000 "count"
  let _ ← count items.length 0 4096 "count"
  let weighed ← Py.collect (weigh round guarded) items
  let selected := choose tokens 0 (heaviest (weighed.filter fun item ↦ ¬item.effect < 0))
  return {
    changes := selected.map fun item ↦ ⟨item.id, item.cost, item.utility⟩
    quarantine := sortBy id ((weighed.filter fun item ↦ item.effect < 0).map Weighed.id)
    tokens := (selected.map Weighed.cost).sum
    kind := "utility heuristic; changes remain itemized and require randomized rewrite evidence" }

variable {round : ℚ → ℚ} {guarded : List String} {item : Item} {items : List Item} {tokens : ℤ}
    {selection : Selection}

/-- An item that passes the checks of `dream_budget`. -/
structure Item.Valid (item : Item) : Prop where
  id : text item.id "identifier" 512 = .ok item.id
  effect : -1 ≤ item.effect ∧ item.effect ≤ 1
  futureRetrieval : 0 ≤ item.futureRetrieval ∧ item.futureRetrieval ≤ 1
  tokens : 1 ≤ item.tokens ∧ item.tokens ≤ 1_000_000

/-- The weight of an item that passes the checks. -/
def Item.weighed (round : ℚ → ℚ) (item : Item) : Weighed :=
  let utility := round (item.futureRetrieval * item.effect)
  ⟨item.id, item.effect, round (utility / item.tokens), item.tokens, utility⟩

theorem weigh_of_valid (round : ℚ → ℚ) (guarded : List String) (h : item.Valid) :
    weigh round guarded item = .ok (if item.id ∈ guarded then none else some (item.weighed round)) := by
  have heffect : number item.effect unitLimits "number" = .ok item.effect :=
    number_of_mem "number" h.effect.1 h.effect.2
  have hfrequency : number item.futureRetrieval shareLimits "number" = .ok item.futureRetrieval :=
    number_of_mem "number" h.futureRetrieval.1 h.futureRetrieval.2
  rw [weigh, h.id, Py.bind_ok, heffect, Py.bind_ok, hfrequency, Py.bind_ok,
    count_of_mem "count" h.tokens.1 h.tokens.2, Py.bind_ok]
  split_ifs <;> rfl

theorem choose_sublist (budget spent : ℤ) (items : List Weighed) : (choose budget spent items).Sublist items := by
  induction items generalizing spent with
  | nil => exact List.Sublist.refl []
  | cons item items ih =>
    rw [choose]
    split_ifs
    · exact (ih _).cons_cons item
    · exact (ih _).cons item

theorem sum_choose_le {budget spent : ℤ} (h : spent ≤ budget) (items : List Weighed) :
    spent + ((choose budget spent items).map Weighed.cost).sum ≤ budget := by
  induction items generalizing spent with
  | nil => simpa [choose] using h
  | cons item items ih =>
    rw [choose]
    split_ifs with hfits
    · rw [List.map_cons, List.sum_cons, ← add_assoc]
      exact ih hfits.1
    · exact ih h

theorem map_filterMap_weighed (round : ℚ → ℚ) (guarded : List String) (items : List Item) :
    (items.filterMap fun item ↦ if item.id ∈ guarded then none else some (item.weighed round)).map
        (fun weighed ↦ (weighed.id, weighed.cost)) =
      (items.filter fun item ↦ item.id ∉ guarded).map fun item ↦ (item.id, item.tokens) := by
  induction items with
  | nil => rfl
  | cons item items ih =>
    by_cases hguarded : item.id ∈ guarded
    · rw [List.filterMap_cons_none (by rw [if_pos hguarded]), List.filter_cons_of_neg (by simpa using hguarded), ih]
    · rw [List.filterMap_cons_some (b := item.weighed round) (by rw [if_neg hguarded]),
        List.filter_cons_of_pos (by simpa using hguarded), List.map_cons, List.map_cons, ih]
      rfl

theorem dreamBudget_of_valid (round : ℚ → ℚ) (guarded : List String) (hitems : ∀ item ∈ items, item.Valid)
    (hlength : items.length ≤ 4096) (htokens : 0 ≤ tokens ∧ tokens ≤ 1_000_000) :
    ∃ selection, dreamBudget round items tokens guarded = .ok selection ∧
      (selection.changes.map fun change ↦ (change.id, change.tokens)).Subperm
        ((items.filter fun item ↦ item.id ∉ guarded).map fun item ↦ (item.id, item.tokens)) ∧
      (selection.changes.map Change.tokens).sum ≤ tokens := by
  have hweigh := Py.collect_eq_ok fun item hitem ↦ weigh_of_valid round guarded (hitems item hitem)
  have hcount : count items.length 0 4096 "count" = .ok (items.length : ℤ) :=
    count_of_mem "count" (by omega) (by omega)
  rw [dreamBudget, count_of_mem "count" htokens.1 htokens.2, Py.bind_ok, hcount, Py.bind_ok, hweigh]
  refine ⟨_, rfl, ?_, ?_⟩
  · rw [← map_filterMap_weighed round, List.map_map]
    refine ((choose_sublist tokens 0 _).map _).subperm.trans ?_
    exact ((sortBy_perm _ _).map _).subperm.trans ((List.filter_sublist).map _).subperm
  · rw [List.map_map]
    exact (zero_add _).symm.trans_le (sum_choose_le htokens.1 _)

/-- What `evict` reads of an item. -/
structure Candidate (φ : Type) where
  id : String
  tokens : ℤ
  futureRetrieval : ℚ
  features : φ
  n : ℤ

/-- What `evict` ranks. -/
structure Ranked where
  utility : ℚ
  id : String
  cost : ℤ
  uplift : ℚ

/-- The result of `evict`. -/
structure Eviction where
  kept : List String
  evicted : List String
  tokens : ℤ
  kind : String
  protectedOverBudget : Bool

/-- The variables of the loop of `evict`. -/
structure Sweep where
  used : ℤ
  kept : List String
  evicted : List String

/-- One item of `ranked`; `predict` is the method of the model. -/
def rankItem {φ : Type} (round : ℚ → ℚ) (predict : φ → ℤ → Py ℚ) (item : Candidate φ) : Py Ranked := do
  let identity ← text item.id "identifier" 512
  let cost ← count item.tokens 1 1_000_000 "count"
  let frequency ← number item.futureRetrieval shareLimits "number"
  let uplift ← predict item.features item.n
  return ⟨round (round (frequency * max 0 uplift) / cost), identity, cost, uplift⟩

/-- `sorted(ranked, reverse=True)`. -/
def ranking {φ : Type} (round : ℚ → ℚ) (predict : φ → ℤ → Py ℚ) (items : List (Candidate φ)) :
    Py (List Ranked) := do
  let ranked ← Py.collect (Py.always (rankItem round predict)) items
  return sortBy (fun item ↦
    OrderDual.toDual (toLex (item.utility, toLex (item.id, toLex (item.cost, item.uplift))))) ranked

/-- One turn of the loop of `evict`; `forget` is `forget_fact`. -/
def sweep (forget : String → Py Unit) (guarded : List String) (budget : ℤ) (state : Sweep) (item : Ranked) :
    Py Sweep :=
  if item.id ∈ guarded ∨ state.used + item.cost ≤ budget ∧ 0 ≤ item.uplift then
    .ok { state with kept := state.kept ++ [item.id], used := state.used + item.cost }
  else do
    forget item.id
    return { state with evicted := state.evicted ++ [item.id] }

/-- `evict`. -/
def evict {φ : Type} (isOperator : Bool) (round : ℚ → ℚ) (predict : φ → ℤ → Py ℚ) (forget : String → Py Unit)
    (guarded : List String) (items : List (Candidate φ)) (budget : ℤ) : Py Eviction := do
  Py.require isOperator (.permissionError "utility eviction requires an operator")
  let _ ← count budget 0 1_000_000 "count"
  let _ ← count items.length 0 4096 "count"
  let ranked ← ranking round predict items
  let final ← ranked.foldlM (sweep forget guarded budget) ⟨0, [], []⟩
  return ⟨final.kept, final.evicted, final.used, "learned utility heuristic", budget < final.used⟩

/-- The tokens of the protected items. -/
def guardedTokens (guarded : List String) (ranked : List Ranked) : ℤ :=
  ((ranked.filter fun item ↦ item.id ∈ guarded).map Ranked.cost).sum

/-- Every other item that fits leaves room for the protected items behind it. -/
def LeavesRoom (guarded : List String) (budget : ℤ) : ℤ → List Ranked → Prop
  | _, [] => True
  | used, item :: items =>
    if item.id ∈ guarded then LeavesRoom guarded budget (used + item.cost) items
    else if used + item.cost ≤ budget ∧ 0 ≤ item.uplift then
      used + item.cost + guardedTokens guarded items ≤ budget ∧ LeavesRoom guarded budget (used + item.cost) items
    else LeavesRoom guarded budget used items

/-- What an eviction must respect. -/
def Eviction.Respects {φ : Type} (result : Eviction) (guarded : List String) (items : List (Candidate φ))
    (budget : ℤ) : Prop :=
  let needed := ((items.filter fun item ↦ item.id ∈ guarded).map Candidate.tokens).sum
  (∀ item ∈ items, item.id ∈ guarded → item.id ∈ result.kept) ∧ result.tokens ≤ max budget needed ∧
    (result.protectedOverBudget = true ↔ budget < needed)

section

variable {φ : Type} {predict : φ → ℤ → Py ℚ} {forget : String → Py Unit} {budget : ℤ} {ranked : List Ranked}
  {state final : Sweep}

theorem guardedTokens_cons (item : Ranked) : guardedTokens guarded (item :: ranked) =
    (if item.id ∈ guarded then item.cost else 0) + guardedTokens guarded ranked := by
  unfold guardedTokens
  split_ifs with h
  · rw [List.filter_cons_of_pos (by simpa using h), List.map_cons, List.sum_cons]
  · rw [List.filter_cons_of_neg (by simpa using h), zero_add]

theorem foldlM_sweep (hcost : ∀ item ∈ ranked, 1 ≤ item.cost)
    (h : ranked.foldlM (sweep forget guarded budget) state = .ok final) :
    (∀ identity ∈ state.kept, identity ∈ final.kept) ∧
      (∀ item ∈ ranked, item.id ∈ guarded → item.id ∈ final.kept) ∧
      state.used + guardedTokens guarded ranked ≤ final.used ∧
      (LeavesRoom guarded budget state.used ranked →
        final.used = state.used + guardedTokens guarded ranked ∨ final.used ≤ budget) ∧
      (¬LeavesRoom guarded budget state.used ranked →
        budget < final.used ∧ state.used + guardedTokens guarded ranked < final.used) := by
  induction ranked generalizing state with
  | nil =>
    obtain rfl := Except.ok.inj h
    simp [guardedTokens, LeavesRoom]
  | cons item ranked ih =>
    rw [List.foldlM_cons] at h
    obtain ⟨next, hnext, h⟩ := Py.of_bind h
    obtain ⟨hkept, hall, hleast, hroom, hfull⟩ :=
      ih (fun other hother ↦ hcost other (List.mem_cons_of_mem _ hother)) h
    have hpos := hcost item List.mem_cons_self
    rw [guardedTokens_cons, LeavesRoom]
    unfold sweep at hnext
    by_cases hguarded : item.id ∈ guarded
    · rw [if_pos (.inl hguarded)] at hnext
      obtain rfl := Except.ok.inj hnext
      rw [if_pos hguarded, if_pos hguarded, ← add_assoc]
      refine ⟨fun identity hmem ↦ hkept identity (List.mem_append_left _ hmem), ?_, hleast, hroom, hfull⟩
      rintro other (_ | ⟨_, hother⟩) hin
      · exact hkept _ (List.mem_append_right _ List.mem_cons_self)
      · exact hall other hother hin
    · have hothers : ∀ other ∈ item :: ranked, other.id ∈ guarded → other.id ∈ final.kept := by
        rintro other (_ | ⟨_, hother⟩) hin
        · exact absurd hin hguarded
        · exact hall other hother hin
      rw [if_neg hguarded, if_neg hguarded, zero_add]
      by_cases hfits : state.used + item.cost ≤ budget ∧ 0 ≤ item.uplift
      · rw [if_pos (.inr hfits)] at hnext
        obtain rfl := Except.ok.inj hnext
        rw [if_pos hfits]
        dsimp only at hkept hleast hroom hfull
        refine ⟨fun identity hmem ↦ hkept identity (List.mem_append_left _ hmem), hothers, by omega, ?_, ?_⟩
        · rintro ⟨hleft, hrest⟩
          obtain heq | hle := hroom hrest
          · exact .inr (heq.trans_le hleft)
          · exact .inr hle
        · intro hnot
          by_cases hleft : state.used + item.cost + guardedTokens guarded ranked ≤ budget
          · obtain ⟨hover, hmore⟩ := hfull fun hrest ↦ hnot ⟨hleft, hrest⟩
            exact ⟨hover, by omega⟩
          · omega
      · rw [if_neg fun hor ↦ hor.elim hguarded hfits] at hnext
        obtain ⟨_, hnext⟩ := Py.of_rest hnext
        obtain rfl := Except.ok.inj hnext
        rw [if_neg hfits]
        exact ⟨hkept, hothers, hleast, hroom, hfull⟩

theorem rankItem_spec {item : Candidate φ} {weighed : Ranked} (h : rankItem round predict item = .ok weighed) :
    weighed.id = item.id ∧ weighed.cost = item.tokens ∧ 1 ≤ weighed.cost := by
  simp only [rankItem, Py.bind_eq_ok_iff, Py.pure_eq_ok, Except.ok.injEq, text_eq_ok_iff, count_eq_ok_iff] at h
  obtain ⟨_, ⟨-, rfl⟩, _, ⟨hcost, rfl⟩, _, -, _, -, rfl⟩ := h
  exact ⟨rfl, rfl, hcost.1⟩

theorem ranking_spec {items : List (Candidate φ)} (h : ranking round predict items = .ok ranked) :
    (ranked.map fun item ↦ (item.id, item.cost)).Perm (items.map fun item ↦ (item.id, item.tokens)) ∧
      ∀ item ∈ ranked, 1 ≤ item.cost := by
  obtain ⟨unsorted, hcollect, hsorted⟩ := Py.of_bind h
  obtain rfl := Except.ok.inj hsorted
  have hforall := Py.collect_always_eq_ok_iff.mp hcollect
  have hmap : unsorted.map (fun item ↦ (item.id, item.cost)) = items.map (fun item ↦ (item.id, item.tokens)) ∧
      ∀ item ∈ unsorted, 1 ≤ item.cost := by
    clear hcollect h hsorted
    induction hforall with
    | nil => exact ⟨rfl, fun item hitem ↦ absurd hitem List.not_mem_nil⟩
    | cons hitem _ ih =>
      obtain ⟨hid, hcost, hpos⟩ := rankItem_spec hitem
      exact ⟨by rw [List.map_cons, List.map_cons, ih.1, hid, hcost], List.forall_mem_cons.mpr ⟨hpos, ih.2⟩⟩
  exact ⟨hmap.1 ▸ (sortBy_perm _ unsorted).map _,
    fun item hitem ↦ hmap.2 item ((sortBy_perm _ unsorted).mem_iff.mp hitem)⟩

end

/-- An eviction respects its budget exactly when kept items leave room for protected ones behind them. -/
theorem respects_iff_leavesRoom {φ : Type} (isOperator : Bool) (round : ℚ → ℚ) (predict : φ → ℤ → Py ℚ)
    (forget : String → Py Unit) (guarded : List String) (items : List (Candidate φ)) (budget : ℤ)
    (ranked : List Ranked) (result : Eviction) (hranked : ranking round predict items = .ok ranked)
    (h : evict isOperator round predict forget guarded items budget = .ok result) :
    result.Respects guarded items budget ↔ LeavesRoom guarded budget 0 ranked := by
  obtain ⟨hperm, hcost⟩ := ranking_spec hranked
  simp only [evict, hranked, Py.bind_eq_ok_iff, Py.bind_ok, Py.pure_eq_ok, Except.ok.injEq] at h
  obtain ⟨_, -, _, -, _, -, final, hfold, rfl⟩ := h
  obtain ⟨-, hall, hleast, hroom, hfull⟩ := foldlM_sweep hcost hfold
  have hneeded : guardedTokens guarded ranked =
      ((items.filter fun item ↦ item.id ∈ guarded).map Candidate.tokens).sum := by
    have hsum := (((hperm.filter fun entry ↦ entry.1 ∈ guarded).map Prod.snd).sum_eq)
    rw [List.filter_map, List.filter_map, List.map_map, List.map_map] at hsum
    exact hsum
  have hkept : ∀ item ∈ items, item.id ∈ guarded → item.id ∈ final.kept := by
    intro item hitem hin
    obtain ⟨found, hfound, heq⟩ := List.mem_map.mp (hperm.mem_iff.mpr (List.mem_map_of_mem hitem))
    have hid : found.id = item.id := congrArg Prod.fst heq
    exact hid ▸ hall found hfound (hid ▸ hin)
  unfold Eviction.Respects
  dsimp only at hleast hroom hfull ⊢
  rw [zero_add] at hleast hroom hfull
  rw [← hneeded, decide_eq_true_eq]
  constructor
  · rintro ⟨-, hmax, -⟩
    by_contra hnot
    have := hfull hnot
    exact absurd hmax (not_le.mpr (max_lt this.1 this.2))
  · intro hleaves
    obtain heq | hle := hroom hleaves
    · exact ⟨hkept, heq ▸ le_max_right _ _, by rw [heq]⟩
    · exact ⟨hkept, hle.trans (le_max_left _ _), by omega⟩

namespace Sample

def candidates : List (Candidate Bool) := [⟨"useful", 60, 1, true, 0⟩, ⟨"hazard", 80, 1, false, 0⟩]

def uplifts (features : Bool) (_ : ℤ) : Py ℚ := .ok (if features then 1 else 0)

def candidateRanking : List Ranked := [⟨1 / 60, "useful", 60, 1⟩, ⟨0, "hazard", 80, 0⟩]

theorem ranking_candidates : ranking id uplifts candidates = .ok candidateRanking := by
  have htexts : text "useful" "identifier" 512 = .ok "useful" ∧ text "hazard" "identifier" 512 = .ok "hazard" := by
    decide +kernel
  have hnumber : number 1 shareLimits "number" = .ok 1 := number_of_mem "number" zero_le_one le_rfl
  have hcosts : count 60 1 1_000_000 "count" = .ok 60 ∧ count 80 1 1_000_000 "count" = .ok 80 := by decide
  have hfirst : rankItem id uplifts ⟨"useful", 60, 1, true, 0⟩ = .ok ⟨1 / 60, "useful", 60, 1⟩ := by
    simp [rankItem, htexts.1, hcosts.1, hnumber, uplifts]
  have hsecond : rankItem id uplifts ⟨"hazard", 80, 1, false, 0⟩ = .ok ⟨0, "hazard", 80, 0⟩ := by
    simp [rankItem, htexts.2, hcosts.2, hnumber, uplifts]
  rw [ranking, candidates, Py.collect_always_eq_ok_iff.mpr (.cons hfirst (.cons hsecond .nil)), Py.bind_ok,
    Py.pure_eq_ok]
  refine congrArg Except.ok (List.Pairwise.insertionSort_eq (List.pairwise_pair.mpr ?_))
  exact Prod.Lex.le_iff.mpr (.inl (by decide +kernel))

def eviction : Eviction := ⟨["useful", "hazard"], [], 140, "learned utility heuristic", true⟩

theorem evict_candidates :
    evict true id uplifts (fun _ ↦ .ok ()) ["hazard"] candidates 100 = .ok eviction := by
  rw [evict, ranking_candidates]
  rfl

end Sample

/-- An item that is kept before a protected one leaves no room for it. -/
theorem not_respects : ¬∀ (predict : Bool → ℤ → Py ℚ) (guarded : List String) (items : List (Candidate Bool))
    (budget : ℤ) (result : Eviction),
    evict true id predict (fun _ ↦ .ok ()) guarded items budget = .ok result →
      result.Respects guarded items budget := by
  intro h
  have hmax := (h _ _ _ _ _ Sample.evict_candidates).2.1
  exact absurd hmax (by decide +kernel)

/-- With more tokens there is room. -/
theorem respects_iff_leavesRoom_candidates : ∃ result,
    evict true id Sample.uplifts (fun _ ↦ .ok ()) ["hazard"] Sample.candidates 140 = .ok result ∧
      (result.Respects ["hazard"] Sample.candidates 140 ↔ LeavesRoom ["hazard"] 140 0 Sample.candidateRanking) := by
  have h : evict true id Sample.uplifts (fun _ ↦ .ok ()) ["hazard"] Sample.candidates 140 =
      .ok { Sample.eviction with protectedOverBudget := false } := by
    rw [evict, Sample.ranking_candidates]
    rfl
  exact ⟨_, h, respects_iff_leavesRoom true id Sample.uplifts _ _ _ _ _ _ Sample.ranking_candidates h⟩

end UniMem.Retention
