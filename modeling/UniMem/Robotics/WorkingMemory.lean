import UniMem.Library.Totals
import UniMem.Retention

/-!
# The working memory of a robot

Keyframes in a dictionary with a total of their tokens; an addition that exceeds the capacity evicts through
`dream_budget`. The vectors of `retrieve` and times are left out.
-/

namespace UniMem.Robotics.WorkingMemory

open Library FrontierProtocol Retention

/-- `MAX_KEYFRAMES`. -/
def maxKeyframes : ℤ := 4096

/-- A stored keyframe. -/
structure Keyframe where
  id : String
  vector : List ℚ
  tokens : ℤ
  episodeId : String
  predictive : Bool
  safety : Bool
  utility : ℚ
  futureRetrieval : ℚ

/-- `WorkingMemory`. -/
structure Memory where
  capacity : ℤ
  items : List (String × Keyframe)
  tokens : ℤ

/-- `WorkingMemory(capacity_tokens=...)`. -/
def init (capacityTokens : Json) : Py Memory := do
  let capacity ← countArgument capacityTokens 1 1_000_000 "count"
  return ⟨capacity, [], 0⟩

/-- `_guard`: a process that was forked counts the tokens again. -/
def Memory.guard (memory : Memory) (forked : Bool) : Memory :=
  if forked then { memory with tokens := total Keyframe.tokens memory.items } else memory

/-- The limits of a component. -/
def componentLimits : Limits := ⟨-1_000_000, 1_000_000, "[-1000000.0, 1000000.0]"⟩

/-- `_vector`. -/
def vectorOf (value : Json) : Py (List ℚ) :=
  match value with
  | .arr items => do
    let _ ← count items.length 1 4096 "vector dimensions"
    let values ← items.mapM fun item ↦ numberArgument item componentLimits "number"
    Py.require (values.any (· ≠ 0)) (.valueError "working-memory vector cannot be zero")
    return values
  | _ => .error (.valueError "working-memory vector must be a bounded sequence")

/-- A boolean marker. -/
def markerOf (value : Json) : Py Bool :=
  match value with
  | .bool marker => .ok marker
  | _ => .error (.valueError "predictive and safety markers must be booleans")

/-- The arguments of `add`. -/
structure Arguments where
  identity : Json
  vector : Json
  tokens : Json
  episodeId : Json
  predictive : Json
  safety : Json
  utility : Json
  futureRetrieval : Json

/-- The keyframe of a call of `add`. -/
def keyframeOf (call : Arguments) : Py Keyframe := do
  let identity ← textArgument call.identity "keyframe id" 128
  let episodeId ← textArgument call.episodeId "episode id" 128
  let tokens ← countArgument call.tokens 1 1_000_000 "count"
  let utility ← numberArgument call.utility unitLimits "number"
  let futureRetrieval ← numberArgument call.futureRetrieval shareLimits "number"
  let predictive ← markerOf call.predictive
  let safety ← markerOf call.safety
  let vector ← vectorOf call.vector
  return ⟨identity, vector, tokens, episodeId, predictive, safety, utility, futureRetrieval⟩

/-- A new keyframe needs room, and a replaced one keeps its protection. -/
def admitKeyframe (memory : Memory) (row : Keyframe) : Py Unit :=
  match memory.items.lookup row.id with
  | none => do
    let _ ← count memory.items.length 0 (maxKeyframes - 1) "count"
    return ()
  | some previous =>
    Py.require (!(previous.safety && !row.safety)) (.valueError "a protected safety keyframe cannot be demoted")

/-- The memory with a keyframe and its tokens. -/
def Memory.store (memory : Memory) (row : Keyframe) : Memory :=
  { memory with
    items := assign row.id row memory.items
    tokens := memory.tokens + (row.tokens - ((memory.items.lookup row.id).map Keyframe.tokens).getD 0) }

/-- What `evict_to_capacity` returns. -/
structure Eviction where
  kept : List String
  evicted : List String
  protectedOverBudget : Bool
  kind : String

/-- `_items.pop`, and the tokens that it frees. -/
def Memory.pop (memory : Memory) (identity : String) : Py Memory :=
  match memory.items.lookup identity with
  | some row =>
    .ok { memory with items := discard identity memory.items, tokens := memory.tokens - row.tokens }
  | none => .error (.keyError identity)

/-- What the selector sees of a keyframe. -/
def Keyframe.candidate (row : Keyframe) : Item := ⟨row.id, max 0 row.utility, row.futureRetrieval, row.tokens⟩

/-- The keys of the safety keyframes. -/
def Memory.guarded (memory : Memory) : List String :=
  (memory.items.filter fun entry ↦ entry.2.safety).map Prod.fst

/-- The tokens of the safety keyframes. -/
def Memory.guardedTokens (memory : Memory) : ℤ :=
  total Keyframe.tokens (memory.items.filter fun entry ↦ entry.2.safety)

/-- `_evict_locked`. -/
def evict (round : ℚ → ℚ) (memory : Memory) : Py (Memory × Eviction) :=
  if memory.tokens ≤ memory.capacity then
    .ok (memory, ⟨sortBy id (memory.items.map Prod.fst), [], false, "no eviction needed"⟩)
  else do
    let budget := max 0 (memory.capacity - memory.guardedTokens)
    let candidates := (memory.items.filter fun entry ↦ entry.2.id ∉ memory.guarded).map fun entry ↦ entry.2.candidate
    let selected ← dreamBudget round candidates budget []
    let keep := memory.guarded ++ selected.changes.map Change.id
    let removed := sortBy id ((memory.items.map Prod.fst).filter (· ∉ keep))
    let kept ← removed.foldlM Memory.pop memory
    return (kept, {
      kept := sortBy id (kept.items.map Prod.fst)
      evicted := removed
      protectedOverBudget := memory.capacity < memory.guardedTokens
      kind := selected.kind })

/-- What `add` returns. -/
structure Report where
  id : String
  items : ℕ
  tokens : ℤ
  guarded : Bool
  evicted : List String

/-- `add`: the memory also when the call raises. -/
def add (round : ℚ → ℚ) (memory : Memory) (call : Arguments) : Memory × Py Report :=
  match keyframeOf call with
  | .error error => (memory, .error error)
  | .ok row =>
    match admitKeyframe memory row with
    | .error error => (memory, .error error)
    | .ok _ =>
      let stored := memory.store row
      if stored.capacity < stored.tokens then
        match evict round stored with
        | .error error => (stored, .error error)
        | .ok (kept, eviction) => (kept, .ok ⟨row.id, kept.items.length, kept.tokens, row.safety, eviction.evicted⟩)
      else (stored, .ok ⟨row.id, stored.items.length, stored.tokens, row.safety, []⟩)

/-- A call on the memory. -/
inductive Call where
  | add (call : Arguments)
  | evictToCapacity

/-- The memory after a call, which may come from a process that was forked. -/
def after (round : ℚ → ℚ) (memory : Memory) (action : Bool × Call) : Memory :=
  let memory := memory.guard action.1
  match action.2 with
  | .add call => (add round memory call).1
  | .evictToCapacity =>
    match evict round memory with
    | .error _ => memory
    | .ok (kept, _) => kept

/-- A keyframe that `add` accepts. -/
structure Keyframe.Valid (row : Keyframe) : Prop where
  id : text row.id "keyframe id" 128 = .ok row.id
  tokens : 1 ≤ row.tokens ∧ row.tokens ≤ 1_000_000
  utility : -1 ≤ row.utility ∧ row.utility ≤ 1
  futureRetrieval : 0 ≤ row.futureRetrieval ∧ row.futureRetrieval ≤ 1

/-- The total is the sum, the keyframes are valid under their ids, and there is room. -/
structure Consistent (memory : Memory) : Prop where
  capacity : 1 ≤ memory.capacity ∧ memory.capacity ≤ 1_000_000
  nodup : (memory.items.map Prod.fst).Nodup
  keyed : ∀ entry ∈ memory.items, entry.2.id = entry.1
  valid : ∀ entry ∈ memory.items, entry.2.Valid
  bounded : (memory.items.length : ℤ) ≤ maxKeyframes
  counted : memory.tokens = total Keyframe.tokens memory.items

variable {round : ℚ → ℚ} {memory next : Memory} {row : Keyframe} {call : Arguments} {identity : String}

theorem consistent_init {capacityTokens : Json} (h : init capacityTokens = .ok memory) : Consistent memory := by
  obtain ⟨capacity, hcapacity, h⟩ := Py.of_bind h
  obtain rfl := Except.ok.inj h
  exact ⟨(countArgument_eq_ok_iff.mp hcapacity).2, List.nodup_nil, fun _ hmem ↦ absurd hmem List.not_mem_nil,
    fun _ hmem ↦ absurd hmem List.not_mem_nil, by simp [maxKeyframes], rfl⟩

theorem Consistent.guard_eq (h : Consistent memory) (forked : Bool) : memory.guard forked = memory := by
  cases forked with
  | false => rfl
  | true => rw [Memory.guard, if_pos rfl, ← h.counted]

theorem valid_of_keyframeOf (h : keyframeOf call = .ok row) : row.Valid := by
  obtain ⟨identity, hidentity, h⟩ := Py.of_bind h
  obtain ⟨episodeId, -, h⟩ := Py.of_bind h
  obtain ⟨tokens, htokens, h⟩ := Py.of_bind h
  obtain ⟨utility, hutility, h⟩ := Py.of_bind h
  obtain ⟨futureRetrieval, hfuture, h⟩ := Py.of_bind h
  obtain ⟨predictive, -, h⟩ := Py.of_bind h
  obtain ⟨safety, -, h⟩ := Py.of_bind h
  obtain ⟨vector, -, h⟩ := Py.of_bind h
  obtain rfl := Except.ok.inj h
  exact ⟨(textArgument_eq_ok_iff.mp hidentity).2, (countArgument_eq_ok_iff.mp htokens).2,
    mem_of_numberArgument hutility, mem_of_numberArgument hfuture⟩

theorem identity_of_keyframeOf (h : keyframeOf call = .ok row) :
    call.identity = .str row.id ∧ (call.safety = .bool true → row.safety = true) := by
  obtain ⟨identity, hidentity, h⟩ := Py.of_bind h
  obtain ⟨episodeId, -, h⟩ := Py.of_bind h
  obtain ⟨tokens, -, h⟩ := Py.of_bind h
  obtain ⟨utility, -, h⟩ := Py.of_bind h
  obtain ⟨futureRetrieval, -, h⟩ := Py.of_bind h
  obtain ⟨predictive, -, h⟩ := Py.of_bind h
  obtain ⟨safety, hsafety, h⟩ := Py.of_bind h
  obtain ⟨vector, -, h⟩ := Py.of_bind h
  obtain rfl := Except.ok.inj h
  refine ⟨(textArgument_eq_ok_iff.mp hidentity).1, fun hmarker ↦ ?_⟩
  rw [hmarker, markerOf] at hsafety
  exact (Except.ok.inj hsafety).symm

theorem consistent_store (h : Consistent memory) (hrow : row.Valid) (hadmitted : admitKeyframe memory row = .ok ()) :
    Consistent (memory.store row) := by
  refine ⟨h.capacity, nodup_map_fst_assign h.nodup, fun entry hentry ↦ ?_, fun entry hentry ↦ ?_, ?_, ?_⟩
  · obtain rfl | hold := eq_or_mem_of_mem_assign hentry
    · rfl
    · exact h.keyed entry hold
  · obtain rfl | hold := eq_or_mem_of_mem_assign hentry
    · exact hrow
    · exact h.valid entry hold
  · unfold admitKeyframe at hadmitted
    change ((assign row.id row memory.items).length : ℤ) ≤ maxKeyframes
    rw [length_assign]
    split at hadmitted
    · next hnone =>
      obtain ⟨_, hcount, -⟩ := Py.of_bind hadmitted
      have hroom := (count_eq_ok_iff.mp hcount).1.2
      rw [hnone, Option.isSome_none, if_neg (by simp)]
      push_cast
      omega
    · next previous hsome =>
      rw [hsome, Option.isSome_some, if_pos rfl]
      exact h.bounded
  · change memory.tokens + _ = total Keyframe.tokens (assign row.id row memory.items)
    rw [total_assign, h.counted]

theorem consistent_pop (h : Consistent memory) (hrow : memory.items.lookup identity = some row) :
    ∃ next, memory.pop identity = .ok next ∧ next.items = discard identity memory.items ∧
      next.capacity = memory.capacity ∧ Consistent next := by
  refine ⟨{ memory with items := discard identity memory.items, tokens := memory.tokens - row.tokens },
    by rw [Memory.pop, hrow], rfl, rfl, ?_⟩
  have hsub : (discard identity memory.items).Sublist memory.items := List.filter_sublist
  refine ⟨h.capacity, h.nodup.sublist (hsub.map _), fun entry hentry ↦ h.keyed entry (hsub.mem hentry),
    fun entry hentry ↦ h.valid entry (hsub.mem hentry), ?_, ?_⟩
  · have hlength : ((discard identity memory.items).length : ℤ) ≤ memory.items.length := by
      exact_mod_cast hsub.length_le
    exact hlength.trans h.bounded
  · change memory.tokens - row.tokens = total Keyframe.tokens (discard identity memory.items)
    rw [total_discard Keyframe.tokens identity h.nodup, hrow, h.counted]
    rfl

theorem popAll {removed : List String} (h : Consistent memory) (hnodup : removed.Nodup)
    (hmem : ∀ identity ∈ removed, identity ∈ memory.items.map Prod.fst) :
    ∃ kept, removed.foldlM Memory.pop memory = .ok kept ∧
      kept.items = memory.items.filter (fun entry ↦ entry.1 ∉ removed) ∧ kept.capacity = memory.capacity ∧
      Consistent kept := by
  induction removed generalizing memory with
  | nil => exact ⟨memory, rfl, by simp, rfl, h⟩
  | cons identity removed ih =>
    obtain ⟨hnotMem, hrestNodup⟩ := List.nodup_cons.mp hnodup
    obtain ⟨hfirst, hrest⟩ := List.forall_mem_cons.mp hmem
    obtain ⟨⟨_, row⟩, hentry, rfl⟩ := List.mem_map.mp hfirst
    dsimp only at hnotMem
    obtain ⟨popped, hpop, hitems, hcapacity, hpopped⟩ :=
      consistent_pop h ((lookup_eq_some_iff_mem h.nodup).mpr hentry)
    obtain ⟨kept, hkept, hkeptItems, hkeptCapacity, hconsistent⟩ := ih hpopped hrestNodup fun other hother ↦ by
      obtain ⟨entry, hentry', rfl⟩ := List.mem_map.mp (hrest other hother)
      rw [hitems]
      refine List.mem_map_of_mem (List.mem_filter.mpr ⟨hentry', decide_eq_true fun heq ↦ ?_⟩)
      exact hnotMem (heq ▸ hother)
    refine ⟨kept, by rw [List.foldlM_cons, hpop]; exact hkept, ?_, hkeptCapacity.trans hcapacity, hconsistent⟩
    rw [hkeptItems, hitems, Library.discard, List.filter_filter]
    refine List.filter_congr fun entry _ ↦ ?_
    simp [not_or, Bool.and_comm]

theorem valid_candidate (h : row.Valid) : row.candidate.Valid := by
  refine ⟨?_, ⟨?_, ?_⟩, h.futureRetrieval, h.tokens⟩
  · have hid := (text_eq_ok_iff.mp h.id).1
    refine text_eq_ok_iff.mpr ⟨fun hbad ↦ hid ?_, rfl⟩
    rcases hbad with hempty | hlength | hbytes | hnul
    · exact .inl hempty
    · exact .inr (.inl (lt_trans (by decide) hlength))
    · exact .inr (.inr (.inl (lt_trans (by decide) hbytes)))
    · exact .inr (.inr (.inr hnul))
  · exact (by norm_num : (-1 : ℚ) ≤ 0).trans (le_max_left 0 row.utility)
  · exact max_le (by norm_num) h.utility.2

theorem Consistent.eq_of_key {first second : String × Keyframe} (h : Consistent memory)
    (hfirst : first ∈ memory.items) (hsecond : second ∈ memory.items) (hkey : first.1 = second.1) : first = second :=
  List.inj_on_of_nodup_map h.nodup hfirst hsecond hkey

theorem total_selected_le {entries : List (String × Keyframe)} {changes : List Change} {candidates : List Item}
    (hnodup : (entries.map Prod.fst).Nodup) (hselected : ∀ entry ∈ entries, entry.1 ∈ changes.map Change.id)
    (hmatch : ∀ entry ∈ entries, ∀ item ∈ candidates, item.id = entry.1 → item.tokens = entry.2.tokens)
    (hpositive : ∀ item ∈ candidates, 0 ≤ item.tokens)
    (hsub : (changes.map fun change ↦ (change.id, change.tokens)).Subperm
      (candidates.map fun item ↦ (item.id, item.tokens))) :
    total Keyframe.tokens entries ≤ (changes.map Change.tokens).sum := by
  have hcandidate : ∀ change ∈ changes, ∃ item ∈ candidates, item.id = change.id ∧ item.tokens = change.tokens := by
    intro change hchange
    obtain ⟨item, hitem, heq⟩ := List.mem_map.mp (hsub.subset (List.mem_map_of_mem hchange))
    exact ⟨item, hitem, (Prod.mk.inj heq).1, (Prod.mk.inj heq).2⟩
  have hsubset : (entries.map fun entry ↦ (entry.1, entry.2.tokens)) ⊆
      changes.map fun change ↦ (change.id, change.tokens) := by
    intro pair hpair
    obtain ⟨entry, hentry, rfl⟩ := List.mem_map.mp hpair
    obtain ⟨change, hchange, hid⟩ := List.mem_map.mp (hselected entry hentry)
    obtain ⟨item, hitem, hitemId, htokens⟩ := hcandidate change hchange
    refine List.mem_map.mpr ⟨change, hchange, Prod.ext hid ?_⟩
    exact htokens.symm.trans (hmatch entry hentry item hitem (hitemId.trans hid))
  have hpairs : (entries.map fun entry ↦ (entry.1, entry.2.tokens)).Nodup :=
    List.Nodup.of_map Prod.fst (by rwa [List.map_map])
  obtain ⟨part, hperm, hpart⟩ := List.subperm_of_subset hpairs hsubset
  have hsum : total Keyframe.tokens entries = (part.map Prod.snd).sum := by
    rw [(hperm.map Prod.snd).sum_eq, List.map_map]
    rfl
  rw [hsum]
  refine (List.Sublist.sum_le_sum (hpart.map Prod.snd) fun tokens htokens ↦ ?_).trans (le_of_eq ?_)
  · obtain ⟨_, hpair, rfl⟩ := List.mem_map.mp htokens
    obtain ⟨change, hchange, rfl⟩ := List.mem_map.mp hpair
    obtain ⟨item, hitem, -, heq⟩ := hcandidate change hchange
    exact heq ▸ hpositive item hitem
  · rw [List.map_map]
    rfl

theorem evict_spec (round : ℚ → ℚ) (h : Consistent memory) :
    ∃ kept eviction, evict round memory = .ok (kept, eviction) ∧ Consistent kept ∧ kept.capacity = memory.capacity ∧
      (∀ entry ∈ memory.items, entry.2.safety = true → entry ∈ kept.items) ∧
      kept.tokens ≤ max kept.capacity kept.guardedTokens := by
  unfold evict
  by_cases hfits : memory.tokens ≤ memory.capacity
  · exact ⟨_, _, if_pos hfits, h, rfl, fun _ hentry _ ↦ hentry, hfits.trans (le_max_left _ _)⟩
  rw [if_neg hfits]
  dsimp only
  generalize hcandidates : ((memory.items.filter fun entry ↦ entry.2.id ∉ memory.guarded).map
    fun entry ↦ entry.2.candidate) = candidates
  have hcandidate : ∀ item ∈ candidates, ∃ entry ∈ memory.items, item = entry.2.candidate := by
    intro item hitem
    rw [← hcandidates] at hitem
    obtain ⟨entry, hentry, rfl⟩ := List.mem_map.mp hitem
    exact ⟨entry, (List.mem_filter.mp hentry).1, rfl⟩
  have hvalid : ∀ item ∈ candidates, item.Valid := by
    intro item hitem
    obtain ⟨entry, hentry, rfl⟩ := hcandidate item hitem
    exact valid_candidate (h.valid entry hentry)
  have hlength : candidates.length ≤ 4096 := by
    rw [← hcandidates, List.length_map]
    have hbounded := h.bounded
    have hfilter := List.length_filter_le (fun entry ↦ decide (entry.2.id ∉ memory.guarded)) memory.items
    unfold maxKeyframes at hbounded
    omega
  have hguardedTokens : 0 ≤ memory.guardedTokens := by
    refine List.sum_nonneg fun tokens htokens ↦ ?_
    obtain ⟨entry, hentry, rfl⟩ := List.mem_map.mp htokens
    exact zero_le_one.trans (h.valid entry (List.mem_filter.mp hentry).1).tokens.1
  have hbudget : 0 ≤ max 0 (memory.capacity - memory.guardedTokens) ∧
      max 0 (memory.capacity - memory.guardedTokens) ≤ 1_000_000 := by
    have hcapacity := h.capacity
    omega
  obtain ⟨selected, hselected, hsub, hsum⟩ := dreamBudget_of_valid round [] hvalid hlength hbudget
  rw [hselected, Py.bind_ok]
  generalize hkeep : memory.guarded ++ selected.changes.map Change.id = keep
  have hremoved : ∀ identity, identity ∈ sortBy id ((memory.items.map Prod.fst).filter (· ∉ keep)) ↔
      identity ∈ memory.items.map Prod.fst ∧ identity ∉ keep := fun identity ↦ by
    rw [mem_sortBy, List.mem_filter, decide_eq_true_eq]
  obtain ⟨kept, hkept, hitems, hcapacity, hconsistent⟩ := popAll h
    ((sortBy_perm id _).nodup_iff.mpr (h.nodup.filter fun identity ↦ decide (identity ∉ keep)))
    fun identity hidentity ↦ ((hremoved identity).mp hidentity).1
  rw [hkept, Py.bind_ok]
  refine ⟨_, _, rfl, hconsistent, hcapacity, ?_, ?_⟩
  · intro entry hentry hsafe
    rw [hitems]
    refine List.mem_filter.mpr ⟨hentry, decide_eq_true fun hgone ↦ ((hremoved entry.1).mp hgone).2 ?_⟩
    rw [← hkeep]
    exact List.mem_append_left _ (List.mem_map_of_mem (List.mem_filter.mpr ⟨hentry, hsafe⟩))
  · -- The protected keyframes are the ones from before, and the others were selected.
    have hguarded : kept.guardedTokens = memory.guardedTokens := by
      unfold Memory.guardedTokens
      rw [hitems, List.filter_filter]
      refine congrArg _ (List.filter_congr fun entry hentry ↦ ?_)
      cases hsafe : entry.2.safety with
      | false => rfl
      | true =>
        refine (Bool.true_and _).trans (decide_eq_true fun hgone ↦ ((hremoved entry.1).mp hgone).2 ?_)
        rw [← hkeep]
        exact List.mem_append_left _ (List.mem_map_of_mem (List.mem_filter.mpr ⟨hentry, hsafe⟩))
    have hothers : total Keyframe.tokens (kept.items.filter fun entry ↦ !entry.2.safety) ≤
        (selected.changes.map Change.tokens).sum := by
      have hmem : ∀ entry ∈ kept.items.filter (fun entry ↦ !entry.2.safety), entry ∈ memory.items ∧
          entry.1 ∈ keep ∧ entry.2.safety = false := by
        intro entry hentry
        obtain ⟨hstays, hsafe⟩ := List.mem_filter.mp hentry
        rw [hitems] at hstays
        obtain ⟨hbefore, hkeeps⟩ := List.mem_filter.mp hstays
        refine ⟨hbefore, ?_, by simpa using hsafe⟩
        by_contra hnot
        exact of_decide_eq_true hkeeps ((hremoved entry.1).mpr ⟨List.mem_map_of_mem hbefore, hnot⟩)
      refine total_selected_le (hconsistent.nodup.sublist ((List.filter_sublist).map _)) (fun entry hentry ↦ ?_)
        (fun entry hentry item hitem hid ↦ ?_) (fun item hitem ↦ zero_le_one.trans (hvalid item hitem).tokens.1)
        (hsub.trans ((List.filter_sublist).map _).subperm)
      · obtain ⟨hbefore, hkeeps, hsafe⟩ := hmem entry hentry
        rw [← hkeep] at hkeeps
        refine (List.mem_append.mp hkeeps).resolve_left fun hguard ↦ ?_
        obtain ⟨other, hother, hkey⟩ := List.mem_map.mp hguard
        obtain ⟨hotherMem, hotherSafe⟩ := List.mem_filter.mp hother
        obtain rfl := h.eq_of_key hotherMem hbefore hkey
        rw [hsafe] at hotherSafe
        cases hotherSafe
      · obtain ⟨hbefore, -, -⟩ := hmem entry hentry
        obtain ⟨other, hother, rfl⟩ := hcandidate item hitem
        rw [h.eq_of_key hother hbefore ((h.keyed other hother).symm.trans hid)]
        rfl
    rw [hconsistent.counted, ← total_filter_add Keyframe.tokens fun entry ↦ entry.2.safety]
    change kept.guardedTokens + _ ≤ max kept.capacity kept.guardedTokens
    rw [hguarded, hcapacity]
    omega

/-- A safety keyframe stands under a key. -/
def Memory.Protects (memory : Memory) (key : String) : Prop :=
  ∃ row, memory.items.lookup key = some row ∧ row.safety = true

theorem protects_store {key : String} (h : memory.Protects key) (hadmitted : admitKeyframe memory row = .ok ()) :
    (memory.store row).Protects key := by
  obtain ⟨previous, hprevious, hsafe⟩ := h
  unfold Memory.Protects
  rw [Memory.store, lookup_assign]
  split_ifs with hkey
  · subst hkey
    refine ⟨row, rfl, ?_⟩
    rw [admitKeyframe, hprevious] at hadmitted
    simpa [hsafe] using hadmitted
  · exact ⟨previous, hprevious, hsafe⟩

theorem protects_of_mem {kept : Memory} {key : String} (hconsistent : Consistent memory) (hkept : Consistent kept)
    (hsafe : ∀ entry ∈ memory.items, entry.2.safety = true → entry ∈ kept.items) (h : memory.Protects key) :
    kept.Protects key := by
  obtain ⟨row, hrow, hprotected⟩ := h
  refine ⟨row, (lookup_eq_some_iff_mem hkept.nodup).mpr ?_, hprotected⟩
  exact hsafe (key, row) ((lookup_eq_some_iff_mem hconsistent.nodup).mp hrow) hprotected

/-- What `add` leaves when it returns: a total within the capacity or protected. -/
structure Added (memory added : Memory) (call : Arguments) (report : Report) : Prop where
  bounded : added.tokens ≤ max memory.capacity added.guardedTokens
  identity : call.identity = .str report.id
  protects : call.safety = .bool true → added.Protects report.id

theorem add_cases (round : ℚ → ℚ) (h : Consistent memory) (call : Arguments) :
    (∃ error, add round memory call = (memory, .error error)) ∨
    ∃ added report, add round memory call = (added, .ok report) ∧ Consistent added ∧
      added.capacity = memory.capacity ∧ (∀ key, memory.Protects key → added.Protects key) ∧
      Added memory added call report := by
  unfold add
  cases hrow : keyframeOf call with
  | error error => exact .inl ⟨error, rfl⟩
  | ok row =>
    dsimp only
    cases hadmitted : admitKeyframe memory row with
    | error error => exact .inl ⟨error, rfl⟩
    | ok _ =>
      have hstored := consistent_store h (valid_of_keyframeOf hrow) hadmitted
      obtain ⟨hidentity, hmarker⟩ := identity_of_keyframeOf hrow
      have hprotects : call.safety = .bool true → (memory.store row).Protects row.id := fun hsafe ↦
        ⟨row, by rw [Memory.store, lookup_assign]; exact if_pos rfl, hmarker hsafe⟩
      dsimp only
      by_cases hover : (memory.store row).capacity < (memory.store row).tokens
      · obtain ⟨kept, eviction, heq, hkept, hcapacity, hsafe, hbounded⟩ := evict_spec round hstored
        rw [if_pos hover, heq]
        refine .inr ⟨kept, _, rfl, hkept, hcapacity, fun key hkey ↦ ?_, ⟨?_, hidentity, fun hguarded ↦ ?_⟩⟩
        · exact protects_of_mem hstored hkept hsafe (protects_store hkey hadmitted)
        · exact hcapacity ▸ hbounded
        · exact protects_of_mem hstored hkept hsafe (hprotects hguarded)
      · rw [if_neg hover]
        refine .inr ⟨_, _, rfl, hstored, rfl, fun key hkey ↦ protects_store hkey hadmitted, ?_⟩
        exact ⟨(not_lt.mp hover).trans (le_max_left _ _), hidentity, hprotects⟩

theorem after_spec (round : ℚ → ℚ) (h : Consistent memory) (action : Bool × Call) :
    Consistent (after round memory action) ∧ (after round memory action).capacity = memory.capacity ∧
      ∀ key, memory.Protects key → (after round memory action).Protects key := by
  obtain ⟨forked, call⟩ := action
  unfold after
  dsimp only
  rw [h.guard_eq]
  cases call with
  | add call =>
    dsimp only
    obtain ⟨error, heq⟩ | ⟨added, report, heq, hadded, hcapacity, hprotects, -⟩ := add_cases round h call
    · rw [heq]
      exact ⟨h, rfl, fun _ hkey ↦ hkey⟩
    · rw [heq]
      exact ⟨hadded, hcapacity, hprotects⟩
  | evictToCapacity =>
    dsimp only
    obtain ⟨kept, eviction, heq, hkept, hcapacity, hsafe, -⟩ := evict_spec round h
    rw [heq]
    exact ⟨hkept, hcapacity, fun key hkey ↦ protects_of_mem h hkept hsafe hkey⟩

/-- The memory after a list of calls. -/
def afterAll (round : ℚ → ℚ) (memory : Memory) (actions : List (Bool × Call)) : Memory :=
  actions.foldl (after round) memory

theorem afterAll_spec (round : ℚ → ℚ) (h : Consistent memory) (actions : List (Bool × Call)) :
    Consistent (afterAll round memory actions) ∧ (afterAll round memory actions).capacity = memory.capacity ∧
      ∀ key, memory.Protects key → (afterAll round memory actions).Protects key := by
  induction actions generalizing memory with
  | nil => exact ⟨h, rfl, fun _ hkey ↦ hkey⟩
  | cons action actions ih =>
    obtain ⟨hafter, hcapacity, hprotects⟩ := after_spec round h action
    obtain ⟨hfinal, hcapacity', hprotects'⟩ := ih hafter
    exact ⟨hfinal, hcapacity'.trans hcapacity, fun key hkey ↦ hprotects' key (hprotects key hkey)⟩

/-- After all calls the total is the sum, the keyframes are bounded, and safety keyframes stay. -/
theorem accounting (round : ℚ → ℚ) (capacityTokens : Json) (start : Memory) (hstart : init capacityTokens = .ok start)
    (actions : List (Bool × Call)) :
    (afterAll round start actions).tokens = total Keyframe.tokens (afterAll round start actions).items ∧
    ((afterAll round start actions).items.length : ℤ) ≤ maxKeyframes ∧
    (∀ before forked call later report, actions = before ++ (forked, .add call) :: later →
      (add round ((afterAll round start before).guard forked) call).2 = .ok report → call.safety = .bool true →
      (afterAll round start actions).Protects report.id) ∧ ∀ forked call,
      (∀ report, (add round ((afterAll round start actions).guard forked) call).2 = .ok report →
        (add round ((afterAll round start actions).guard forked) call).1.tokens ≤ max start.capacity
          (add round ((afterAll round start actions).guard forked) call).1.guardedTokens) ∧
      ∀ error, (add round ((afterAll round start actions).guard forked) call).2 = .error error →
        (add round ((afterAll round start actions).guard forked) call).1 = afterAll round start actions := by
  obtain ⟨hfinal, hcapacity, -⟩ := afterAll_spec round (consistent_init hstart) actions
  refine ⟨hfinal.counted, hfinal.bounded, ?_, fun forked call ↦ ?_⟩
  · intro before forked call later report hactions hreport hsafety
    subst hactions
    obtain ⟨hbefore, -, -⟩ := afterAll_spec round (consistent_init hstart) before
    rw [hbefore.guard_eq] at hreport
    obtain ⟨error, heq⟩ | ⟨added, found, heq, hadded, -, -, hspec⟩ := add_cases round hbefore call
    · rw [heq] at hreport
      cases hreport
    · rw [heq] at hreport
      obtain rfl := Except.ok.inj hreport
      have hafter : after round (afterAll round start before) (forked, .add call) = added := by
        unfold after
        dsimp only
        rw [hbefore.guard_eq, heq]
      rw [afterAll, List.foldl_append, List.foldl_cons]
      change (afterAll round (after round (afterAll round start before) (forked, .add call)) later).Protects found.id
      rw [hafter]
      exact (afterAll_spec round hadded later).2.2 _ (hspec.protects hsafety)
  · rw [hfinal.guard_eq]
    obtain ⟨error, heq⟩ | ⟨added, found, heq, -, -, -, hspec⟩ := add_cases round hfinal call
    · rw [heq]
      exact ⟨fun _ hreport ↦ absurd hreport (by simp), fun _ _ ↦ rfl⟩
    · rw [heq]
      exact ⟨fun _ _ ↦ hcapacity ▸ hspec.bounded, fun _ herror ↦ absurd herror (by simp)⟩

namespace Sample

def keyframe (identity : String) (safety : Bool) : Bool × Call :=
  (false, .add ⟨.str identity, .arr [.int 1], .int 8, .str "episode", .bool false, .bool safety, .int 0, .int 0⟩)

def actions : List (Bool × Call) := [keyframe "hazard" true, keyframe "door" false]

example : (afterAll id ⟨10, [], 0⟩ actions).items.map Prod.fst = ["hazard"] := by decide

end Sample

/-- The protected keyframe stays. -/
theorem accounting_pair :
    (afterAll id ⟨10, [], 0⟩ Sample.actions).tokens =
        total Keyframe.tokens (afterAll id ⟨10, [], 0⟩ Sample.actions).items ∧
      ((afterAll id ⟨10, [], 0⟩ Sample.actions).items.length : ℤ) ≤ maxKeyframes := by
  obtain ⟨hcounted, hbounded, -⟩ := accounting id (.int 10) ⟨10, [], 0⟩ rfl Sample.actions
  exact ⟨hcounted, hbounded⟩

end UniMem.Robotics.WorkingMemory
