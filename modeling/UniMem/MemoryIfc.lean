import UniMem.FrontierProtocol.Arguments

/-!
# Votes of isolated origins

`aggregate` asks one answer for each origin and certifies the most common one when it leads by more than twice the
origins that may be corrupted. Admission, lineage and answers are parameters.
-/

namespace UniMem.MemoryIfc

open Library FrontierProtocol

/-- What `aggregate` asks of the store and of its caller. -/
structure Setting (ρ : Type) where
  /-- The admitted memories with their statements. -/
  admitted : List String → List String → List (String × String)
  /-- `records.get(identity, {}).get("root_origins", [])`. -/
  rootOrigins : String → List String
  label : String → String → Py ρ
  answer : List ρ → Py String

/-- What `aggregate` returns. -/
inductive Outcome where
  | skipped
  /-- There are too many origins to ask. -/
  | overBudget
  | counted (answer : Option String) (calls : ℕ) (margin : ℕ) (bound : ℤ)
  deriving DecidableEq

variable {ρ : Type}

/-- The labelled memories with one origin, with it. -/
def isolated (setting : Setting ρ) (identities context : List String) : Py (List (String × ρ)) :=
  Py.collect (fun memory : String × String ↦
    match setting.rootOrigins memory.1 with
    | [origin] => do return some (origin, ← setting.label memory.1 memory.2)
    | _ => .ok none) (setting.admitted identities context)

/-- The answer for each group of memories, by origin. -/
def ask (setting : Setting ρ) (groups : List (String × List (String × ρ))) : Py (List (String × String)) :=
  Py.collect (Py.always fun group ↦ do
    let answer ← setting.answer (group.2.map Prod.snd)
    return (group.1, ← text answer "origin answer" 4096)) groups

/-- `Counter(answers).most_common()`. -/
def mostCommon (answers : List String) : List (String × ℕ) :=
  sortBy (fun entry ↦ -(entry.2 : ℤ)) ((group id answers).map fun entry ↦ (entry.1, entry.2.length))

/-- The count of an entry, zero where there is none. -/
def countAt (votes : List (String × ℕ)) (index : ℕ) : ℕ := (votes[index]?.map Prod.snd).getD 0

/-- The certificate for the answers of the origins. -/
def tally (answers : List String) (poisonedOrigins : ℤ) : Outcome :=
  let votes := mostCommon answers
  let top := countAt votes 0
  let runner := countAt votes 1
  let certified := 2 * poisonedOrigins + 1 ≤ answers.length ∧ (top : ℤ) - runner > 2 * poisonedOrigins
  .counted (if certified then votes.head?.map Prod.fst else none) answers.length (top - runner) poisonedOrigins

def aggregate (setting : Setting ρ) (identities : List String) (highConsequence : Bool) (poisonedOrigins maxCalls : ℤ)
    (context : List String) : Py Outcome := do
  let _ ← count identities.length 1 128 "count"
  let _ ← count poisonedOrigins 0 3 "count"
  let _ ← count maxCalls 1 8 "count"
  if !highConsequence then return .skipped
  let groups := sortedGroups Prod.fst (← isolated setting identities context)
  if maxCalls < groups.length then return .overBudget
  let answers ← ask setting groups
  return tally (answers.map Prod.snd) poisonedOrigins

/-- The answers that `aggregate` counts, with their origins. -/
def originAnswers (setting : Setting ρ) (identities context : List String) : Py (List (String × String)) := do
  ask setting (sortedGroups Prod.fst (← isolated setting identities context))

/-- The number of origins with an answer. -/
def votes (answers : List (String × String)) (answer : String) : ℕ := (answers.map Prod.snd).count answer

variable {answers : List String} {winner other : String}

theorem mem_mostCommon_iff (entry : String × ℕ) :
    entry ∈ mostCommon answers ↔ entry.1 ∈ answers ∧ entry.2 = answers.count entry.1 := by
  obtain ⟨answer, number⟩ := entry
  have hcount : (answers.filter fun other ↦ id other = answer).length = answers.count answer := by
    rw [List.count, List.countP_eq_length_filter]
    rfl
  rw [mostCommon, mem_sortBy, List.mem_map]
  constructor
  · rintro ⟨⟨found, members⟩, hmem, heq⟩
    obtain ⟨rfl, rfl⟩ := Prod.mk.inj heq
    obtain ⟨hfound, rfl⟩ := (mem_group_iff id answers found members).mp hmem
    exact ⟨by simpa using hfound, hcount⟩
  · rintro ⟨hmem, hnumber⟩
    refine ⟨(answer, _), (mem_group_iff id answers answer _).mpr ⟨by simpa using hmem, rfl⟩, ?_⟩
    rw [hcount, ← hnumber]

/-- The first entry has the top count, and no other answer has more than the second. -/
theorem head_mostCommon (h : (mostCommon answers).head?.map Prod.fst = some winner) :
    answers.count winner = countAt (mostCommon answers) 0 ∧
      ∀ other ≠ winner, answers.count other ≤ countAt (mostCommon answers) 1 := by
  have hsorted := sorted_map_sortBy (fun entry : String × ℕ ↦ -(entry.2 : ℤ))
    ((group id answers).map fun entry ↦ (entry.1, entry.2.length))
  change ((mostCommon answers).map fun entry ↦ -(entry.2 : ℤ)).Pairwise (· ≤ ·) at hsorted
  have hmem := @mem_mostCommon_iff answers
  generalize mostCommon answers = ranked at h hsorted hmem
  match ranked with
  | [] => cases h
  | (first, top) :: rest =>
    obtain rfl : first = winner := Option.some.inj h
    refine ⟨((hmem (first, top)).mp List.mem_cons_self).2.symm, fun other hother ↦ ?_⟩
    by_cases hin : other ∈ answers
    · have hrest : (other, answers.count other) ∈ rest :=
        (List.mem_cons.mp ((hmem (other, _)).mpr ⟨hin, rfl⟩)).resolve_left fun heq ↦ hother (Prod.mk.inj heq).1
      match rest, hrest with
      | second :: rest, hrest =>
        obtain heq | hlater := List.mem_cons.mp hrest
        · rw [← heq]
          exact le_rfl
        · have hle := (List.pairwise_cons.mp (List.pairwise_cons.mp hsorted).2).1 _
            (List.mem_map.mpr ⟨_, hlater, rfl⟩)
          exact_mod_cast neg_le_neg_iff.mp hle
    · rw [List.count_eq_zero_of_not_mem hin]
      exact Nat.zero_le _

variable {first second : List (String × String)} {changed : Finset String}

/-- The origins with an answer. -/
def voters (answers : List (String × String)) (answer : String) : Finset String :=
  ((answers.filter (·.2 = answer)).map Prod.fst).toFinset

theorem card_voters (h : (first.map Prod.fst).Nodup) (answer : String) :
    (voters first answer).card = votes first answer := by
  rw [voters, List.toFinset_card_of_nodup (h.sublist (List.filter_sublist.map _)), List.length_map, votes, List.count,
    List.countP_map, List.countP_eq_length_filter]
  rfl

theorem mem_voters_iff (h : (first.map Prod.fst).Nodup) {origin answer : String} :
    origin ∈ voters first answer ↔ first.lookup origin = some answer := by
  rw [voters, List.mem_toFinset, List.mem_map, lookup_eq_some_iff_mem h]
  constructor
  · rintro ⟨⟨found, given⟩, hmem, rfl⟩
    obtain ⟨hmem, hgiven⟩ := List.mem_filter.mp hmem
    rwa [← of_decide_eq_true hgiven]
  · exact fun hmem ↦ ⟨_, List.mem_filter.mpr ⟨hmem, decide_eq_true rfl⟩, rfl⟩

/-- An answer gains at most one vote from each origin that changed. -/
theorem votes_le (hfirst : (first.map Prod.fst).Nodup) (hsecond : (second.map Prod.fst).Nodup)
    (h : ∀ origin ∉ changed, second.lookup origin = first.lookup origin) (answer : String) :
    votes second answer ≤ votes first answer + changed.card := by
  rw [← card_voters hfirst, ← card_voters hsecond]
  refine (Finset.card_le_card fun origin horigin ↦ ?_).trans (Finset.card_union_le _ changed)
  rw [Finset.mem_union, mem_voters_iff hfirst]
  by_cases hchanged : origin ∈ changed
  · exact .inr hchanged
  · exact .inl ((h origin hchanged) ▸ (mem_voters_iff hsecond).mp horigin)

theorem nodup_ask {setting : Setting ρ} {groups : List (String × List (String × ρ))}
    (hgroups : (groups.map Prod.fst).Nodup) (h : ask setting groups = .ok first) : (first.map Prod.fst).Nodup := by
  refine Py.collect_nodup id hgroups (fun group _ result hresult ↦ ?_) h
  obtain ⟨_, -, hrest⟩ := Py.of_bind (Py.always_eq_ok_iff.mp hresult)
  obtain ⟨_, -, hpair⟩ := Py.of_bind hrest
  exact congrArg Prod.fst (Except.ok.inj hpair)

theorem nodup_sortedGroups (memories : List (String × ρ)) :
    ((sortedGroups Prod.fst memories).map Prod.fst).Nodup :=
  ((sortBy_perm _ _).map _).nodup_iff.mpr (nodup_map_fst_group _ _)

/-- A certified answer stays the only most common one when the bounded origins change. -/
theorem certified_stable (setting : Setting ρ) (identities context : List String) (highConsequence : Bool)
    (poisonedOrigins maxCalls bound : ℤ) (calls margin : ℕ) (winner : String)
    (h : aggregate setting identities highConsequence poisonedOrigins maxCalls context =
      .ok (.counted (some winner) calls margin bound)) :
    ∃ first, originAnswers setting identities context = .ok first ∧ ∀ (second : List (String × String))
      (changed : Finset String), (second.map Prod.fst).Nodup → (changed.card : ℤ) ≤ bound →
      (∀ origin ∉ changed, second.lookup origin = first.lookup origin) →
      ∀ other ≠ winner, votes second other < votes second winner := by
  unfold aggregate at h
  obtain ⟨_, -, h⟩ := Py.of_bind h
  obtain ⟨_, -, h⟩ := Py.of_bind h
  obtain ⟨_, -, h⟩ := Py.of_bind h
  split at h
  · cases h
  obtain ⟨memories, hmemories, h⟩ := Py.of_bind h
  dsimp only at h
  split at h
  · cases h
  obtain ⟨first, hfirst, h⟩ := Py.of_bind h
  refine ⟨first, by rw [originAnswers, hmemories, Py.bind_ok, hfirst], ?_⟩
  have hnodup := nodup_ask (nodup_sortedGroups memories) hfirst
  intro second changed hsecond hcard hsame other hother
  have htally := Except.ok.inj h
  rw [tally] at htally
  obtain ⟨hanswer, -, -, rfl⟩ := Outcome.counted.inj htally
  split_ifs at hanswer with hcertified
  obtain ⟨htop, hrunner⟩ := head_mostCommon hanswer
  have hgain := votes_le hnodup hsecond hsame other
  have hlose := votes_le hsecond hnodup (fun origin horigin ↦ (hsame origin horigin).symm) winner
  have hless := hrunner other hother
  have hmargin := hcertified.2
  rw [← htop] at hmargin
  unfold votes at hgain hlose ⊢
  omega

namespace Sample

/-- Three memories with one origin each, and the same answer for all of them. -/
def setting : Setting String where
  admitted _ _ := [("a", "warm"), ("b", "warm"), ("c", "warm")]
  rootOrigins identity := [identity]
  label _ statement := .ok statement
  answer _ := .ok "yes"

end Sample

theorem certified_stable_three :
    ∃ first, originAnswers Sample.setting ["a", "b", "c"] [] = .ok first ∧ ∀ (second : List (String × String))
      (changed : Finset String), (second.map Prod.fst).Nodup → (changed.card : ℤ) ≤ 1 →
      (∀ origin ∉ changed, second.lookup origin = first.lookup origin) →
      ∀ other ≠ "yes", votes second other < votes second "yes" :=
  certified_stable Sample.setting ["a", "b", "c"] [] true 1 8 1 3 3 "yes" (by decide +kernel)

end UniMem.MemoryIfc
