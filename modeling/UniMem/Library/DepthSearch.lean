import UniMem.Library.Digraph

/-!
# A search with a bound on its depth

A stack holds nodes with the depths at which they were seen, and the search fails when a node at the limit has
neighbors that were not seen. Whether some order fails depends on trails.
-/

namespace UniMem.Library

open Relation

variable {α : Type}

/-- A node that a path from a seed leads to. -/
def Reaches (edge : α → α → Prop) (seed : α → Prop) (node : α) : Prop :=
  ∃ first, seed first ∧ ReflTransGen edge first node

/-- A path from a seed, last node first, each a neighbor of its predecessor only. -/
inductive Trail (edge : α → α → Prop) (seed : α → Prop) : List α → Prop
  | seed {node : α} (start : seed node) : Trail edge seed [node]
  | step {node child : α} {rest : List α} (trail : Trail edge seed (node :: rest)) (next : edge node child)
      (notSeed : ¬seed child) (unseen : ∀ earlier ∈ rest, ¬edge earlier child) :
      Trail edge seed (child :: node :: rest)

section Trails

variable {edge : α → α → Prop} {seed : α → Prop}

theorem Trail.tail {node child : α} {rest : List α} (h : Trail edge seed (child :: node :: rest)) :
    Trail edge seed (node :: rest) := by
  cases h with
  | step trail _ _ _ => exact trail

variable {front rest path : List α}

theorem Trail.suffix {node : α} (h : Trail edge seed (front ++ node :: rest)) :
    Trail edge seed (node :: rest) := by
  induction front with
  | nil => exact h
  | cons first front ih =>
    apply ih
    cases front with
    | nil => exact Trail.tail h
    | cons second front => exact Trail.tail h

theorem Trail.exists_length (h : Trail edge seed path) {length : ℕ} (hpos : 0 < length)
    (hle : length ≤ path.length) : ∃ short, Trail edge seed short ∧ short.length = length := by
  have hsplit := List.take_append_drop (path.length - length) path
  have hlength : (path.drop (path.length - length)).length = length := by
    rw [List.length_drop]
    omega
  cases hdrop : path.drop (path.length - length) with
  | nil =>
    rw [hdrop, List.length_nil] at hlength
    omega
  | cons node rest =>
    rw [hdrop] at hsplit hlength
    rw [← hsplit] at h
    exact ⟨node :: rest, h.suffix, hlength⟩

theorem Trail.not_edge {child node : α} (h : Trail edge seed (front ++ child :: node :: rest)) :
    ∀ later ∈ front, ¬edge node later := by
  induction front with
  | nil => simp
  | cons first front ih =>
    have htail : Trail edge seed (front ++ child :: node :: rest) := by
      cases front with
      | nil => exact Trail.tail h
      | cons second front => exact Trail.tail h
    intro later hlater
    obtain rfl | hlater := List.mem_cons.mp hlater
    · cases front with
      | nil =>
        cases h with
        | step _ _ _ unseen => exact unseen node List.mem_cons_self
      | cons second front =>
        cases h with
        | step _ _ _ unseen =>
          exact unseen node (List.mem_append_right _ (List.mem_cons_of_mem _ List.mem_cons_self))
    · exact ih htail later hlater

theorem Trail.exists_seed (h : Trail edge seed path) :
    ∃ ahead first, path = ahead ++ [first] ∧ seed first ∧ ∀ node ∈ ahead, ¬seed node := by
  induction h with
  | seed start => exact ⟨[], _, rfl, start, by simp⟩
  | step _ _ notSeed _ ih =>
    obtain ⟨ahead, first, heq, hfirst, hahead⟩ := ih
    refine ⟨_ :: ahead, first, by rw [heq, List.cons_append], hfirst, ?_⟩
    rw [List.forall_mem_cons]
    exact ⟨notSeed, hahead⟩

end Trails

/-- The neighbors that a function lists. -/
def Listed (next : α → List α) (first second : α) : Prop := second ∈ next first

variable {next : α → List α} {seeds : List α}

/-- What holds between two rounds. -/
structure Diving (next : α → List α) (seeds seen : List α) (stack : List (α × ℕ)) : Prop where
  nodup : seen.Nodup
  started : ∀ seed ∈ seeds, seed ∈ seen
  reached : ∀ node ∈ seen, Reaches (Listed next) (· ∈ seeds) node
  stacked : ∀ entry ∈ stack, entry.1 ∈ seen
  closed : ∀ node ∈ seen, (∀ entry ∈ stack, entry.1 ≠ node) → ∀ other ∈ next node, other ∈ seen
  trails : ∀ entry ∈ stack, ∃ rest, Trail (Listed next) (· ∈ seeds) (entry.1 :: rest) ∧ rest.length = entry.2 ∧
    ∀ earlier ∈ rest, ∀ other ∈ next earlier, other ∈ seen

variable {arrange : List α → List α} {seen : List α} {stack : List (α × ℕ)} {bound limit rounds : ℕ}

theorem diving_start (harrange : ∀ nodes, (arrange nodes).Perm nodes) (h : seeds.Nodup) :
    Diving next seeds seeds ((arrange seeds).reverse.map fun seed ↦ (seed, 0)) := by
  have hmem : ∀ entry, entry ∈ (arrange seeds).reverse.map (fun seed ↦ (seed, 0)) ↔ entry.1 ∈ seeds ∧ entry.2 =
    0 := by
    rintro ⟨seed, depth⟩
    rw [List.mem_map]
    constructor
    · rintro ⟨other, hother, heq⟩
      obtain ⟨rfl, rfl⟩ := Prod.mk.inj heq
      exact ⟨(harrange _).mem_iff.mp (List.mem_reverse.mp hother), rfl⟩
    · rintro ⟨hseed, rfl⟩
      exact ⟨seed, List.mem_reverse.mpr ((harrange _).mem_iff.mpr hseed), rfl⟩
  refine ⟨h, fun seed hseed ↦ hseed, fun node hnode ↦ ⟨node, hnode, .refl⟩, ?_, ?_, ?_⟩
  · exact fun entry hentry ↦ ((hmem entry).mp hentry).1
  · intro node hnode hunstacked
    exact absurd rfl (hunstacked (node, 0) ((hmem _).mpr ⟨hnode, rfl⟩))
  · intro entry hentry
    obtain ⟨hseed, hdepth⟩ := (hmem entry).mp hentry
    exact ⟨[], .seed hseed, hdepth.symm, by simp⟩

variable {node : α} {depth : ℕ} {found : List α}

theorem Diving.mem_iff (h : Diving next seeds seen []) : node ∈ seen ↔
    Reaches (Listed next) (· ∈ seeds) node := by
  refine ⟨h.reached node, ?_⟩
  rintro ⟨seed, hseed, hpath⟩
  induction hpath with
  | refl => exact h.started seed hseed
  | tail _ hedge ih => exact h.closed _ ih (by simp) _ hedge

variable [DecidableEq α]

/-- Why a search fails. -/
inductive DiveError where
  | crowded
  | deep
  | unfinished
  deriving DecidableEq

/-- The search. It also fails when it has seen more nodes than a bound. -/
def dive (next : α → List α) (arrange : List α → List α) (bound limit : ℕ) :
    ℕ → List α → List (α × ℕ) → Except DiveError (List α)
  | 0, _, _ => .error .unfinished
  | _ + 1, seen, [] => .ok seen
  | rounds + 1, seen, (node, depth) :: stack =>
    if bound < seen.length then .error .crowded
    else if fresh next seen node ≠ [] ∧ limit ≤ depth then .error .deep
    else dive next arrange bound limit rounds (seen ++ fresh next seen node)
      ((arrange (fresh next seen node)).reverse.map (fun child ↦ (child, depth + 1)) ++ stack)

theorem nodup_fresh (node : α) : (fresh next seen node).Nodup := (List.nodup_dedup _).filter _

theorem nodup_append_fresh (h : seen.Nodup) (node : α) : (seen ++ fresh next seen node).Nodup := by
  refine h.append (nodup_fresh node) ?_
  intro other hseen hfresh
  exact (mem_fresh.mp hfresh).2 hseen

theorem Diving.trail_fresh {child : α} (h : Diving next seeds seen ((node, depth) :: stack))
    (hchild : child ∈ fresh next seen node) :
    ∃ rest, Trail (Listed next) (· ∈ seeds) (child :: node :: rest) ∧ rest.length = depth ∧
      ∀ earlier ∈ rest, ∀ other ∈ next earlier, other ∈ seen := by
  obtain ⟨rest, htrail, hlength, hexpanded⟩ := h.trails _ List.mem_cons_self
  obtain ⟨hmem, hunseen⟩ := mem_fresh.mp hchild
  refine ⟨rest, htrail.step hmem ?_ ?_, hlength, hexpanded⟩
  · exact fun hseed ↦ hunseen (h.started child hseed)
  · exact fun earlier hearlier hnext ↦ hunseen (hexpanded earlier hearlier child hnext)

theorem Diving.step (harrange : ∀ nodes, (arrange nodes).Perm nodes)
    (h : Diving next seeds seen ((node, depth) :: stack)) :
    Diving next seeds (seen ++ fresh next seen node)
      ((arrange (fresh next seen node)).reverse.map (fun child ↦ (child, depth + 1)) ++ stack) := by
  have hpushed : ∀ entry, entry ∈ (arrange (fresh next seen node)).reverse.map (fun child ↦ (child, depth + 1)) ↔
      entry.1 ∈ fresh next seen node ∧ entry.2 = depth + 1 := by
    rintro ⟨child, height⟩
    rw [List.mem_map]
    constructor
    · rintro ⟨other, hother, heq⟩
      obtain ⟨rfl, rfl⟩ := Prod.mk.inj heq
      exact ⟨(harrange _).mem_iff.mp (List.mem_reverse.mp hother), rfl⟩
    · rintro ⟨hchild, rfl⟩
      exact ⟨child, List.mem_reverse.mpr ((harrange _).mem_iff.mpr hchild), rfl⟩
  have hnext : ∀ other ∈ next node, other ∈ seen ++ fresh next seen node := by
    intro other hother
    by_cases hseen : other ∈ seen
    · exact List.mem_append_left _ hseen
    · exact List.mem_append_right _ (mem_fresh.mpr ⟨hother, hseen⟩)
  refine ⟨nodup_append_fresh h.nodup node, fun seed hseed ↦ List.mem_append_left _ (h.started seed hseed), ?_, ?_,
    ?_, ?_⟩
  · intro other hother
    obtain hold | hnew := List.mem_append.mp hother
    · exact h.reached other hold
    · obtain ⟨seed, hseed, hpath⟩ := h.reached node (h.stacked _ List.mem_cons_self)
      exact ⟨seed, hseed, hpath.tail (mem_fresh.mp hnew).1⟩
  · intro entry hentry
    obtain hnew | hold := List.mem_append.mp hentry
    · exact List.mem_append_right _ ((hpushed entry).mp hnew).1
    · exact List.mem_append_left _ (h.stacked entry (List.mem_cons_of_mem _ hold))
  · intro other hother hunstacked
    by_cases hnode : other = node
    · exact hnode ▸ hnext
    · obtain hold | hnew := List.mem_append.mp hother
      · intro third hthird
        apply List.mem_append_left
        refine h.closed other hold ?_ third hthird
        rintro entry (_ | ⟨_, hentry⟩)
        · exact fun heq ↦ hnode heq.symm
        · exact hunstacked entry (List.mem_append_right _ hentry)
      · exact absurd rfl (hunstacked (other, depth + 1) (List.mem_append_left _ ((hpushed _).mpr ⟨hnew, rfl⟩)))
  · intro entry hentry
    obtain hnew | hold := List.mem_append.mp hentry
    · obtain ⟨hchild, hdepth⟩ := (hpushed entry).mp hnew
      obtain ⟨rest, htrail, hlength, hexpanded⟩ := h.trail_fresh hchild
      refine ⟨node :: rest, htrail, by rw [List.length_cons, hlength, hdepth], ?_⟩
      intro earlier hearlier other hother
      obtain rfl | hearlier := List.mem_cons.mp hearlier
      · exact hnext other hother
      · exact List.mem_append_left _ (hexpanded earlier hearlier other hother)
    · obtain ⟨rest, htrail, hlength, hexpanded⟩ := h.trails entry (List.mem_cons_of_mem _ hold)
      exact ⟨rest, htrail, hlength, fun earlier hearlier other hother ↦
        List.mem_append_left _ (hexpanded earlier hearlier other hother)⟩

theorem mem_dive_iff (harrange : ∀ nodes, (arrange nodes).Perm nodes) (hdiving : Diving next seeds seen stack)
    (h : dive next arrange bound limit rounds seen stack = .ok found) :
    node ∈ found ↔ Reaches (Listed next) (· ∈ seeds) node := by
  induction rounds generalizing seen stack with
  | zero => cases h
  | succ rounds ih =>
    cases stack with
    | nil =>
      obtain rfl := Except.ok.inj h
      exact hdiving.mem_iff
    | cons entry stack =>
      obtain ⟨top, depth⟩ := entry
      rw [dive] at h
      split_ifs at h with hcrowded hdeep
      exact ih (hdiving.step harrange) h

section Bounded

variable (harrange : ∀ nodes, (arrange nodes).Perm nodes)
  (hbound : ∀ nodes : List α, nodes.Nodup → (∀ node ∈ nodes, Reaches (Listed next) (· ∈ seeds) node) →
    nodes.length ≤ bound)
include harrange hbound

theorem exists_dive_eq_ok (htrail : ∀ path, Trail (Listed next) (· ∈ seeds) path → path.length ≠ limit + 2)
    (hdiving : Diving next seeds seen stack) (hrounds : bound + 1 + stack.length ≤ rounds + seen.length) :
    ∃ found, dive next arrange bound limit rounds seen stack = .ok found := by
  -- Every round takes a node from the stack, and every node that was seen is pushed once.
  induction rounds generalizing seen stack with
  | zero =>
    have hseen := hbound seen hdiving.nodup hdiving.reached
    omega
  | succ rounds ih =>
    cases stack with
    | nil => exact ⟨seen, rfl⟩
    | cons entry stack =>
      obtain ⟨node, depth⟩ := entry
      have hseen := hbound seen hdiving.nodup hdiving.reached
      have hdeep : ¬(fresh next seen node ≠ [] ∧ limit ≤ depth) := by
        rintro ⟨hfresh, hdepth⟩
        obtain ⟨child, hchild⟩ := List.exists_mem_of_ne_nil _ hfresh
        obtain ⟨rest, hlong, hlength, -⟩ := hdiving.trail_fresh hchild
        obtain ⟨short, hshort, heq⟩ := hlong.exists_length (show 0 < limit + 2 by omega) (by
          rw [List.length_cons, List.length_cons, hlength]
          omega)
        exact htrail short hshort heq
      rw [dive, if_neg (by omega), if_neg hdeep]
      apply ih (hdiving.step harrange)
      rw [List.length_append, List.length_map, List.length_reverse, (harrange _).length_eq, List.length_append]
      rw [List.length_cons] at hrounds
      omega

end Bounded

/-- The order that pushes the nodes of a path last. -/
def arrangeAlong (path nodes : List α) : List α := nodes.filter (· ∉ path) ++ nodes.filter (· ∈ path)

theorem arrangeAlong_perm (path nodes : List α) : (arrangeAlong path nodes).Perm nodes := by
  have h := List.filter_append_perm (fun node ↦ decide (node ∉ path)) nodes
  simpa [arrangeAlong] using h

theorem reverse_arrangeAlong {path nodes : List α} (hnodup : nodes.Nodup) (hnode : node ∈ nodes)
    (honly : ∀ other ∈ nodes, other ∈ path ↔ other = node) :
    ∃ rest, (arrangeAlong path nodes).reverse = node :: rest := by
  have hsingle : nodes.filter (· ∈ path) = [node] := by
    have hperm : (nodes.filter (· ∈ path)).Perm [node] := by
      rw [List.perm_ext_iff_of_nodup (hnodup.filter _) (List.nodup_singleton node)]
      intro other
      rw [List.mem_filter, decide_eq_true_eq, List.mem_singleton]
      constructor
      · exact fun h ↦ (honly other h.1).mp h.2
      · rintro rfl
        exact ⟨hnode, (honly other hnode).mpr rfl⟩
    exact List.perm_singleton.mp hperm
  refine ⟨(nodes.filter (· ∉ path)).reverse, ?_⟩
  rw [arrangeAlong, hsingle, List.reverse_append]
  rfl

theorem dive_along {path ahead behind : List α} {node : α} (htrail : Trail (Listed next) (· ∈ seeds) path)
    (hpath : path = ahead ++ node :: behind) (hlength : path.length = limit + 2)
    (hbound : ∀ nodes : List α, nodes.Nodup → (∀ node ∈ nodes, Reaches (Listed next) (· ∈ seeds) node) →
      nodes.length ≤ bound) (hdiving : Diving next seeds seen ((node, behind.length) :: stack))
    (hbehind : ∀ other ∈ behind, other ∈ seen)
    (hseen : ∀ other ∈ seen, other ∈ seeds ∨ ∃ earlier ∈ behind, other ∈ next earlier)
    (hahead : ahead ≠ []) (hrounds : ahead.length ≤ rounds) :
    dive next (arrangeAlong path) bound limit rounds seen ((node, behind.length) :: stack) = .error .deep := by
  induction rounds generalizing ahead behind node seen stack with
  | zero => exact absurd (List.length_eq_zero_iff.mp (Nat.le_zero.mp hrounds)) hahead
  | succ rounds ih =>
    obtain ⟨front, child, rfl⟩ := (List.eq_nil_or_concat ahead).resolve_left hahead
    rw [List.concat_eq_append, List.append_assoc, List.singleton_append] at hpath
    rw [List.concat_eq_append, List.length_append, List.length_singleton] at hrounds
    have hcrowd := hbound seen hdiving.nodup hdiving.reached
    have hnode : node ∈ seen := hdiving.stacked _ List.mem_cons_self
    -- The next node of the trail is the only one that was not seen.
    have hchild : child ∈ fresh next seen node := by
      have hsuffix := (hpath ▸ htrail).suffix
      cases hsuffix with
      | step _ mem notSeed unseen =>
        refine mem_fresh.mpr ⟨mem, fun hmem ↦ ?_⟩
        obtain hseed | ⟨earlier, hearlier, hedge⟩ := hseen child hmem
        · exact notSeed hseed
        · exact unseen earlier hearlier hedge
    have honly : ∀ other ∈ fresh next seen node, other ∈ path ↔ other = child := by
      intro other hother
      obtain ⟨hedge, hunseen⟩ := mem_fresh.mp hother
      rw [hpath, List.mem_append, List.mem_cons, List.mem_cons]
      constructor
      · rintro (hlater | rfl | rfl | hearlier)
        · exact absurd hedge ((hpath ▸ htrail).not_edge other hlater)
        · rfl
        · exact absurd hnode hunseen
        · exact absurd (hbehind other hearlier) hunseen
      · rintro rfl
        exact Or.inr (Or.inl rfl)
    have htotal : path.length = front.length + behind.length + 2 := by
      rw [hpath]
      simp only [List.length_append, List.length_cons]
      omega
    rw [dive, if_neg (by omega)]
    by_cases hdepth : limit ≤ behind.length
    · rw [if_pos ⟨List.ne_nil_of_mem hchild, hdepth⟩]
    · rw [if_neg (by simp [hdepth])]
      obtain ⟨rest, hrest⟩ := reverse_arrangeAlong (nodup_fresh node) hchild honly
      have hstep := hdiving.step (arrangeAlong_perm path)
      rw [hrest, List.map_cons, List.cons_append] at hstep ⊢
      refine @ih _ _ front (node :: behind) child hpath hstep ?_ ?_ ?_ (by omega)
      · intro other hother
        obtain rfl | hother := List.mem_cons.mp hother
        · exact List.mem_append_left _ hnode
        · exact List.mem_append_left _ (hbehind other hother)
      · intro other hother
        obtain hold | hnew := List.mem_append.mp hother
        · obtain hseed | ⟨earlier, hearlier, hedge⟩ := hseen other hold
          · exact Or.inl hseed
          · exact Or.inr ⟨earlier, List.mem_cons_of_mem _ hearlier, hedge⟩
        · exact Or.inr ⟨node, List.mem_cons_self, (mem_fresh.mp hnew).1⟩
      · rintro rfl
        rw [List.length_nil] at htotal
        omega

/-- The search from the seeds. -/
def explore (next : α → List α) (arrange : List α → List α) (bound limit : ℕ) (seeds : List α) :
    Except DiveError (List α) :=
  dive next arrange bound limit (bound + 1) seeds ((arrange seeds).reverse.map fun seed ↦ (seed, 0))

theorem explore_along {path : List α} (htrail : Trail (Listed next) (· ∈ seeds) path)
    (hlength : path.length = limit + 2) (hnodup : seeds.Nodup) (hlimit : limit ≤ bound)
    (hbound : ∀ nodes : List α, nodes.Nodup → (∀ node ∈ nodes, Reaches (Listed next) (· ∈ seeds) node) →
      nodes.length ≤ bound) :
    explore next (arrangeAlong path) bound limit seeds = .error .deep := by
  obtain ⟨ahead, seed, hpath, hseed, hahead⟩ := htrail.exists_seed
  have honly : ∀ other ∈ seeds, other ∈ path ↔ other = seed := by
    intro other hother
    rw [hpath, List.mem_append, List.mem_singleton]
    constructor
    · rintro (hmem | rfl)
      · exact absurd hother (hahead other hmem)
      · rfl
    · exact Or.inr
  obtain ⟨rest, hrest⟩ := reverse_arrangeAlong hnodup hseed honly
  have hstart := @diving_start _ next seeds _ (arrangeAlong_perm path) hnodup
  have hcount : ahead.length = limit + 1 := by
    rw [hpath, List.length_append, List.length_singleton] at hlength
    omega
  unfold explore
  rw [hrest, List.map_cons] at hstart ⊢
  refine @dive_along _ next seeds _ _ _ _ _ _ path ahead [] seed htrail hpath hlength hbound hstart (by simp) ?_ ?_ ?_
  · exact fun other hother ↦ Or.inl hother
  · rintro rfl
    rw [List.length_nil] at hcount
    omega
  · omega

theorem explore_returns_iff (hnodup : seeds.Nodup) (hlimit : limit ≤ bound)
    (hbound : ∀ nodes : List α, nodes.Nodup → (∀ node ∈ nodes, Reaches (Listed next) (· ∈ seeds) node) →
      nodes.length ≤ bound) :
    (∀ arrange : List α → List α, (∀ nodes, (arrange nodes).Perm nodes) →
      ∃ found, explore next arrange bound limit seeds = .ok found) ↔
    ∀ path, Trail (Listed next) (· ∈ seeds) path → path.length ≠ limit + 2 := by
  constructor
  · intro h path htrail hlength
    obtain ⟨found, hfound⟩ := h (arrangeAlong path) (arrangeAlong_perm path)
    rw [explore_along htrail hlength hnodup hlimit hbound] at hfound
    cases hfound
  · intro h arrange harrange
    apply exists_dive_eq_ok harrange hbound h (diving_start harrange hnodup)
    rw [List.length_map, List.length_reverse, (harrange _).length_eq]

theorem mem_explore_iff (harrange : ∀ nodes, (arrange nodes).Perm nodes) (hnodup : seeds.Nodup)
    (h : explore next arrange bound limit seeds = .ok found) :
    node ∈ found ↔ Reaches (Listed next) (· ∈ seeds) node :=
  mem_dive_iff harrange (diving_start harrange hnodup) h

end UniMem.Library
