import Mathlib

/-!
# Everything reachable, by a worklist

The worklist takes a node from the top of a stack, skips it when it has been seen, and otherwise pushes its
successors. It ends with exactly the nodes that can be reached.
-/

namespace UniMem.Library.Worklist

variable {α : Type} [DecidableEq α]

/-- The successors of a node. -/
def successors (table : List (α × List α)) (node : α) : List α := (table.lookup node).getD []

/-- The nodes of the table that have not been seen. -/
def unseen (table : List (α × List α)) (seen : List α) : ℕ :=
  (table.map Prod.fst).countP fun node ↦ node ∉ seen

variable {node : α} {seen pending rest : List α}

theorem successors_eq_nil {table : List (α × List α)} (h : node ∉ table.map Prod.fst) :
    successors table node = [] := by
  have hlookup : table.lookup node = none := by
    rw [List.lookup_eq_none_iff]
    intro entry hentry
    rw [bne_iff_ne]
    rintro rfl
    exact h (List.mem_map.mpr ⟨entry, hentry, rfl⟩)
  rw [successors, hlookup, Option.getD_none]

theorem successors_map {names : List α} {next : α → List α} (h : ∀ node, node ∉ names → next node = [])
    (node : α) : successors (names.map fun name ↦ (name, next name)) node = next node := by
  have hlookup : (names.map fun name ↦ (name, next name)).lookup node =
      if node ∈ names then some (next node) else none := by
    clear h
    induction names with
    | nil => rfl
    | cons name names ih =>
      rw [List.map_cons, List.lookup_cons]
      by_cases hname : node = name
      · simp [hname]
      · rw [beq_eq_false_iff_ne.mpr hname, ih]
        simp [hname]
  rw [successors, hlookup]
  split_ifs with hnode
  · rw [Option.getD_some]
  · rw [Option.getD_none, h node hnode]

theorem unseen_cons_le (table : List (α × List α)) (seen : List α) (node : α) :
    unseen table (node :: seen) ≤ unseen table seen := by
  apply List.countP_mono_left
  intro other _ hother
  rw [decide_eq_true_eq] at hother ⊢
  exact fun hmem ↦ hother (List.mem_cons_of_mem _ hmem)

theorem unseen_cons_lt {table : List (α × List α)} (hnode : node ∈ table.map Prod.fst) (hseen : node ∉ seen) :
    unseen table (node :: seen) < unseen table seen := by
  unfold unseen
  obtain ⟨before, after, hsplit⟩ := List.append_of_mem hnode
  rw [hsplit, List.countP_append, List.countP_append, List.countP_cons, List.countP_cons]
  have hbefore : before.countP (fun other ↦ decide (other ∉ node :: seen)) ≤
      before.countP fun other ↦ decide (other ∉ seen) :=
    List.countP_mono_left fun other _ hother ↦ by simp_all
  have hafter : after.countP (fun other ↦ decide (other ∉ node :: seen)) ≤
      after.countP fun other ↦ decide (other ∉ seen) :=
    List.countP_mono_left fun other _ hother ↦ by simp_all
  simp only [List.mem_cons, true_or, not_true_eq_false, decide_false, Bool.false_eq_true, if_false,
    hseen, not_false_eq_true, decide_true, if_true]
  simp only [List.mem_cons] at hbefore hafter
  omega

/-- The worklist: the nodes on the stack and those seen so far. -/
def reach (table : List (α × List α)) : List α → List α → List α
  | [], seen => seen
  | node :: pending, seen =>
    if node ∈ seen then reach table pending seen
    else reach table ((successors table node).reverse ++ pending) (node :: seen)
termination_by pending seen => (unseen table seen, pending.length)
decreasing_by
  · exact Prod.Lex.right _ (Nat.lt_succ_self _)
  · rename_i hseen
    by_cases hnode : node ∈ table.map Prod.fst
    · exact Prod.Lex.left _ _ (unseen_cons_lt hnode hseen)
    · rw [successors_eq_nil hnode, List.reverse_nil, List.nil_append]
      rcases (unseen_cons_le table seen node).lt_or_eq with hlt | heq
      · exact Prod.Lex.left _ _ hlt
      · rw [heq]
        exact Prod.Lex.right _ (Nat.lt_succ_self _)

theorem reach_congr {table other : List (α × List α)}
    (h : ∀ node, successors table node = successors other node) (pending seen : List α) :
    reach table pending seen = reach other pending seen := by
  induction pending, seen using reach.induct table with
  | case1 seen => rw [reach, reach]
  | case2 node pending seen hseen ih => rw [reach, reach, if_pos hseen, if_pos hseen, ih]
  | case3 node pending seen hseen ih =>
    rw [reach, if_neg hseen, ih, h node, reach.eq_def other (node :: pending)]
    simp only [if_neg hseen]
/-- A stack without some nodes that have been seen. -/
inductive Trimmed (seen : List α) : List α → List α → Prop
  | nil : Trimmed seen [] []
  | keep (node : α) {pending rest : List α} (h : Trimmed seen pending rest) :
      Trimmed seen (node :: pending) (node :: rest)
  | skip {node : α} (hnode : node ∈ seen) {pending rest : List α} (h : Trimmed seen pending rest) :
      Trimmed seen (node :: pending) rest

omit [DecidableEq α] in
theorem Trimmed.refl (seen pending : List α) : Trimmed seen pending pending := by
  induction pending with
  | nil => exact .nil
  | cons node pending ih => exact .keep node ih

omit [DecidableEq α] in
theorem Trimmed.mono {more : List α} (h : Trimmed seen pending rest) (hmore : seen ⊆ more) :
    Trimmed more pending rest := by
  induction h with
  | nil => exact .nil
  | keep node _ ih => exact .keep node ih
  | skip hnode _ ih => exact .skip (hmore hnode) ih

omit [DecidableEq α] in
theorem Trimmed.append {seen first second pending rest : List α} (hfirst : Trimmed seen first second)
    (h : Trimmed seen pending rest) : Trimmed seen (first ++ pending) (second ++ rest) := by
  induction hfirst with
  | nil => exact h
  | keep node _ ih => exact .keep node ih
  | skip hnode _ ih => exact .skip hnode ih

theorem trimmed_filter (seen nodes : List α) : Trimmed seen nodes (nodes.filter (· ∉ seen)) := by
  induction nodes with
  | nil => exact .nil
  | cons node nodes ih =>
    by_cases hnode : node ∈ seen
    · rw [List.filter_cons_of_neg (by simpa using hnode)]
      exact .skip hnode ih
    · rw [List.filter_cons_of_pos (by simpa using hnode)]
      exact .keep node ih

theorem reach_trimmed {table : List (α × List α)} (h : Trimmed seen pending rest) :
    reach table rest seen = reach table pending seen := by
  induction pending, seen using reach.induct table generalizing rest with
  | case1 seen =>
    cases h
    rfl
  | case2 node pending seen hseen ih =>
    rw [reach.eq_def table (node :: pending)]
    simp only [if_pos hseen]
    cases h with
    | keep _ h =>
      rw [reach, if_pos hseen]
      exact ih h
    | skip _ h => exact ih h
  | case3 node pending seen hseen ih =>
    rw [reach.eq_def table (node :: pending)]
    simp only [if_neg hseen]
    cases h with
    | keep _ h =>
      rw [reach, if_neg hseen]
      exact ih ((Trimmed.refl _ _).append (h.mono (List.subset_cons_self node seen)))
    | skip hnode _ => exact absurd hnode hseen

variable (table : List (α × List α))

/-- One node is a successor of the other. -/
def Step (node next : α) : Prop := next ∈ successors table node

theorem subset_reach (pending seen : List α) : seen ⊆ reach table pending seen := by
  induction pending, seen using reach.induct table with
  | case1 seen =>
    rw [reach]
    exact List.Subset.refl _
  | case2 node pending seen hseen ih =>
    rw [reach, if_pos hseen]
    exact ih
  | case3 node pending seen hseen ih =>
    rw [reach, if_neg hseen]
    exact fun other hother ↦ ih (List.mem_cons_of_mem _ hother)

theorem pending_subset_reach (pending seen : List α) : pending ⊆ reach table pending seen := by
  induction pending, seen using reach.induct table with
  | case1 seen => exact List.nil_subset _
  | case2 node pending seen hseen ih =>
    rw [reach, if_pos hseen]
    exact List.cons_subset.mpr ⟨subset_reach table _ _ hseen, ih⟩
  | case3 node pending seen hseen ih =>
    rw [reach, if_neg hseen]
    refine List.cons_subset.mpr ⟨subset_reach table _ _ List.mem_cons_self, ?_⟩
    exact fun other hother ↦ ih (List.mem_append_right _ hother)

theorem mem_reach (h : node ∈ reach table pending seen) :
    node ∈ seen ∨ ∃ start ∈ pending, Relation.ReflTransGen (Step table) start node := by
  induction pending, seen using reach.induct table with
  | case1 seen =>
    rw [reach] at h
    exact Or.inl h
  | case2 first pending seen hseen ih =>
    rw [reach, if_pos hseen] at h
    refine (ih h).imp id ?_
    rintro ⟨start, hstart, hpath⟩
    exact ⟨start, List.mem_cons_of_mem _ hstart, hpath⟩
  | case3 first pending seen hseen ih =>
    rw [reach, if_neg hseen] at h
    rcases ih h with hmem | ⟨start, hstart, hpath⟩
    · rcases List.mem_cons.mp hmem with rfl | hmem
      · exact Or.inr ⟨node, List.mem_cons_self, Relation.ReflTransGen.refl⟩
      · exact Or.inl hmem
    · rcases List.mem_append.mp hstart with hnext | hstart
      · exact Or.inr ⟨first, List.mem_cons_self, Relation.ReflTransGen.head (List.mem_reverse.mp hnext) hpath⟩
      · exact Or.inr ⟨start, List.mem_cons_of_mem _ hstart, hpath⟩

/-- The invariant of the loop: successors of seen nodes are seen or on the stack. -/
def Pushed (pending seen : List α) : Prop :=
  ∀ node ∈ seen, ∀ next, Step table node next → next ∈ seen ∨ next ∈ pending

theorem reach_closed (h : Pushed table pending seen) {next : α} (hnode : node ∈ reach table pending seen)
    (hstep : Step table node next) :
    next ∈ reach table pending seen := by
  induction pending, seen using reach.induct table with
  | case1 seen =>
    rw [reach] at hnode ⊢
    exact (h node hnode next hstep).resolve_right List.not_mem_nil
  | case2 first pending seen hseen ih =>
    rw [reach, if_pos hseen] at hnode ⊢
    refine ih ?_ hnode
    intro other hother after hafter
    rcases h other hother after hafter with hmem | hmem
    · exact Or.inl hmem
    · rcases List.mem_cons.mp hmem with rfl | hmem
      · exact Or.inl hseen
      · exact Or.inr hmem
  | case3 first pending seen hseen ih =>
    rw [reach, if_neg hseen] at hnode ⊢
    refine ih ?_ hnode
    intro other hother after hafter
    rcases List.mem_cons.mp hother with rfl | hother
    · exact Or.inr (List.mem_append_left _ (List.mem_reverse.mpr hafter))
    · rcases h other hother after hafter with hmem | hmem
      · exact Or.inl (List.mem_cons_of_mem _ hmem)
      · rcases List.mem_cons.mp hmem with rfl | hmem
        · exact Or.inl List.mem_cons_self
        · exact Or.inr (List.mem_append_right _ hmem)

/-- Everything that can be reached from a node in at least one step. -/
def descendants (node : α) : List α := reach table (successors table node).reverse []

theorem mem_descendants_iff (node other : α) :
    other ∈ descendants table node ↔ Relation.TransGen (Step table) node other := by
  constructor
  · intro h
    rcases mem_reach table h with hnil | ⟨start, hstart, hpath⟩
    · exact absurd hnil List.not_mem_nil
    · exact Relation.TransGen.head' (List.mem_reverse.mp hstart) hpath
  · intro h
    induction h with
    | single hstep => exact pending_subset_reach table _ _ (List.mem_reverse.mpr hstep)
    | tail _ hstep ih =>
      refine reach_closed table ?_ ih hstep
      exact fun seen hseen ↦ absurd hseen List.not_mem_nil

end UniMem.Library.Worklist
