import Mathlib

/-!
# Cycles and bounded searches in a directed graph

New edges out of one node close a cycle exactly when one of their targets leads back to the node. A search that
gives up after a number of rounds has seen the reachable nodes when it returns.
-/

namespace UniMem.Library

open Relation

variable {α : Type}

/-- No node leads back to itself. -/
def Acyclic (edge : α → α → Prop) : Prop := ∀ node, ¬TransGen edge node node

/-- The edges with new ones from a node to some targets. -/
def AddEdges (edge : α → α → Prop) (node : α) (targets : List α) (first second : α) : Prop :=
  edge first second ∨ first = node ∧ second ∈ targets

section Cycles

variable {edge : α → α → Prop} {node : α} {targets : List α}

theorem reflTransGen_addEdges {first last : α} (h : ReflTransGen (AddEdges edge node targets) first last) :
    ReflTransGen edge first last ∨
      ReflTransGen edge first node ∧ ∃ target ∈ targets, ReflTransGen edge target last := by
  induction h with
  | refl => exact Or.inl .refl
  | tail _ hstep ih =>
    obtain hedge | ⟨rfl, htarget⟩ := hstep
    · obtain hpath | ⟨hfirst, target, htarget, hpath⟩ := ih
      · exact Or.inl (hpath.tail hedge)
      · exact Or.inr ⟨hfirst, target, htarget, hpath.tail hedge⟩
    · obtain hpath | ⟨hfirst, -⟩ := ih
      · exact Or.inr ⟨hpath, _, htarget, .refl⟩
      · exact Or.inr ⟨hfirst, _, htarget, .refl⟩

theorem acyclic_addEdges_iff :
    Acyclic (AddEdges edge node targets) ↔ Acyclic edge ∧ ∀ target ∈ targets, ¬ReflTransGen edge target node := by
  constructor
  · intro h
    constructor
    · intro start hcycle
      exact h start (TransGen.mono (fun _ _ ↦ Or.inl) _ _ hcycle)
    · intro target htarget hpath
      exact h node (.head' (Or.inr ⟨rfl, htarget⟩) (ReflTransGen.mono (fun _ _ ↦ Or.inl) _ _ hpath))
  · rintro ⟨hold, hback⟩ start hcycle
    obtain ⟨next, hstep, hpath⟩ := TransGen.head'_iff.mp hcycle
    obtain hedge | ⟨rfl, htarget⟩ := hstep
    · obtain hpath | ⟨hnode, target, htarget, hpath⟩ := reflTransGen_addEdges hpath
      · exact hold start (.head' hedge hpath)
      · exact hback target htarget (hpath.trans (hnode.head hedge))
    · obtain hpath | ⟨hnode, other, hother, hpath⟩ := reflTransGen_addEdges hpath
      · exact hback next htarget hpath
      · exact hback other hother hpath

end Cycles

section Search

variable [DecidableEq α]

/-- The neighbors of a node that were not seen. -/
def fresh (next : α → List α) (seen : List α) (node : α) : List α :=
  (next node).dedup.filter (· ∉ seen)

/-- The nodes seen when the stack is empty, unless the rounds run out. -/
def search (next : α → List α) : ℕ → List α → List α → Option (List α)
  | 0, _, _ => none
  | _ + 1, seen, [] => some seen
  | rounds + 1, seen, node :: pending =>
    search next rounds (seen ++ fresh next seen node) ((fresh next seen node).reverse ++ pending)

theorem mem_fresh {next : α → List α} {seen : List α} {node other : α} :
    other ∈ fresh next seen node ↔ other ∈ next node ∧ other ∉ seen := by
  rw [fresh, List.mem_filter, List.mem_dedup, decide_eq_true_eq]

variable {next : α → List α} {seen pending found : List α} {rounds : ℕ}

theorem search_closed (h : search next rounds seen pending = some found)
    (hclosed : ∀ node ∈ seen, node ∉ pending → ∀ other ∈ next node, other ∈ seen) :
    (∀ node ∈ seen, node ∈ found) ∧ ∀ node ∈ found, ∀ other ∈ next node, other ∈ found := by
  induction rounds generalizing seen pending with
  | zero => cases h
  | succ rounds ih =>
    cases pending with
    | nil =>
      cases h
      exact ⟨fun _ hnode ↦ hnode, fun node hnode ↦ hclosed node hnode List.not_mem_nil⟩
    | cons top pending =>
      obtain ⟨hkept, hfollowed⟩ := ih h (by
        intro node hnode hpending other hother
        by_cases hseen : other ∈ seen
        · exact List.mem_append_left _ hseen
        · rw [List.mem_append, List.mem_reverse, not_or] at hpending
          have hold := (List.mem_append.mp hnode).resolve_right hpending.1
          apply List.mem_append_right
          by_cases htop : node = top
          · exact mem_fresh.mpr ⟨htop ▸ hother, hseen⟩
          · refine absurd (hclosed node hold ?_ other hother) hseen
            rintro (_ | ⟨_, hmem⟩)
            · exact htop rfl
            · exact hpending.2 hmem)
      exact ⟨fun node hnode ↦ hkept node (List.mem_append_left _ hnode), hfollowed⟩

theorem search_reachable (h : search next rounds seen pending = some found) {start : α}
    (hpending : ∀ node ∈ pending, ReflTransGen (fun first second ↦ second ∈ next first) start node)
    (hseen : ∀ node ∈ seen, ReflTransGen (fun first second ↦ second ∈ next first) start node) :
    ∀ node ∈ found, ReflTransGen (fun first second ↦ second ∈ next first) start node := by
  induction rounds generalizing seen pending with
  | zero => cases h
  | succ rounds ih =>
    cases pending with
    | nil =>
      cases h
      exact hseen
    | cons top pending =>
      have hfresh : ∀ node ∈ fresh next seen top,
          ReflTransGen (fun first second ↦ second ∈ next first) start node := fun node hnode ↦
        (hpending top List.mem_cons_self).tail (mem_fresh.mp hnode).1
      refine ih h ?_ ?_
      · intro node hnode
        obtain hnew | hold := List.mem_append.mp hnode
        · exact hfresh node (List.mem_reverse.mp hnew)
        · exact hpending node (List.mem_cons_of_mem _ hold)
      · intro node hnode
        obtain hold | hnew := List.mem_append.mp hnode
        · exact hseen node hold
        · exact hfresh node hnew

theorem mem_search_iff {start node : α} (h : search next rounds [start] [start] = some found) :
    node ∈ found ↔ ReflTransGen (fun first second ↦ second ∈ next first) start node := by
  constructor
  · apply search_reachable h
    · intro other hother
      rw [List.mem_singleton.mp hother]
    · intro other hother
      rw [List.mem_singleton.mp hother]
  · intro hpath
    obtain ⟨hkept, hfollowed⟩ := search_closed h fun other hother hpending ↦ absurd hother hpending
    induction hpath with
    | refl => exact hkept start List.mem_cons_self
    | tail _ hedge ih => exact hfollowed _ ih _ hedge

end Search

end UniMem.Library
