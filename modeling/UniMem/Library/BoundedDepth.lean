import Mathlib

/-!
# Properties of everything that is reached within a depth

A node is good within a depth when it is good and its neighbors are good within one level less. This is a
property of the nodes that paths lead to, it bounds the length of every path, and so it excludes cycles.
-/

namespace UniMem.Library

variable {α : Type} {good : α → Prop} {next : α → α → Prop}

/-- A path of some number of edges leads from a node to another one. -/
inductive Steps (next : α → α → Prop) : ℕ → α → α → Prop
  | refl (node : α) : Steps next 0 node node
  | head {levels : ℕ} {first second last : α} (edge : next first second) (rest : Steps next levels second last) :
      Steps next (levels + 1) first last

/-- A node and everything that it leads to is good, and no path goes on past the levels. -/
def Within (good : α → Prop) (next : α → α → Prop) : ℕ → α → Prop
  | 0, _ => False
  | levels + 1, node => good node ∧ ∀ other, next node other → Within good next levels other

variable {first second last node : α} {levels count : ℕ}

theorem Steps.trans {more : ℕ} (h : Steps next levels first second) (h' : Steps next more second last) :
    Steps next (levels + more) first last := by
  induction h with
  | refl _ => rwa [Nat.zero_add]
  | head edge _ ih =>
    rw [Nat.add_right_comm]
    exact .head edge (ih h')

theorem Steps.single (h : next first second) : Steps next 1 first second :=
  .head h (.refl second)

theorem Steps.eq_or_exists (h : Steps next levels first last) :
    last = first ∨ ∃ other, next other last := by
  induction h with
  | refl node => exact .inl rfl
  | @head _ first second last edge _ ih =>
    obtain rfl | hother := ih
    · exact .inr ⟨first, edge⟩
    · exact .inr hother

theorem within_iff :
    Within good next levels node ↔ ∀ count other, Steps next count node other → count < levels ∧ good other := by
  induction levels generalizing node with
  | zero => exact ⟨False.elim, fun h ↦ absurd (h 0 node (.refl node)).1 (lt_irrefl 0)⟩
  | succ levels ih =>
    rw [Within]
    constructor
    · rintro ⟨hgood, hnext⟩ count other hsteps
      cases hsteps with
      | refl _ => exact ⟨Nat.succ_pos levels, hgood⟩
      | head edge rest =>
        obtain ⟨hlt, hother⟩ := ih.mp (hnext _ edge) _ _ rest
        exact ⟨Nat.succ_lt_succ hlt, hother⟩
    · intro h
      refine ⟨(h 0 node (.refl node)).2, fun other hother ↦ ih.mpr fun count last hsteps ↦ ?_⟩
      obtain ⟨hlt, hlast⟩ := h (count + 1) last (.head hother hsteps)
      exact ⟨Nat.succ_lt_succ_iff.mp hlt, hlast⟩

theorem Steps.cycle (h : Steps next levels node node) (times : ℕ) :
    Steps next (times * levels) node node := by
  induction times with
  | zero => rw [Nat.zero_mul]; exact .refl node
  | succ times ih => rw [Nat.succ_mul]; exact ih.trans h

theorem not_within_of_cycle (h : Steps next (count + 1) node node) :
    ¬Within good next levels node := fun hwithin ↦ by
  have hlt := (within_iff.mp hwithin _ _ (h.cycle levels)).1
  exact absurd hlt (not_lt.mpr (Nat.le_mul_of_pos_right levels (Nat.succ_pos count)))

theorem acyclic_of_within {length : ℕ} {other : α} (h : Within good next levels node)
    (hother : Steps next count node other) : ¬Steps next (length + 1) other other := fun hcycle ↦ by
  have hlt := (within_iff.mp h _ _ (hother.trans (hcycle.cycle levels))).1
  have hle : levels ≤ levels * (length + 1) := Nat.le_mul_of_pos_right levels (Nat.succ_pos length)
  omega

/-- A path of at most some number of edges leads from a start to a node. -/
def ReachedWithin (next : α → α → Prop) (start : α → Prop) (levels : ℕ) (node : α) : Prop :=
  ∃ first, start first ∧ ∃ count ≤ levels, Steps next count first node

/-- Whatever the starts lead to at all they lead to within some number of edges. -/
def Saturated (next : α → α → Prop) (start : α → Prop) (levels : ℕ) : Prop :=
  ∀ count node, ReachedWithin next start count node → ReachedWithin next start levels node

variable {start : α → Prop}

theorem reachedWithin_zero_iff : ReachedWithin next start 0 node ↔ start node := by
  constructor
  · rintro ⟨first, hfirst, count, hcount, hsteps⟩
    obtain rfl := Nat.le_zero.mp hcount
    cases hsteps
    exact hfirst
  · exact fun h ↦ ⟨node, h, 0, le_rfl, .refl node⟩

theorem reachedWithin_succ_iff :
    ReachedWithin next start (levels + 1) node ↔ ReachedWithin next (ReachedWithin next start 1) levels node := by
  constructor
  · rintro ⟨first, hfirst, count, hcount, hsteps⟩
    cases hsteps with
    | refl _ => exact ⟨node, ⟨node, hfirst, 0, Nat.zero_le 1, .refl node⟩, 0, Nat.zero_le levels, .refl node⟩
    | head edge rest =>
      exact ⟨_, ⟨first, hfirst, 1, le_rfl, .single edge⟩, _, Nat.le_of_succ_le_succ hcount, rest⟩
  · rintro ⟨middle, ⟨first, hfirst, before, hbefore, hhead⟩, after, hafter, hrest⟩
    exact ⟨first, hfirst, before + after, by omega, hhead.trans hrest⟩

theorem saturated_zero_iff :
    Saturated next start 0 ↔ ∀ first, start first → ∀ second, next first second → start second := by
  constructor
  · exact fun h first hfirst second hnext ↦
      reachedWithin_zero_iff.mp (h 1 second ⟨first, hfirst, 1, le_rfl, .single hnext⟩)
  · rintro hclosed count node ⟨first, hfirst, steps, -, hsteps⟩
    rw [reachedWithin_zero_iff]
    induction hsteps with
    | refl _ => exact hfirst
    | head edge _ ih => exact ih (hclosed _ hfirst _ edge)

theorem saturated_succ_iff :
    Saturated next start (levels + 1) ↔ Saturated next (ReachedWithin next start 1) levels := by
  constructor
  · intro h count node hnode
    exact reachedWithin_succ_iff.mp (h (count + 1) node (reachedWithin_succ_iff.mpr hnode))
  · rintro h count node ⟨first, hfirst, steps, hsteps, hpath⟩
    have hlater : ReachedWithin next start (count + 1) node :=
      ⟨first, hfirst, steps, hsteps.trans (Nat.le_succ _), hpath⟩
    exact reachedWithin_succ_iff.mpr (h count node (reachedWithin_succ_iff.mp hlater))

theorem Saturated.of_zero (h : Saturated next start 0) (levels : ℕ) : Saturated next start levels := by
  intro count node hnode
  obtain ⟨first, hfirst, steps, hsteps, hpath⟩ := h count node hnode
  exact ⟨first, hfirst, steps, hsteps.trans (Nat.zero_le levels), hpath⟩

end UniMem.Library
