import Mathlib

/-!
# Operations that may be interrupted

An operation plans a list of effects and carries them out one after another. A crash leaves the state after
some of them.
-/

namespace UniMem.Library

variable {σ ε : Type}

/-- The state after some effects. -/
def execute (apply : σ → ε → σ) (state : σ) (effects : List ε) : σ := effects.foldl apply state

/-- The state after the first effects of a plan. -/
def interrupt (apply : σ → ε → σ) (state : σ) (plan : List ε) (steps : ℕ) : σ :=
  execute apply state (plan.take steps)

variable {apply : σ → ε → σ} {state : σ} {plan : List ε}

@[simp]
theorem execute_nil : execute apply state [] = state := rfl

@[simp]
theorem execute_cons (effect : ε) :
    execute apply state (effect :: plan) = execute apply (apply state effect) plan := rfl

theorem interrupt_of_length_le {steps : ℕ} (h : plan.length ≤ steps) :
    interrupt apply state plan steps = execute apply state plan := by
  rw [interrupt, List.take_of_length_le h]

theorem interrupt_invariant {invariant : σ → Prop}
    (heffect : ∀ state, ∀ effect ∈ plan, invariant state → invariant (apply state effect))
    (h : invariant state) (steps : ℕ) : invariant (interrupt apply state plan steps) := by
  unfold interrupt
  induction plan generalizing state steps with
  | nil =>
    rw [List.take_nil]
    exact h
  | cons effect plan ih =>
    cases steps with
    | zero => exact h
    | succ steps =>
      rw [List.take_succ_cons, execute_cons]
      apply ih
      · exact fun state other hmem ↦ heffect state other (List.mem_cons_of_mem _ hmem)
      · exact heffect state effect List.mem_cons_self h

/-- The state after a plan up to its first error, and that error. -/
def attempt {δ : Type} (apply : σ → ε → Except δ σ) : σ → List ε → σ × Option δ
  | state, [] => (state, none)
  | state, effect :: plan =>
    match apply state effect with
    | .ok next => attempt apply next plan
    | .error error => (state, some error)

section Fallible

variable {δ : Type} {apply : σ → ε → Except δ σ} {effect : ε} {next : σ}

@[simp]
theorem attempt_nil : attempt apply state [] = (state, none) := rfl

theorem attempt_cons_of_ok (h : apply state effect = .ok next) :
    attempt apply state (effect :: plan) = attempt apply next plan := by
  rw [attempt, h]

theorem attempt_cons_of_error {error : δ} (h : apply state effect = .error error) :
    attempt apply state (effect :: plan) = (state, some error) := by
  rw [attempt, h]

theorem attempt_append_of_none {others : List ε} (h : attempt apply state plan = (next, none)) :
    attempt apply state (plan ++ others) = attempt apply next others := by
  induction plan generalizing state with
  | nil =>
    cases h
    rfl
  | cons effect plan ih =>
    cases heffect : apply state effect with
    | error error =>
      rw [attempt_cons_of_error heffect] at h
      cases h
    | ok middle =>
      rw [attempt_cons_of_ok heffect] at h
      rw [List.cons_append, attempt_cons_of_ok heffect]
      exact ih h

theorem attempt_append_of_some {others : List ε} {error : δ} (h : attempt apply state plan = (next, some error)) :
    attempt apply state (plan ++ others) = (next, some error) := by
  induction plan generalizing state with
  | nil => cases h
  | cons effect plan ih =>
    cases heffect : apply state effect with
    | error raised =>
      rw [attempt_cons_of_error heffect] at h
      rw [List.cons_append, attempt_cons_of_error heffect]
      exact h
    | ok middle =>
      rw [attempt_cons_of_ok heffect] at h
      rw [List.cons_append, attempt_cons_of_ok heffect]
      exact ih h

theorem exists_attempt {perform : σ → ε → σ} (h : ∀ state, ∀ effect ∈ plan, ∀ next, apply state effect = .ok next →
      next = perform state effect) (state : σ) :
    ∃ steps ≤ plan.length, (attempt apply state plan).1 = interrupt perform state plan steps ∧
      ((attempt apply state plan).2 = none → steps = plan.length) := by
  induction plan generalizing state with
  | nil => exact ⟨0, le_rfl, rfl, fun _ ↦ rfl⟩
  | cons effect plan ih =>
    cases heffect : apply state effect with
    | error error =>
      refine ⟨0, Nat.zero_le _, ?_, ?_⟩
      · rw [attempt_cons_of_error heffect]
        rfl
      · rw [attempt_cons_of_error heffect]
        simp
    | ok middle =>
      obtain rfl := h state effect List.mem_cons_self middle heffect
      obtain ⟨steps, hsteps, hstate, hnone⟩ :=
        ih (fun state other hmem ↦ h state other (List.mem_cons_of_mem _ hmem)) (perform state effect)
      rw [attempt_cons_of_ok heffect]
      exact ⟨steps + 1, Nat.succ_le_succ hsteps, hstate, fun hall ↦ congrArg Nat.succ (hnone hall)⟩

/-- Every effect that is carried out leaves a state with a property. -/
def Safe (apply : σ → ε → Except δ σ) (property : σ → Prop) : σ → List ε → Prop
  | _, [] => True
  | state, effect :: plan =>
    ∀ next, apply state effect = .ok next → property next ∧ Safe apply property next plan

variable {property : σ → Prop}

theorem Safe.attempt_take (h : Safe apply property state plan) (hstate : property state) (steps : ℕ) :
    property (attempt apply state (plan.take steps)).1 := by
  induction plan generalizing state steps with
  | nil =>
    rw [List.take_nil]
    exact hstate
  | cons effect plan ih =>
    cases steps with
    | zero => exact hstate
    | succ steps =>
      rw [List.take_succ_cons]
      cases heffect : apply state effect with
      | error error =>
        rw [attempt_cons_of_error heffect]
        exact hstate
      | ok next =>
        rw [attempt_cons_of_ok heffect]
        obtain ⟨hnext, hplan⟩ := h next heffect
        exact ih hplan hnext steps

theorem Safe.of_attempt {error : Option δ} (h : Safe apply property state plan) (hstate : property state)
    (hattempt : attempt apply state plan = (next, error)) : property next := by
  have hall := h.attempt_take hstate plan.length
  rwa [List.take_length, hattempt] at hall

theorem Safe.append {others : List ε} (h : Safe apply property state plan)
    (hothers : ∀ middle, attempt apply state plan = (middle, none) → Safe apply property middle others) :
    Safe apply property state (plan ++ others) := by
  induction plan generalizing state with
  | nil => exact hothers state rfl
  | cons effect plan ih =>
    intro next hnext
    obtain ⟨hproperty, hplan⟩ := h next hnext
    refine ⟨hproperty, ih hplan fun middle hmiddle ↦ hothers middle ?_⟩
    rw [attempt_cons_of_ok hnext]
    exact hmiddle

theorem safe_of_guard {guard : σ → Prop} (hguard : guard state) (hstate : property state)
    (hstep : ∀ state, ∀ effect ∈ plan, ∀ next, guard state → property state →
      apply state effect = .ok next → guard next ∧ property next) :
    Safe apply property state plan := by
  induction plan generalizing state with
  | nil => trivial
  | cons effect plan ih =>
    intro next hnext
    obtain ⟨hguard', hnext'⟩ := hstep state effect List.mem_cons_self next hguard hstate hnext
    exact ⟨hnext', ih hguard' hnext' fun state other hother ↦
      hstep state other (List.mem_cons_of_mem _ hother)⟩

theorem safe_map {α : Type*} {make : α → ε} {items : List α} (guard : σ → Prop) (hguard : guard state)
    (hstate : property state) (hstep : ∀ state, ∀ item ∈ items, ∀ next, guard state → property state →
      apply state (make item) = .ok next → guard next ∧ property next) :
    Safe apply property state (items.map make) := by
  refine safe_of_guard hguard hstate fun state effect heffect ↦ ?_
  obtain ⟨item, hitem, rfl⟩ := List.mem_map.mp heffect
  exact hstep state item hitem

theorem attempt_eq_none {guard : σ → Prop} (hguard : guard state)
    (hstep : ∀ state, ∀ effect ∈ plan, guard state → ∃ next, apply state effect = .ok next ∧ guard next) :
    ∃ final, attempt apply state plan = (final, none) ∧ guard final := by
  induction plan generalizing state with
  | nil => exact ⟨state, rfl, hguard⟩
  | cons effect plan ih =>
    obtain ⟨next, hnext, hguard'⟩ := hstep state effect List.mem_cons_self hguard
    rw [attempt_cons_of_ok hnext]
    exact ih hguard' fun state other hother ↦ hstep state other (List.mem_cons_of_mem _ hother)

end Fallible

end UniMem.Library
