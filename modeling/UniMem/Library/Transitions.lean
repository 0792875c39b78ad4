import Mathlib

/-!
# Runs of fallible actions

An action on a state returns a new state or raises. What raises leaves the state as it was, so a run
of any actions is total, and what every action that returns preserves holds after every run.
-/

namespace UniMem.Library

variable {σ ε α : Type}

/-- The state after an action. -/
def perform (step : σ → α → Except ε σ) (state : σ) (action : α) : σ :=
  match step state action with
  | .ok next => next
  | .error _ => state

/-- The state after a list of actions. -/
def run (step : σ → α → Except ε σ) (state : σ) (actions : List α) : σ :=
  actions.foldl (perform step) state

variable {step : σ → α → Except ε σ} {state next : σ} {action : α} {actions : List α}

theorem perform_eq_of_ok (h : step state action = .ok next) : perform step state action = next := by
  rw [perform, h]

theorem perform_cases (step : σ → α → Except ε σ) (state : σ) (action : α) :
    perform step state action = state ∨ ∃ next, step state action = .ok next ∧ perform step state action = next := by
  unfold perform
  cases h : step state action with
  | error error => exact Or.inl rfl
  | ok next => exact Or.inr ⟨next, rfl, rfl⟩

@[simp]
theorem run_nil : run step state [] = state := rfl

@[simp]
theorem run_cons : run step state (action :: actions) = run step (perform step state action) actions :=
  rfl

theorem run_append (others : List α) :
    run step state (actions ++ others) = run step (run step state actions) others :=
  List.foldl_append

theorem run_invariant {invariant : σ → Prop}
    (hstep : ∀ state action next, invariant state → step state action = .ok next → invariant next)
    (h : invariant state) (actions : List α) : invariant (run step state actions) := by
  induction actions generalizing state with
  | nil => exact h
  | cons action actions ih =>
    rw [run_cons]
    apply ih
    obtain heq | ⟨next, hnext, heq⟩ := perform_cases step state action
    · rw [heq]
      exact h
    · rw [heq]
      exact hstep state action next h hnext

/-- Every action of a run meets a condition on the state before it. -/
def Along (step : σ → α → Except ε σ) (condition : σ → α → Prop) : σ → List α → Prop
  | _, [] => True
  | state, action :: actions =>
    condition state action ∧ Along step condition (perform step state action) actions

instance decidableAlong {condition : σ → α → Prop} [∀ state action, Decidable (condition state action)] :
    ∀ state actions, Decidable (Along step condition state actions)
  | _, [] => inferInstanceAs (Decidable True)
  | state, action :: actions =>
    haveI : Decidable (Along step condition (perform step state action) actions) := decidableAlong _ actions
    inferInstanceAs (Decidable (condition state action ∧ Along step condition (perform step state action) actions))

variable {condition : σ → α → Prop} {others : List α} {extra : α → Prop}

theorem along_append :
    Along step condition state (actions ++ others) ↔
      Along step condition state actions ∧ Along step condition (run step state actions) others := by
  induction actions generalizing state with
  | nil => simp [Along]
  | cons action actions ih => rw [List.cons_append, Along, Along, ih, run_cons, and_assoc]

theorem along_of_forall (h : ∀ action ∈ actions, extra action) :
    Along step (fun _ action ↦ extra action) state actions := by
  induction actions generalizing state with
  | nil => trivial
  | cons action actions ih =>
    rw [List.forall_mem_cons] at h
    exact ⟨h.1, ih h.2⟩

theorem Along.and_of_forall (h : Along step condition state actions) (hextra : ∀ action ∈ actions, extra action) :
    Along step (fun state action ↦ condition state action ∧ extra action) state actions := by
  induction actions generalizing state with
  | nil => exact h
  | cons action actions ih =>
    rw [List.forall_mem_cons] at hextra
    exact ⟨⟨h.1, hextra.1⟩, ih h.2 hextra.2⟩

theorem run_invariant_along {invariant : σ → Prop} {condition : σ → α → Prop}
    (hstep : ∀ state action next, invariant state → condition state action →
      step state action = .ok next → invariant next)
    (h : invariant state) (halong : Along step condition state actions) :
    invariant (run step state actions) := by
  induction actions generalizing state with
  | nil => exact h
  | cons action actions ih =>
    rw [run_cons]
    refine ih ?_ halong.2
    obtain heq | ⟨next, hnext, heq⟩ := perform_cases step state action
    · rw [heq]
      exact h
    · rw [heq]
      exact hstep state action next h halong.1 hnext

/-! ## Linked records

A run that records each change of its state, with the state before and after it.
-/

/-- The records lead from a state to another. -/
def Linked (source target : α → σ) (first : σ) : List α → σ → Prop
  | [], last => first = last
  | record :: records, last => source record = first ∧ Linked source target (target record) records last

variable {source target : α → σ} {first last : σ} {records : List α}

theorem linked_append :
    Linked source target first (records ++ others) last ↔
      ∃ middle, Linked source target first records middle ∧ Linked source target middle others last := by
  induction records generalizing first with
  | nil => simp [Linked]
  | cons record records ih => simp [Linked, ih, and_assoc]

theorem Linked.exists_established (property : σ → Prop) (h : Linked source target first records last)
    (hfirst : ¬property first) (hlast : property last) :
    ∃ record ∈ records, ¬property (source record) ∧ property (target record) := by
  induction records generalizing first with
  | nil =>
    cases h
    exact absurd hlast hfirst
  | cons record records ih =>
    obtain ⟨rfl, htail⟩ := h
    by_cases hhere : property (target record)
    · exact ⟨record, List.mem_cons_self, hfirst, hhere⟩
    · obtain ⟨found, hmem, hfound⟩ := ih htail hhere
      exact ⟨found, List.mem_cons_of_mem _ hmem, hfound⟩

end UniMem.Library
