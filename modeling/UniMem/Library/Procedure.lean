import Mathlib

/-!
# Procedures over a state that may raise

A procedure returns a value or raises, and leaves a state in both cases: what it wrote before it
raised stays written. A sequence of two procedures is taken apart by the way it ends.
-/

namespace UniMem.Library

/-- A computation on a state that returns or raises. -/
def Procedure (σ ε α : Type) := σ → Except ε α × σ

namespace Procedure

variable {σ ε α β : Type}

instance : Monad (Procedure σ ε) where
  pure value := fun state ↦ (.ok value, state)
  bind body next := fun state ↦
    match body state with
    | (.ok value, middle) => next value middle
    | (.error error, middle) => (.error error, middle)

/-- A computation that does not use the state. -/
def lift (body : Except ε α) : Procedure σ ε α := fun state ↦ (body, state)

/-- A function of the state. -/
def read (view : σ → α) : Procedure σ ε α := fun state ↦ (.ok (view state), state)

/-- A change of the state. -/
def update (change : σ → σ) : Procedure σ ε Unit := fun state ↦ (.ok (), change state)

theorem bind_apply (body : Procedure σ ε α) (next : α → Procedure σ ε β) (state : σ) :
    (body >>= next) state =
      match body state with
      | (.ok value, middle) => next value middle
      | (.error error, middle) => (.error error, middle) := rfl

variable {body : Procedure σ ε α} {next : α → Procedure σ ε β} {state final : σ} {value : β} {error : ε}

theorem bind_eq_ok_iff :
    (body >>= next) state = (.ok value, final) ↔ ∃ result middle, body state = (.ok result, middle) ∧
        next result middle = (.ok value, final) := by
  rw [bind_apply]
  cases hbody : body state with
  | mk outcome middle =>
    cases outcome with
    | error error => simp
    | ok result => simp

theorem lift_bind_eq_ok_iff {body : Except ε α} :
    (lift body >>= next) state = (.ok value, final) ↔
      ∃ result, body = .ok result ∧ next result state = (.ok value, final) := by
  rw [bind_apply, lift]
  cases body with
  | error error => simp
  | ok result => simp

theorem lift_ok_bind (result : α) (next : α → Procedure σ ε β) (state : σ) :
    (lift (.ok result) >>= next) state = next result state := rfl

theorem read_bind (view : σ → α) (next : α → Procedure σ ε β) (state : σ) :
    (read view >>= next) state = next (view state) state := rfl

theorem update_bind (change : σ → σ) (next : Unit → Procedure σ ε β) (state : σ) :
    (update change >>= next) state = next () (change state) := rfl

theorem lift_error_ne_ok {value : α} :
    (lift (.error error) : Procedure σ ε α) state ≠ (.ok value, final) := by
  rw [lift]
  simp

theorem bind_eq_error_iff :
    (body >>= next) state = (.error error, final) ↔
      body state = (.error error, final) ∨ ∃ result middle, body state = (.ok result, middle) ∧
        next result middle = (.error error, final) := by
  rw [bind_apply]
  cases hbody : body state with
  | mk outcome middle =>
    cases outcome with
    | error raised => simp
    | ok result => simp

end Procedure

end UniMem.Library
