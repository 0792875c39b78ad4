import Mathlib

/-!
# Runtime conventions shared by the modelled Python modules

A call that may raise is a computation in `Except PyError`. The exception class is kept because
callers catch by class, and the message is kept because it is part of what the source returns.
-/

namespace UniMem

/-- The exception classes that the modelled functions raise, with their messages. -/
inductive PyError where
  | valueError (message : String)
  | permissionError (message : String)
  | keyError (message : String)
  | indexError (message : String)
  | typeError (message : String)
  | overflowError (message : String)
  | attributeError (message : String)
  /-- `team_isolation.StaleGeneration`, a `ValueError`. -/
  | staleGeneration (reason : String)
  /-- `jobs.JobError`. -/
  | jobError (message : String)
  /-- `jobs.LeaseLost`, a `JobError`. -/
  | leaseLost (message : String)
  /-- `sqlite3.IntegrityError`. -/
  | integrityError (message : String)
  /-- `retention.RetentionError`. -/
  | retentionError (message : String)
  /-- `retention.StalePlanError`, a `RetentionError`. -/
  | stalePlanError (message : String)
  /-- `abuse.TraceRejected`, a `ValueError`. -/
  | traceRejected (message : String)
  | rateLimited (message : String)
  | entitlementExceeded (message : String)
  /-- `crud.IdempotencyKeyConflict`, a `ValueError`. -/
  | idempotencyKeyConflict (message : String)
  /-- `transparency.TransparencyIntegrityError`, a `ValueError`. -/
  | transparencyIntegrityError (message : String)
  /-- `sqlalchemy.exc.NoResultFound`. -/
  | noResultFound (message : String)
  /-- `ontology.OntologyError`, a `ValueError`. -/
  | ontologyError (message : String)
  | timeoutError (message : String)
  | osError (message : String)
  | runtimeError (message : String)
  /-- `struct.error`. -/
  | structError (message : String)
  | fileNotFoundError (message : String)
  | stopIteration
  deriving DecidableEq, Repr

/-- A Python call that returns a value or raises. -/
abbrev Py := Except PyError

namespace Py

/-- `if not condition: raise error`. -/
def require (condition : Bool) (error : PyError) : Py Unit :=
  if condition then .ok () else .error error

variable {α β : Type}

@[simp]
theorem bind_ok (value : α) (next : α → Py β) : (Except.ok value : Py α) >>= next = next value :=
  rfl

@[simp]
theorem bind_error (error : PyError) (next : α → Py β) : (Except.error error : Py α) >>= next = .error error := rfl

@[simp]
theorem map_ok (value : α) (next : α → β) : next <$> (Except.ok value : Py α) = .ok (next value) :=
  rfl

@[simp]
theorem map_error (error : PyError) (next : α → β) : next <$> (Except.error error : Py α) = .error error := rfl

@[simp]
theorem pure_eq_ok (value : α) : (pure value : Py α) = .ok value := rfl

@[simp]
theorem throw_eq_error (error : PyError) : (throw error : Py α) = .error error := rfl

/-- The error of a call that raises. -/
def raised : Py α → Option PyError
  | .ok _ => none
  | .error error => some error

variable {call first : Py α} {error : PyError} {next : α → Py β} {value : β} {condition : Bool}

theorem raised_eq_some_iff : raised call = some error ↔ call = .error error := by
  cases call <;> simp [raised]

theorem bind_eq_ok_iff :
    first >>= next = .ok value ↔ ∃ middle, first = .ok middle ∧ next middle = .ok value := by
  cases first with
  | error error => simp
  | ok middle => simp

theorem of_bind (h : first >>= next = .ok value) :
    ∃ middle, first = .ok middle ∧ next middle = .ok value :=
  bind_eq_ok_iff.mp h

theorem of_rest (h : first >>= next = .ok value) :
    ∃ middle, next middle = .ok value :=
  (of_bind h).imp fun _ ↦ And.right

theorem map_eq_ok_iff {change : α → β} :
    change <$> call = .ok value ↔ ∃ middle, call = .ok middle ∧ change middle = value := by
  cases call with
  | error error => simp
  | ok middle => simp

theorem bind_eq_error_iff : first >>= next = .error error ↔
      first = .error error ∨ ∃ middle, first = .ok middle ∧ next middle = .error error := by
  cases first with
  | error error => simp
  | ok middle => simp

@[simp]
theorem require_eq_error_iff {other : PyError} :
    require condition error = .error other ↔ condition = false ∧ error = other := by
  cases condition <;> simp [require]

@[simp]
theorem require_eq_ok_iff {result : Unit} :
    require condition error = .ok result ↔ condition = true := by
  cases condition <;> simp [require]

@[simp]
theorem require_true (error : PyError) : require true error = .ok () := rfl

@[simp]
theorem require_false (error : PyError) : require false error = .error error := rfl

end Py

/-- `int.bit_length` on a nonnegative integer. -/
def bitLength (value : ℕ) : ℕ := if value = 0 then 0 else Nat.log2 value + 1

end UniMem
