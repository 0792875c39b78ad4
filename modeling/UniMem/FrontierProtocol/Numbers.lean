import UniMem.FrontierProtocol.Arguments

/-!
# Checks on numbers

`frontier_protocol.number`: a finite integer or float between two inclusive bounds. The bounds of this
repository are small enough for the integers between them to be floats.
-/

namespace UniMem.FrontierProtocol

open Library

/-- Two inclusive bounds, and how an error writes them. -/
structure Limits where
  low : ℚ
  high : ℚ
  text : String

/-- `number` on a finite number. -/
def number (value : ℚ) (limits : Limits) (label : String) : Py ℚ :=
  if limits.low ≤ value ∧ value ≤ limits.high then .ok value
  else .error (.valueError s!"{label} must be in {limits.text}")

variable {value result : ℚ} {limits : Limits} {label : String}

@[simp]
theorem number_eq_ok_iff :
    number value limits label = .ok result ↔ (limits.low ≤ value ∧ value ≤ limits.high) ∧ value = result := by
  unfold number
  split <;> simp_all

theorem number_of_mem (label : String) (hlow : limits.low ≤ value) (hhigh : value ≤ limits.high) :
    number value limits label = .ok value := if_pos ⟨hlow, hhigh⟩

/-- `number` on a value whose type is not known. -/
def numberArgument (value : Json) (limits : Limits) (label : String) : Py ℚ :=
  match value with
  | .int integer => number integer limits label
  | .float ⟨_, some exact, _⟩ => number exact limits label
  | _ => .error (.valueError s!"{label} must be finite")

theorem mem_of_numberArgument {value : Json} (h : numberArgument value limits label = .ok result) :
    limits.low ≤ result ∧ result ≤ limits.high := by
  unfold numberArgument at h
  split at h
  · obtain ⟨hbounds, rfl⟩ := number_eq_ok_iff.mp h
    exact hbounds
  · obtain ⟨hbounds, rfl⟩ := number_eq_ok_iff.mp h
    exact hbounds
  · cases h

/-- Between -1 and 1. -/
def unitLimits : Limits := ⟨-1, 1, "[-1, 1]"⟩

/-- Between 0 and 1. -/
def shareLimits : Limits := ⟨0, 1, "[0, 1]"⟩

end UniMem.FrontierProtocol
