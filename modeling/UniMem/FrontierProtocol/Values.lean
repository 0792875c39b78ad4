import UniMem.Python

/-!
# Bounds on scalars in `frontier_protocol`

The limits of the module and the two checks, `count` and `text`, that almost every other module
calls on the integers and the strings it receives.
-/

namespace UniMem.FrontierProtocol

/-- `MAX_BYTES`. -/
def maxBytes : ℕ := 1_048_576

/-- `MAX_ROWS`. -/
def maxRows : ℕ := 100_000

/-- `count`: an integer between two inclusive bounds. -/
def count (value low high : ℤ) (label : String) : Py ℤ :=
  if low ≤ value ∧ value ≤ high then .ok value
  else .error (.valueError s!"{label} must be an integer in [{low}, {high}]")

@[simp]
theorem count_eq_ok_iff {value low high result : ℤ} {label : String} :
    count value low high label = .ok result ↔ (low ≤ value ∧ value ≤ high) ∧ value = result := by
  unfold count
  split <;> simp_all

theorem count_of_mem {value low high : ℤ} (label : String) (hlow : low ≤ value)
    (hhigh : value ≤ high) : count value low high label = .ok value := if_pos ⟨hlow, hhigh⟩

/-- `text`: a nonempty string without NUL that encodes to at most `maximum` bytes. -/
def text (value label : String) (maximum : ℕ) : Py String :=
  if value.isEmpty ∨ maximum < value.length ∨ maximum < value.utf8ByteSize ∨
      '\x00' ∈ value.toList then
    .error (.valueError s!"invalid {label} (1..{maximum} bytes)")
  else .ok value

@[simp]
theorem text_eq_ok_iff {value result label : String} {maximum : ℕ} :
    text value label maximum = .ok result ↔ (¬(value.isEmpty ∨ maximum < value.length ∨ maximum < value.utf8ByteSize ∨
        '\x00' ∈ value.toList)) ∧ value = result := by
  unfold text
  split <;> simp_all

end UniMem.FrontierProtocol
