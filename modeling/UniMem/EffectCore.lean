import UniMem.ZkEffect.Statements

/-!
# The integer square root of the effect program

`sqrt_ceil` of the Rust crate rounds a square root up, by Newton's iteration from a power of two above the root.
Operations on `u128` have no result when they overflow.
-/

namespace UniMem.EffectCore

/-- The result of an operation on `u128`. -/
def u128 (value : ℕ) : Option ℕ := if value < 2 ^ 128 then some value else none

/-- `value as i128`. -/
def asI128 (value : ℕ) : ℤ := if value < 2 ^ 127 then value else value - 2 ^ 128

/-- The loop of `sqrt_ceil`. -/
def descend (value root : ℕ) : Option ℕ :=
  if root = 0 then none
  else
    match u128 (root + value / root) with
    | none => none
    | some sum => if sum / 2 < root then descend value (sum / 2) else some root
termination_by root

def sqrtCeil (value : ℤ) : Option ℤ :=
  if value = 0 then some 0
  else do
    -- `value as u128`
    let value := (value % 2 ^ 128).toNat
    let start ← u128 (1 <<< ((bitLength value + 1) / 2))
    let root ← descend value start
    let square ← u128 (root * root)
    let result ← u128 (root + if square ≠ value then 1 else 0)
    return asI128 result

theorem u128_of_lt {value : ℕ} (h : value < 2 ^ 128) : u128 value = some value := if_pos h

/-- A step of the iteration stays at the floor of the root or above. -/
theorem lt_sq_step {value root : ℕ} (hroot : root ≠ 0) :
    value < ((root + value / root) / 2 + 1) * ((root + value / root) / 2 + 1) := by
  have hquotient : value < root * (value / root + 1) := Nat.lt_mul_div_succ value (Nat.pos_of_ne_zero hroot)
  have hnext : root + (value / root + 1) ≤ 2 * ((root + value / root) / 2 + 1) := by omega
  have hmean : 4 * root * (value / root + 1) ≤ (root + (value / root + 1)) ^ 2 :=
    four_mul_le_pow_two_add root (value / root + 1)
  have hsquare := Nat.pow_le_pow_left hnext 2
  nlinarith only [hquotient, hmean, hsquare]

/-- The loop ends at the floor of the root, from any start that is not below it. -/
theorem descend_eq {value : ℕ} (hpos : 0 < value) (hvalue : value < 2 ^ 127) (root : ℕ) (hroot : root ≤ 2 ^ 64)
    (habove : value < (root + 1) * (root + 1)) (hne : root ≠ 0) : descend value root = some value.sqrt := by
  induction root using Nat.strong_induction_on with
  | _ root ih =>
    have hquotient : value / root ≤ value := Nat.div_le_self value root
    rw [descend, if_neg hne, u128_of_lt (by omega)]
    by_cases hnext : (root + value / root) / 2 < root
    · simp only [if_pos hnext]
      have hstep := @lt_sq_step value root hne
      refine ih _ hnext (hnext.le.trans hroot) hstep fun hzero ↦ ?_
      rw [hzero] at hstep
      omega
    · simp only [if_neg hnext]
      have hle : root * root ≤ value := by
        rw [← Nat.le_div_iff_mul_le (Nat.pos_of_ne_zero hne)]
        omega
      rw [Nat.eq_sqrt.mpr ⟨hle, habove⟩]

/-- The start is a power of two above the root. -/
theorem start_spec {value : ℕ} (hpos : 0 < value) (hvalue : value < 2 ^ 127) :
    1 <<< ((bitLength value + 1) / 2) ≤ 2 ^ 64 ∧
      value < (1 <<< ((bitLength value + 1) / 2) + 1) * (1 <<< ((bitLength value + 1) / 2) + 1) := by
  have hlog : value.log2 < 127 := (Nat.log2_lt hpos.ne').mpr hvalue
  rw [bitLength, if_neg hpos.ne', Nat.shiftLeft_eq, one_mul]
  constructor
  · exact Nat.pow_le_pow_right (by decide) (by omega)
  · calc
      value < 2 ^ (value.log2 + 1) := Nat.lt_log2_self
      _ ≤ 2 ^ ((value.log2 + 1 + 1) / 2 + (value.log2 + 1 + 1) / 2) := Nat.pow_le_pow_right (by decide) (by omega)
      _ = 2 ^ ((value.log2 + 1 + 1) / 2) * 2 ^ ((value.log2 + 1 + 1) / 2) := pow_add _ _ _
      _ ≤ _ := Nat.mul_le_mul (Nat.le_succ _) (Nat.le_succ _)

/-- A root rounded up is the least one that is not too small. -/
theorem isLeast_ceil (value : ℕ) :
    IsLeast {root : ℤ | 0 ≤ root ∧ (value : ℤ) ≤ root * root}
      (value.sqrt + if value.sqrt * value.sqrt = value then 0 else 1 : ℤ) := by
  have hfloor := Nat.sqrt_le value
  have habove := Nat.lt_succ_sqrt value
  constructor
  · split_ifs with h
    · exact ⟨by positivity, by rw [add_zero]; exact_mod_cast h.ge⟩
    · exact ⟨by positivity, by exact_mod_cast habove.le⟩
  · rintro root ⟨hroot, hle⟩
    lift root to ℕ using hroot
    have hsquare : value ≤ root * root := by exact_mod_cast hle
    have hsqrt : value.sqrt ≤ root := by
      calc
        value.sqrt ≤ (root * root).sqrt := Nat.sqrt_le_sqrt hsquare
        _ = root := Nat.sqrt_eq root
    split_ifs with h
    · exact_mod_cast hsqrt
    · have hne : value.sqrt ≠ root := fun heq ↦ h (le_antisymm hfloor (heq ▸ hsquare))
      exact_mod_cast lt_of_le_of_ne hsqrt hne

/-- On every nonnegative `i128` the iteration ends in the rounded root without an overflow. -/
theorem sqrtCeil_eq (value : ℤ) (hnonneg : 0 ≤ value) (hvalue : value < 2 ^ 127) :
    ∃ root, sqrtCeil value = some root ∧ IsLeast {root : ℤ | 0 ≤ root ∧ value ≤ root * root} root ∧
      ZkEffect.sqrtCeil value = root := by
  lift value to ℕ using hnonneg
  have hbound : value < 2 ^ 127 := by exact_mod_cast hvalue
  refine ⟨_, ?_, isLeast_ceil value, rfl⟩
  by_cases hzero : value = 0
  · subst hzero
    rfl
  have hpos := Nat.pos_of_ne_zero hzero
  obtain ⟨hstart, habove⟩ := start_spec hpos hbound
  have hroot : value.sqrt < 2 ^ 64 := Nat.sqrt_lt'.mpr (by omega)
  have hsquare := Nat.sqrt_le value
  have hne : 1 <<< ((bitLength value + 1) / 2) ≠ 0 := by
    rw [Nat.shiftLeft_eq, one_mul]
    positivity
  have hcast : (value : ℤ) % 2 ^ 128 = value := Int.emod_eq_of_lt (Nat.cast_nonneg value) (by omega)
  rw [sqrtCeil, if_neg (by exact_mod_cast hzero), hcast, Int.toNat_natCast]
  simp only [u128_of_lt (hstart.trans_lt (Nat.pow_lt_pow_right (by decide) (by decide))), Option.bind_eq_bind,
    Option.bind_some, descend_eq hpos hbound _ hstart habove hne, u128_of_lt (hsquare.trans_lt (by omega))]
  have hresult : ∀ extra ≤ 1, ((u128 (value.sqrt + extra)).bind fun result ↦ pure (asI128 result)) =
      some ((value.sqrt + extra : ℕ) : ℤ) := by
    intro extra hextra
    rw [u128_of_lt (by omega), Option.bind_some, asI128, if_pos (by omega)]
    rfl
  by_cases hexact : value.sqrt * value.sqrt = value
  · rw [if_neg (not_not.mpr hexact), if_pos hexact, hresult 0 (Nat.zero_le 1)]
    rfl
  · rw [if_pos hexact, if_neg hexact, hresult 1 le_rfl]
    rfl

/-- The root of ten is rounded up to four. -/
theorem sqrtCeil_eq_ten : ∃ root, sqrtCeil 10 = some root ∧
    IsLeast {root : ℤ | 0 ≤ root ∧ 10 ≤ root * root} root ∧ ZkEffect.sqrtCeil 10 = root :=
  sqrtCeil_eq 10 (by decide) (by norm_num)

end UniMem.EffectCore
