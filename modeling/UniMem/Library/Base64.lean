import Mathlib

/-!
# Base64 for URLs

Three bytes are four characters of the alphabet, and one or two bytes at the end are two or three. The padding is
left out of what is written and may be left out of what is read.
-/

namespace UniMem.Library.Base64

def alphabet : List Char := "ABCDEFGHIJKLMNOPQRSTUVWXYZabcdefghijklmnopqrstuvwxyz0123456789-_".toList

def digit (value : ℕ) : Char := alphabet.getD value 'A'

def value (char : Char) : Option ℕ := alphabet.idxOf? char

theorem digit_spec : ∀ number < 64, value (digit number) = some number ∧ (digit number).utf8Size = 1 ∧
    digit number ≠ '=' ∧ digit number ≠ '\x00' := by
  decide +kernel

theorem value_digit (number : ℕ) (h : number < 64) : value (digit number) = some number := (digit_spec number h).1

theorem value_digit_mod (number : ℕ) : value (digit (number % 64)) = some (number % 64) :=
  value_digit _ (Nat.mod_lt _ (Nat.succ_pos 63))

theorem digit_plain (number : ℕ) (h : number < 64) :
    (digit number).utf8Size = 1 ∧ digit number ≠ '=' ∧ digit number ≠ '\x00' :=
  (digit_spec number h).2

/-- The text of some bytes without padding. -/
def encode : List UInt8 → List Char
  | first :: second :: third :: rest =>
    let number := first.toNat * 65536 + second.toNat * 256 + third.toNat
    digit (number / 262144) :: digit (number / 4096 % 64) :: digit (number / 64 % 64) :: digit (number % 64) ::
      encode rest
  | [first, second] =>
    let number := first.toNat * 1024 + second.toNat * 4
    [digit (number / 4096), digit (number / 64 % 64), digit (number % 64)]
  | [first] => [digit (first.toNat * 16 / 64), digit (first.toNat * 16 % 64)]
  | [] => []

/-- The bytes of a text without padding. -/
def decode : List Char → Option (List UInt8)
  | first :: second :: third :: fourth :: rest => do
    let number := (← value first) * 262144 + (← value second) * 4096 + (← value third) * 64 + (← value fourth)
    return UInt8.ofNat (number / 65536) :: UInt8.ofNat (number / 256 % 256) :: UInt8.ofNat (number % 256) ::
      (← decode rest)
  | [first, second, third] => do
    let number := (← value first) * 4096 + (← value second) * 64 + (← value third)
    return [UInt8.ofNat (number / 1024), UInt8.ofNat (number / 4 % 256)]
  | [first, second] => do
    let number := (← value first) * 64 + (← value second)
    return [UInt8.ofNat (number / 16)]
  | [_] => none
  | [] => some []

/-- The bytes of a text with some of its padding. -/
def decodePadded (text : List Char) : Option (List UInt8) :=
  let body := text.rdropWhile (· = '=')
  if text.length - body.length ≤ (4 - body.length % 4) % 4 then decode body else none

theorem three_sextets (number : ℕ) : number / 4096 * 4096 + number / 64 % 64 * 64 + number % 64 = number := by
  omega

theorem four_sextets (number : ℕ) :
    number / 262144 * 262144 + number / 4096 % 64 * 4096 + number / 64 % 64 * 64 + number % 64 = number := by
  have hsecond := Nat.div_add_mod (number / 64) 64
  have hthird := Nat.div_add_mod (number / 64 / 64) 64
  rw [Nat.div_div_eq_div_mul] at hsecond hthird
  rw [Nat.div_div_eq_div_mul] at hthird
  norm_num at hsecond hthird
  omega

theorem ofNat_toNat_of_eq {number : ℕ} (byte : UInt8) (h : number = byte.toNat) : UInt8.ofNat number = byte := by
  rw [h, UInt8.ofNat_toNat]

theorem decode_encode (bytes : List UInt8) : decode (encode bytes) = some bytes := by
  induction bytes using encode.induct with
  | case1 first second third rest ih =>
    have hfirst := first.toNat_lt
    have hsecond := second.toNat_lt
    have hthird := third.toNat_lt
    rw [encode]
    generalize hnumber : first.toNat * 65536 + second.toNat * 256 + third.toNat = number
    have hdigit : value (digit (number / 262144)) = some (number / 262144) := value_digit _ (by omega)
    simp only [decode, hdigit, value_digit_mod, Option.bind_eq_bind, Option.bind_some, four_sextets, ih]
    rw [ofNat_toNat_of_eq first (by omega), ofNat_toNat_of_eq second (by omega),
      ofNat_toNat_of_eq third (by omega)]
    rfl
  | case2 first second =>
    have hfirst := first.toNat_lt
    have hsecond := second.toNat_lt
    rw [encode]
    generalize hnumber : first.toNat * 1024 + second.toNat * 4 = number
    simp only [decode, value_digit (number / 4096) (by omega), value_digit_mod,
      Option.bind_eq_bind, Option.bind_some, three_sextets]
    rw [ofNat_toNat_of_eq first (by omega), ofNat_toNat_of_eq second (by omega)]
    rfl
  | case3 first =>
    have hfirst := first.toNat_lt
    rw [encode]
    generalize hnumber : first.toNat * 16 = number
    have hsum : number / 64 * 64 + number % 64 = number := by omega
    simp only [decode, value_digit (number / 64) (by omega), value_digit_mod,
      Option.bind_eq_bind, Option.bind_some, hsum]
    rw [ofNat_toNat_of_eq first (by omega)]
    rfl
  | case4 => rfl

theorem forall_mem_encode {property : Char → Prop} (h : ∀ number < 64, property (digit number)) {bytes : List UInt8} :
    ∀ char ∈ encode bytes, property char := by
  induction bytes using encode.induct with
  | case1 first second third rest ih =>
    have hfirst := first.toNat_lt
    have hsecond := second.toNat_lt
    have hthird := third.toNat_lt
    simp only [encode, List.forall_mem_cons]
    exact ⟨h _ (by omega), h _ (by omega), h _ (by omega), h _ (by omega), ih⟩
  | case2 first second =>
    have hfirst := first.toNat_lt
    have hsecond := second.toNat_lt
    simp only [encode, List.forall_mem_cons]
    exact ⟨h _ (by omega), h _ (by omega), h _ (by omega), fun _ hmem ↦ absurd hmem List.not_mem_nil⟩
  | case3 first =>
    have hfirst := first.toNat_lt
    simp only [encode, List.forall_mem_cons]
    exact ⟨h _ (by omega), h _ (by omega), fun _ hmem ↦ absurd hmem List.not_mem_nil⟩
  | case4 => exact fun _ hmem ↦ absurd hmem List.not_mem_nil

theorem decodePadded_encode (bytes : List UInt8) : decodePadded (encode bytes) = some bytes := by
  have hbody : (encode bytes).rdropWhile (· = '=') = encode bytes := by
    have hplain : ∀ char ∈ encode bytes, char ≠ '=' :=
      forall_mem_encode fun number hnumber ↦ (digit_plain number hnumber).2.1
    rw [List.rdropWhile_eq_self_iff]
    intro hne
    simpa using hplain _ (List.getLast_mem hne)
  rw [decodePadded, hbody]
  simp only [Nat.sub_self, Nat.zero_le, if_pos, decode_encode]

theorem length_encode (bytes : List UInt8) : 3 * (encode bytes).length ≤ 4 * bytes.length + 2 := by
  induction bytes using encode.induct with
  | case1 first second third rest ih =>
    simp only [encode, List.length_cons]
    omega
  | case2 | case3 | case4 => simp [encode]

end UniMem.Library.Base64
