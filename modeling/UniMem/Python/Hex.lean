import UniMem.Library.Json

/-!
# Hexadecimal texts

`bytes.hex()` and `bytes.fromhex()`.
-/

namespace UniMem

open Library

/-- `bytes.hex()`. -/
def hexText (bytes : Bytes) : String :=
  String.ofList (bytes.flatMap fun byte ↦ [Nat.digitChar (byte.toNat / 16), Nat.digitChar (byte.toNat % 16)])

/-- The value of a hexadecimal digit. -/
def hexValue (char : Char) : Option ℕ :=
  if '0' ≤ char ∧ char ≤ '9' then some (char.toNat - 48)
  else if 'a' ≤ char ∧ char ≤ 'f' then some (char.toNat - 87)
  else if 'A' ≤ char ∧ char ≤ 'F' then some (char.toNat - 55)
  else none

/-- The bytes of pairs of digits, with blanks between the pairs. -/
def fromHexDigits : List Char → Option Bytes
  | [] => some []
  | [char] => if char.isWhitespace then some [] else none
  | first :: second :: rest =>
    if first.isWhitespace then fromHexDigits (second :: rest)
    else do
      let high ← hexValue first
      let low ← hexValue second
      let bytes ← fromHexDigits rest
      return UInt8.ofNat (16 * high + low) :: bytes

/-- `bytes.fromhex(text)`. -/
def fromHex (text : String) : Option Bytes := fromHexDigits text.toList

theorem hexValue_digitChar : ∀ value < 16, hexValue (Nat.digitChar value) = some value := by decide

theorem digitChar_isWhitespace : ∀ value < 16, (Nat.digitChar value).isWhitespace = false := by decide

theorem fromHex_hexText (bytes : Bytes) : fromHex (hexText bytes) = some bytes := by
  unfold fromHex hexText
  rw [String.toList_ofList]
  induction bytes with
  | nil => rfl
  | cons byte bytes ih =>
    have hbyte := byte.toNat_lt
    have hhigh : byte.toNat / 16 < 16 := by omega
    have hlow : byte.toNat % 16 < 16 := by omega
    have hjoin : 16 * (byte.toNat / 16) + byte.toNat % 16 = byte.toNat := Nat.div_add_mod _ _
    rw [List.flatMap_cons, List.cons_append, List.cons_append, List.nil_append, fromHexDigits,
      digitChar_isWhitespace _ hhigh]
    simp only [Bool.false_eq_true, if_false, hexValue_digitChar _ hhigh, hexValue_digitChar _ hlow, ih]
    rw [Option.bind_eq_bind, Option.bind_some, Option.bind_eq_bind, Option.bind_some, Option.bind_some, hjoin,
      UInt8.ofNat_toNat]
    rfl

theorem length_hexText (bytes : Bytes) : (hexText bytes).length = 2 * bytes.length := by
  unfold hexText
  rw [String.length_ofList]
  induction bytes with
  | nil => rfl
  | cons byte bytes ih =>
    rw [List.flatMap_cons, List.length_append, ih, List.length_cons]
    simp only [List.length_cons, List.length_nil]
    omega

end UniMem
