import Whippet.Lib.LittleEndian

/-! Byte strings written as hexadecimal digits, two digits a byte, high half first. -/
namespace Whippet.Lib

def hexDigits : List Char :=
  ['0', '1', '2', '3', '4', '5', '6', '7', '8', '9', 'a', 'b', 'c', 'd', 'e', 'f']

def hexChar (n : ℕ) : Char := hexDigits.getD n '0'

def hexValue? (c : Char) : Option ℕ :=
  if '0' ≤ c ∧ c ≤ '9' then some (c.toNat - '0'.toNat)
  else if 'a' ≤ c ∧ c ≤ 'f' then some (c.toNat - 'a'.toNat + 10)
  else if 'A' ≤ c ∧ c ≤ 'F' then some (c.toNat - 'A'.toNat + 10)
  else none

def hexEncode : Bytes → List Char
  | [] => []
  | b :: bs => hexChar (b.toNat / 16) :: hexChar (b.toNat % 16) :: hexEncode bs

def hexDecode? : List Char → Option Bytes
  | [] => some []
  | [_] => none
  | c :: d :: cs => do
    let hi ← hexValue? c
    let lo ← hexValue? d
    let bs ← hexDecode? cs
    some (UInt8.ofNat (16 * hi + lo) :: bs)

theorem hexValue?_hexChar {n : ℕ} (h : n < 16) : hexValue? (hexChar n) = some n := by
  interval_cases n <;> decide

theorem hexDecode?_hexEncode (bs : Bytes) : hexDecode? (hexEncode bs) = some bs := by
  induction bs with
  | nil => rfl
  | cons b bs ih =>
    have hb := b.toNat_lt
    have hhi := hexValue?_hexChar (n := b.toNat / 16) (by omega)
    have hlo := hexValue?_hexChar (n := b.toNat % 16) (by omega)
    have hbyte : UInt8.ofNat (16 * (b.toNat / 16) + b.toNat % 16) = b := by
      rw [Nat.div_add_mod]
      simp
    simp only [hexEncode, hexDecode?, hhi, hlo, ih, Option.bind_eq_bind, Option.bind_some, hbyte]

end Whippet.Lib
