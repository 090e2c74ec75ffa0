import Mathlib.Data.Char
import Mathlib.Data.List.Basic

/-!
# Hexadecimal digits

Library for code that writes bytes or code units by their digits. Letters are read in both cases.
-/

namespace WikiMind.Base.Hex

/-- The value of a hexadecimal digit. -/
def hexValue (c : Char) : Option Nat :=
  let n := c.toNat
  if 48 ≤ n ∧ n ≤ 57 then some (n - 48)
  else if 97 ≤ n ∧ n ≤ 102 then some (n - 87)
  else if 65 ≤ n ∧ n ≤ 70 then some (n - 55)
  else none

/-- The code unit of four digits. -/
def unitValue (a b c d : Char) : Option Nat := do
  return (← hexValue a) * 4096 + (← hexValue b) * 256 + (← hexValue c) * 16 + (← hexValue d)

/-- The digit of a value, with letters in lower case. -/
def hexDigit (n : Nat) : Char := Char.ofNat (if n < 10 then 48 + n else 87 + n)

/-- The digit of a value, with letters in upper case. -/
def upperDigit (n : Nat) : Char := Char.ofNat (if n < 10 then 48 + n else 55 + n)

private theorem hexValue_hexDigit {n : Nat} (h : n < 16) : hexValue (hexDigit n) = some n := by
  have hall : ∀ n < 16, hexValue (hexDigit n) = some n := by decide
  exact hall n h

/-- A digit in upper case is read as its value. -/
theorem hexValue_upperDigit {n : Nat} (h : n < 16) : hexValue (upperDigit n) = some n := by
  have hall : ∀ n < 16, hexValue (upperDigit n) = some n := by decide
  exact hall n h

/-- The digits of a code unit are read as the code unit. -/
theorem unitValue_hexDigit {n : Nat} (h : n < 0x10000) :
    unitValue (hexDigit (n / 4096)) (hexDigit (n / 256 % 16)) (hexDigit (n / 16 % 16))
      (hexDigit (n % 16)) = some n := by
  have h1 := @hexValue_hexDigit (n / 4096) (by omega)
  have h2 := @hexValue_hexDigit (n / 256 % 16) (by omega)
  have h3 := @hexValue_hexDigit (n / 16 % 16) (by omega)
  have h4 := @hexValue_hexDigit (n % 16) (by omega)
  simp only [unitValue, h1, h2, h3, h4, Option.pure_def, Option.bind_eq_bind, Option.bind_some]
  congr 1
  omega

end WikiMind.Base.Hex
