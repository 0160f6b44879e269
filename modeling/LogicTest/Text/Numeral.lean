import LogicTest.Text.Basic

/-!
# Decimal numerals

Counts and thresholds are written in decimal and fit in 64 bits. A numeral out of that range is no
numeral: it is refused, never reduced.
-/
namespace LogicTest.Numeral

/-- The first number too large to be read. -/
def bound : Nat := Nat.pow 2 64

def digit? (c : Char) : Option Nat :=
  if '0' ≤ c ∧ c ≤ '9' then some (c.toNat - '0'.toNat) else none

/-- The value of `digits` written after a numeral of value `high`. -/
def digitsAfter? (high : Nat) : Text → Option Nat
  | [] => some high
  | c :: rest => (digit? c).bind fun d => digitsAfter? (high * 10 + d) rest

/-- Reads a numeral: at most one plus sign, then one or more ASCII digits. -/
def ofText? (text : Text) : Option Nat :=
  let digits := match text with
    | '+' :: rest => rest
    | text => text
  if digits.isEmpty then none
  else (digitsAfter? 0 digits).filter (· < bound)

def toText (n : Nat) : Text := Nat.toDigits 10 n

end LogicTest.Numeral
