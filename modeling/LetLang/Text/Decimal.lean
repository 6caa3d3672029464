/-!
# `LetLang.Text.Decimal` — whole numbers in decimal, and the 64-bit range

The integers of the language are those of a signed 64-bit word. They are written in plain decimal and
read back with an optional sign, any number of leading zeros and no separators.

## Contents
- `decimal`: the decimal text of an integer.
- `digitsValue?`: the number that a non-empty run of decimal digits stands for.
- `readInt64?`: a signed number, when it lies in the 64-bit range.
-/

namespace LetLang.Text

/-- The least integer above the signed 64-bit range. -/
def int64Bound : Nat := 9223372036854775808

/-- `value` in decimal: no leading zeros, and a minus sign below zero. -/
def decimal : Int → String
  | .ofNat n => String.ofList (Nat.toDigits 10 n)
  | .negSucc n => String.ofList ('-' :: Nat.toDigits 10 (n + 1))

/-- The number that decimal digits stand for, the most significant one first. -/
def digitsValue (digits : List Char) : Nat :=
  digits.foldl (fun value c => 10 * value + (c.toNat - '0'.toNat)) 0

/-- The number that a text of digits stands for; `none` unless it is a non-empty run of digits. -/
def digitsValue? (text : List Char) : Option Nat :=
  if text ≠ [] ∧ text.all Char.isDigit then some (digitsValue text) else none

/-- Reads a decimal number with an optional sign in front. A text that is no such number, or whose
    number lies outside the signed 64-bit range, is refused. -/
def readInt64? (text : String) : Option Int :=
  match text.toList with
  | '-' :: digits =>
    match digitsValue? digits with
    | some n => if n ≤ int64Bound then some (-(n : Int)) else none
    | none => none
  | '+' :: digits => natural? digits
  | digits => natural? digits
where
  /-- Digits without a sign. -/
  natural? (digits : List Char) : Option Int :=
    match digitsValue? digits with
    | some n => if n < int64Bound then some (n : Int) else none
    | none => none

end LetLang.Text
