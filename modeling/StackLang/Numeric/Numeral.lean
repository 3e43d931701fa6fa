import StackLang.Numeric.Pow

/-!
# Integer numerals

A numeral is a row of digits in a radix. The saturating reader keeps an accumulator that stops at
the greatest signed 64-bit integer; the exact reader wants digits only and gives the value.
-/

namespace StackLang.Numeric

/-- The greatest signed 64-bit integer. -/
def maxInt64 : Nat := 2 ^ 63 - 1

namespace Numeral

/-- The value of a digit below `radix`, letters of either case standing for ten and more. -/
def digit? (radix : Nat) (c : Char) : Option Nat :=
  let n := c.toNat
  let value? :=
    if '0' ≤ c && c ≤ '9' then some (n - '0'.toNat)
    else if 'a' ≤ c && c ≤ 'z' then some (n - 'a'.toNat + 10)
    else if 'A' ≤ c && c ≤ 'Z' then some (n - 'A'.toNat + 10)
    else none
  value?.filter (· < radix)

/-- The digits a text starts with. -/
def leadingDigits (radix : Nat) : List Char → List Nat
  | [] => []
  | c :: r =>
    match digit? radix c with
    | some d => d :: leadingDigits radix r
    | none => []

/-- The value of a row of digits, most significant first. -/
def value (radix : Nat) (digits : List Nat) : Nat :=
  digits.foldl (fun n d => n * radix + d) 0

/-- One more digit on a saturating accumulator: product and sum each stop at the greatest
integer. -/
def saturatingStep (radix n d : Nat) : Nat :=
  min maxInt64 (min maxInt64 (n * radix) + d)

/-- The value of the digits that a text starts with, stopping at the greatest integer. -/
def saturating (radix : Nat) (text : List Char) : Nat :=
  (leadingDigits radix text).foldl (saturatingStep radix) 0

/-- The value of a text that is one digit or more and nothing else. -/
def whole? (radix : Nat) (text : List Char) : Option Nat :=
  let digits := leadingDigits radix text
  if text.isEmpty || digits.length < text.length then none else some (value radix digits)

/-- The value of an exact numeral that fits into 64 bits. -/
def word? (radix : Nat) (text : List Char) : Option Nat :=
  (whole? radix text).filter (· < 2 ^ 64)

/-- A natural in hexadecimal behind its mark. -/
def hex (n : Nat) : String := "0x" ++ String.ofList (Nat.toDigits 16 n)

end Numeral

end StackLang.Numeric
