/-!
# Numbers written in digits

A number is written in decimal or in hexadecimal digits.  Digits are read from the left, one at a
time, and zeros before a number do not matter.  The letters among the hexadecimal digits may be of
either case.
-/

namespace ServiceTypes
namespace Text

/-- The two ways in which a number may be written. -/
inductive Radix where
  | decimal
  | hexadecimal
  deriving DecidableEq, Repr

namespace Radix

/-- How many values a digit has. -/
def base : Radix → Nat
  | .decimal => 10
  | .hexadecimal => 16

/-- The word for the radix in messages. -/
def name : Radix → String
  | .decimal => "decimal"
  | .hexadecimal => "hexadecimal"

/-- The value of a digit; a hexadecimal digit may be of either case. -/
def digit? (radix : Radix) (c : Char) : Option Nat :=
  if '0' ≤ c ∧ c ≤ '9' then some (c.toNat - '0'.toNat)
  else match radix with
    | .decimal => none
    | .hexadecimal =>
      if 'a' ≤ c ∧ c ≤ 'f' then some (c.toNat - 'a'.toNat + 10)
      else if 'A' ≤ c ∧ c ≤ 'F' then some (c.toNat - 'A'.toNat + 10)
      else none

/-- Continue a number with more digits; the failure is the first character that is no digit. -/
def value (radix : Radix) (number : Nat) : List Char → Except Char Nat
  | [] => .ok number
  | c :: digits =>
    match radix.digit? c with
    | some digit => value radix (number * radix.base + digit) digits
    | none => .error c

end Radix
end Text
end ServiceTypes
