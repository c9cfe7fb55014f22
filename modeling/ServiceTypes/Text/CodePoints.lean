/-!
# Sets of characters given by ranges

The character properties that the library needs are those of the Unicode standard, and a property is
given here as the list of its ranges of code points, both ends included, in ascending order.
-/

namespace ServiceTypes
namespace Text

/-- A set of characters: ranges of code points, both ends included. -/
abbrev CodePoints := List (Nat × Nat)

/-- Whether the code point of `c` lies in one of the ranges. -/
def CodePoints.holds (ranges : CodePoints) (c : Char) : Bool :=
  ranges.any fun range => range.1 ≤ c.toNat && c.toNat ≤ range.2

end Text
end ServiceTypes
