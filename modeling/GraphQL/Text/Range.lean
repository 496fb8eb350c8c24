/-!
Sets of characters written as ranges of code points. A character property is one list of ranges,
and a character has the property when one of the ranges holds it.
-/

namespace GraphQL.Text

structure CodeRange where
  first : Nat
  last : Nat
deriving DecidableEq, Repr

namespace CodeRange

def contains (range : CodeRange) (c : Char) : Bool :=
  range.first ≤ c.toNat && c.toNat ≤ range.last

end CodeRange

def inRanges (ranges : List CodeRange) (c : Char) : Bool :=
  ranges.any (·.contains c)

/-- Reads a flat list of bounds, two numbers to a range. -/
def rangesOfBounds : List Nat → List CodeRange
  | first :: last :: rest => ⟨first, last⟩ :: rangesOfBounds rest
  | _ => []

end GraphQL.Text
