import GraphQL.Text.Range

/-!
The blank characters of Unicode. `isBlank` is the wide class that surrounds a numeral in a numeric
string; `isNarrowBlank` is the class that the conversion of such a numeral strips, which lacks the
four information separators.
-/

namespace GraphQL.Text

def blankRanges : List CodeRange :=
  [⟨0x09, 0x0d⟩, ⟨0x1c, 0x20⟩, ⟨0x85, 0x85⟩, ⟨0xa0, 0xa0⟩, ⟨0x1680, 0x1680⟩, ⟨0x2000, 0x200a⟩,
    ⟨0x2028, 0x2029⟩, ⟨0x202f, 0x202f⟩, ⟨0x205f, 0x205f⟩, ⟨0x3000, 0x3000⟩]

def isBlank (c : Char) : Bool := inRanges blankRanges c

/-- The information separators, U+001C to U+001F. -/
def isInformationSeparator (c : Char) : Bool :=
  CodeRange.contains ⟨0x1c, 0x1f⟩ c

def isNarrowBlank (c : Char) : Bool :=
  isBlank c && !isInformationSeparator c

theorem isBlank_of_isWhitespace {c : Char} (white : c.isWhitespace = true) : isBlank c = true := by
  simp only [Char.isWhitespace, Bool.or_eq_true, decide_eq_true_eq] at white
  rcases white with ((rfl | rfl) | rfl) | rfl <;> decide

def trimLeft (blank : Char → Bool) (cs : List Char) : List Char := cs.dropWhile blank

def trimRight (blank : Char → Bool) (cs : List Char) : List Char :=
  (cs.reverse.dropWhile blank).reverse

def trim (blank : Char → Bool) (cs : List Char) : List Char :=
  trimRight blank (trimLeft blank cs)

end GraphQL.Text
