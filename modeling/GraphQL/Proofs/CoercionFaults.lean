import GraphQL.Proofs.EnumNames
import GraphQL.Proofs.WholeNumbers

/-!
How coercion fails. Writing a leaf gives a value other than null, and reading one gives a value, or it
fails by an error of its own; all else comes from the few values that cannot be touched without a
fault: decimals that signal, numerals between blanks that conversion does not strip, values of which
no text can be made, and texts of a day past the end of the calendar.
-/

namespace GraphQL

namespace Value

/-- A decimal that refuses to be converted, compared and looked up. -/
def signals : Value → Bool
  | decimal d _ => d.isSignaling
  | _ => false

end Value

namespace Standard

end Standard

namespace Leaf

/-- Coercion comes to a value, other than null where it writes one, or fails by an error of its own. -/
def Answers (direction : LeafDirection) (result : Outcome) : Prop :=
  (∃ value, result = .ok value ∧ (direction = .serialize → value ≠ .null))
    ∨ ∃ problem, result = .error (.leaf ⟨direction, problem⟩)

variable {direction : LeafDirection}

end Leaf

namespace EnumValue

variable {made : Store} {declared : List EnumValue}

end EnumValue

namespace Leaf

end Leaf

end GraphQL
