import GraphQL.Value.Equality

/-!
Enumerations of the application: named values, of which those that repeat an earlier value are other
names for it.
-/

namespace GraphQL

structure Enumeration where
  index : Nat
  className : String
  named : List (String × Value)

namespace Enumeration

/-- The first name of a value. -/
def canonical (enumeration : Enumeration) (name : String) (value : Value) : String :=
  ((enumeration.named.find? fun entry => entry.2.equals value).map (·.1)).getD name

def member (enumeration : Enumeration) (name : String) (value : Value) : Value :=
  .member enumeration.index enumeration.className (enumeration.canonical name value) value

/-- The member of a name, which may be another name of a member. -/
def member? (enumeration : Enumeration) (name : String) : Option Value :=
  (enumeration.named.lookup name).map (enumeration.member name)

/-- The members under their first names. -/
def members (enumeration : Enumeration) : List (String × Value) :=
  (enumeration.named.filter fun (name, value) => enumeration.canonical name value == name).map
    fun (name, value) => (name, enumeration.member name value)

end Enumeration

end GraphQL
