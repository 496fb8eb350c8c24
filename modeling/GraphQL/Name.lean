import GraphQL.Value.Text

/-!
Names of types, fields, arguments and enum values. `nameProblem` says why a value cannot be a name;
it lets one final line break pass.
-/

namespace GraphQL

def isNameStart (c : Char) : Bool :=
  c = '_' || ('a' ≤ c && c ≤ 'z') || ('A' ≤ c && c ≤ 'Z')

def isNameContinue (c : Char) : Bool :=
  isNameStart c || ('0' ≤ c && c ≤ '9')

/-- The grammar of names: a letter or underscore, then letters, underscores and digits. -/
def isNameText (cs : List Char) : Bool :=
  match cs with
  | [] => false
  | c :: rest => isNameStart c && rest.all isNameContinue

/-- A text without its final line break. -/
def dropFinalBreak (cs : List Char) : List Char :=
  match cs.reverse with
  | '\n' :: rest => rest.reverse
  | _ => cs

def isReserved (cs : List Char) : Bool :=
  match cs with
  | '_' :: '_' :: _ => true
  | _ => false

inductive NameProblem where
  | notText (shown : String)
  | reserved (name : String)
  | malformed (name : String)
deriving DecidableEq, Repr

def NameProblem.message : NameProblem → String
  | notText shown => "Expected name to be a string, but got: " ++ shown ++ "."
  | reserved name =>
    "Name \"" ++ name
      ++ "\" must not begin with \"__\", which is reserved by GraphQL introspection."
  | malformed name =>
    "Names must match /^[_a-zA-Z][_a-zA-Z0-9]*$/ but \"" ++ name ++ "\" does not."

def nameProblem (name : Value) : Option NameProblem :=
  match name with
  | .str text =>
    if isReserved text.toList then some (.reserved text)
    else if isNameText text.toList || isNameText (dropFinalBreak text.toList) then none
    else some (.malformed text)
  | other => some (.notText other.shown)

end GraphQL
