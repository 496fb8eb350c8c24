import GraphQL.Schema

/-!
Relations between types: when two references denote one type, what kind of type one denotes, and
when the values of one type can stand where another type is expected.
-/

namespace GraphQL

namespace TypeRef

/-- Whether two references denote the same type. -/
def denotesSame : TypeRef → TypeRef → Checked Bool
  | broken fault, _ => .error fault
  | _, broken fault => .error fault
  | named left, named right => .ok (left = right)
  | list left, list right => left.denotesSame right
  | nonNull left, nonNull right => left.denotesSame right
  | _, _ => .ok false

/-- What stands in a place, if it is a type. -/
def present : TypeRef → Checked TypeRef
  | broken fault => .error fault
  | type => .ok type

theorem present_of_innermost {type : TypeRef} {inner : TypeId}
    (leads : type.innermost = .ok inner) : type.present = .ok type := by
  cases type with
  | broken fault => cases leads
  | _ => rfl

theorem eq_of_present {type other : TypeRef} (here : type.present = .ok other) :
    type = other := by
  cases type <;> cases here <;> rfl

end TypeRef

namespace Layout

def kindOf (layout : Layout) (id : TypeId) : TypeKind := (layout.definition id).kind

/-- Whether the named type inside all wrappers is of a class of kinds. -/
def innermostIs (layout : Layout) (test : TypeKind → Bool) (ref : TypeRef) : Checked Bool :=
  ref.innermost.map fun id => test (layout.kindOf id)

/-- Whether a request can supply values of the type. -/
def isInputType (layout : Layout) (ref : TypeRef) : Checked Bool :=
  layout.innermostIs TypeKind.isInput ref

/-- Whether a response can hold values of the type. -/
def isOutputType (layout : Layout) (ref : TypeRef) : Checked Bool :=
  layout.innermostIs TypeKind.isOutput ref

/-- Whether a type declares that it implements an interface. -/
def implements (layout : Layout) (type interface : TypeId) : Checked Bool := do
  return (← (layout.definition type).interfaces).any fun candidate =>
    candidate.named? == some interface

/-- Whether the values of a named type can stand where another one is expected. -/
def isNamedSubtype (layout : Layout) (sub super : TypeId) : Checked Bool :=
  if sub = super then .ok true
  else
    match (layout.definition super).body with
    | .union members _ => do return (← members).any fun candidate => candidate.named? == some sub
    | .interface .. => layout.implements sub super
    | _ => .ok false

/-- Whether the values of a type can stand where another type is expected. -/
def isSubtype (layout : Layout) : TypeRef → TypeRef → Checked Bool
  | .broken fault, _ => .error fault
  | _, .broken fault => .error fault
  | .nonNull sub, .nonNull super => layout.isSubtype sub super
  | _, .nonNull _ => .ok false
  | .nonNull sub, super => layout.isSubtype sub super
  | .list sub, .list super => layout.isSubtype sub super
  | _, .list _ => .ok false
  | .list _, _ => .ok false
  | .named sub, .named super => layout.isNamedSubtype sub super

end Layout

namespace Candidate

/-- What is inside all wrappers. -/
def innermost : Candidate → Checked Candidate
  | type ref => ref.innermost.map named
  | other value => .ok (other value)

/-- What is inside an outer non-null wrapper. -/
def nullable : Candidate → Checked Candidate
  | type (.nonNull (.broken fault)) => .error fault
  | type ref => .ok (type ref.nullable)
  | other value => .ok (other value)

def isList : Candidate → Bool
  | type (.list _) => true
  | _ => false

def isNonNull : Candidate → Bool
  | type ref => ref.isNonNull
  | _ => false

def denotesSame : Candidate → Candidate → Checked Bool
  | type left, type right => left.denotesSame right
  | other left, other right => .ok (left.equals right)
  | _, _ => .ok false

end Candidate

namespace Layout

/-- Whether a candidate is a named type of a class of kinds. -/
def isOfKind (layout : Layout) (test : TypeKind → Bool) (candidate : Candidate) : Bool :=
  candidate.named?.any fun id => test (layout.kindOf id)

/-- Whether the type inside all wrappers is of a class of kinds. -/
def isInnermostOfKind (layout : Layout) (test : TypeKind → Bool) (candidate : Candidate) :
    Checked Bool :=
  candidate.innermost.map (layout.isOfKind test)

/-- What a type is, all at once. The kinds are those of the type itself; whether it serves for input
or output is up to the type inside its wrappers. -/
structure Traits where
  isNamed : Bool
  isWrapping : Bool
  isList : Bool
  isNonNull : Bool
  isInput : Bool
  isOutput : Bool
  isLeaf : Bool
  isComposite : Bool
  isAbstract : Bool
deriving DecidableEq, Repr

def traits (layout : Layout) (candidate : Candidate) : Checked Traits := do
  let isInput ← layout.isInnermostOfKind TypeKind.isInput candidate
  let isOutput ← layout.isInnermostOfKind TypeKind.isOutput candidate
  return {
    isNamed := layout.isOfKind (fun _ => true) candidate
    isWrapping := candidate.isList || candidate.isNonNull
    isList := candidate.isList
    isNonNull := candidate.isNonNull
    isInput
    isOutput
    isLeaf := layout.isOfKind TypeKind.isLeaf candidate
    isComposite := layout.isOfKind TypeKind.isComposite candidate
    isAbstract := layout.isOfKind TypeKind.isAbstract candidate }

def isCandidateSubtype (layout : Layout) : Candidate → Candidate → Checked Bool
  | .type sub, .type super => layout.isSubtype sub super
  | .other sub, .other super => .ok (sub.identical super)
  | _, _ => .ok false

end Layout

end GraphQL
