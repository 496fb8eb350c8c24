import GraphQL.Selection
import GraphQL.Value.Arithmetic

/-!
What an operation costs. Its depth is the number of nested fields on its deepest branch; its
complexity is the sum of the costs of its fields, where a field costs one more than what is selected
within it, unless its definition says otherwise. `Cost.check` compares both with limits.
-/

namespace GraphQL

namespace Selection

mutual

/-- The depth of a selection, given the depth of the fragments that it spreads. -/
def depth (spreadDepth : String → Nat) : Selection → Nat
  | field _ _ _ _ _ selections => 1 + depthOfAll spreadDepth selections
  | inlineFragment _ _ _ selections => depthOfAll spreadDepth selections
  | spread _ name _ => spreadDepth name

def depthOfAll (spreadDepth : String → Nat) : List Selection → Nat
  | [] => 0
  | selection :: rest => max (depth spreadDepth selection) (depthOfAll spreadDepth rest)

end

/-- The depth with fragments nested up to a number of levels. A fragment within itself counts for
nothing. -/
def depthWithin (fragments : List Fragment) : (levels : Nat) → List String → List Selection → Nat
  | 0, _ => depthOfAll fun _ => 0
  | levels + 1, within => depthOfAll fun name =>
    match fragment? fragments name with
    | some fragment =>
      if within.contains name then 0
      else depthWithin fragments levels (name :: within) fragment.selections
    | none => 0

end Selection

/-- The number of nested fields on the deepest branch of an operation. -/
def Operation.depth (operation : Operation) (fragments : List Fragment) : Nat :=
  Selection.depthWithin fragments fragments.length [] operation.selections

namespace Scope

/-- The type inside all wrappers of a field's type. -/
def childType (field : Option Field) : Checked (Option TypeId) :=
  match field with
  | some field => do return some (← (← field.type).innermost)
  | none => .ok none

/-- The definition of a field where the type may be unknown, or none to select from. -/
def fieldOn? (scope : Scope) (parent : Option TypeId) (name : String) : Checked (Option Field) :=
  match parent.filter fun id => (scope.schema.kindOf id).isComposite with
  | some id => scope.schema.field? id name
  | none => .ok none

/-- The cost of a field, by what is selected within it. -/
def fieldCost (scope : Scope) (field : Option Field) (start : Nat)
    (given : List ArgumentNode) (child : Value) : Action Value :=
  match field with
  | none => do return ← child.plus (.int 1)
  | some field =>
    if field.complexity.isAbsent then do return ← child.plus (.int 1)
    else do
      let arguments ←
        Input.arguments scope.schema.toLayout scope.vars start given field.arguments
      field.complexity.ask fun id => .complexity id child (.map arguments)

/-- The type that a fragment is about; without a condition, the type it stands in. -/
def conditionType (scope : Scope) (parent : Option TypeId) (condition : Option String) :
    Checked (Option TypeId) :=
  match condition with
  | some name => scope.schema.named? name
  | none => .ok parent

end Scope

namespace Selection

mutual

/-- Adds the cost of a selection to a total, given the cost of the fragments that it spreads. -/
def addCost (scope : Scope) (spreadCost : String → Option (Action Value)) (parent : Option TypeId)
    (selection : Selection) (total : Value) : Action Value :=
  match selection with
  | field start _ name arguments directives selections => do
    if ← scope.isIncluded directives then
      let definition ← scope.fieldOn? parent name
      let childType ← Scope.childType definition
      let child ← costOfAll scope spreadCost childType selections (.int 0)
      return ← total.raisedBy (← scope.fieldCost definition start arguments child)
    else return total
  | inlineFragment _ condition directives selections => do
    if ← scope.isIncluded directives then
      let type ← scope.conditionType parent condition
      return ← total.raisedBy (← costOfAll scope spreadCost type selections (.int 0))
    else return total
  | spread _ name directives => do
    if ← scope.isIncluded directives then
      match spreadCost name with
      | some cost => return ← total.raisedBy (← cost)
      | none => return total
    else return total

def costOfAll (scope : Scope) (spreadCost : String → Option (Action Value))
    (parent : Option TypeId) (selections : List Selection) (total : Value) : Action Value :=
  match selections with
  | [] => return total
  | selection :: rest => do
    costOfAll scope spreadCost parent rest (← addCost scope spreadCost parent selection total)

end

/-- The cost with fragments nested up to a number of levels. A fragment within itself costs
nothing. -/
def costWithin (scope : Scope) :
    (levels : Nat) → List String → Option TypeId → List Selection → Action Value
  | 0, _, parent, selections => costOfAll scope (fun _ => none) parent selections (.int 0)
  | levels + 1, within, parent, selections =>
    costOfAll scope
      (fun name => do
        let fragment ← fragment? scope.fragments name
        guard (!within.contains name)
        return do
          let type ← scope.schema.named? fragment.condition
          costWithin scope levels (name :: within) type fragment.selections)
      parent selections (.int 0)

end Selection

namespace Cost

/-- The complexity of an operation. -/
def complexity (scope : Scope) (operation : Operation) : Action Value :=
  Selection.costWithin scope scope.fragments.length []
    ((scope.schema.root operation.kind).bind Candidate.named?) operation.selections

structure Limits where
  depth : Option Int := none
  complexity : Option Int := none

def exceeded (measure : String) (limit : Int) (found : String) (operation : Operation) :
    ResponseError where
  message :=
    "Max query " ++ measure ++ " should be " ++ toString limit ++ " but got " ++ found ++ "."
  nodes := [operation.start]
  origin := some .queryCost

def checkDepth (scope : Scope) (operation : Operation) (limits : Limits) : List ResponseError :=
  match limits.depth with
  | some limit =>
    let depth := operation.depth scope.fragments
    if limit < depth then [exceeded "depth" limit (toString depth) operation] else []
  | none => []

def checkComplexity (scope : Scope) (operation : Operation) (limits : Limits) :
    Action (List ResponseError) :=
  match limits.complexity with
  | some limit =>
    (complexity scope operation).andThen fun
      | .ok cost => do
        if ← cost.exceeds limit then return [exceeded "complexity" limit cost.shown operation]
        else return []
      | .error (.response error) => return [error]
      | .error failure => .fail failure
  | none => return []

/-- The errors that say how an operation exceeds the limits, none if it does not. -/
def check (scope : Scope) (operation : Operation) (limits : Limits) :
    Action (List ResponseError) := do
  return checkDepth scope operation limits ++ (← checkComplexity scope operation limits)

end Cost

end GraphQL
