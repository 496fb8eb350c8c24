import GraphQL.Input.Arguments

/-!
The fields that a selection asks of a value: fragments are expanded where they apply, selections are
dropped as their directives say, and what is left is grouped by response key, each group in the
order of the document. Within one collection every named fragment is expanded at most once.
-/

namespace GraphQL

/-- Field nodes by response key, in the order in which the keys are first met. -/
abbrev Collected := List (String × List FieldNode)

namespace Collected

/-- Adds a node to the group of its key. -/
def add (collected : Collected) (node : FieldNode) : Collected :=
  match collected with
  | [] => [(node.responseKey, [node])]
  | (key, nodes) :: rest =>
    if key = node.responseKey then (key, nodes ++ [node]) :: rest
    else (key, nodes) :: add rest node

end Collected

namespace Field

def typenameName : String := "__typename"

/-- The field that every composite type answers without declaring it. -/
def typename : Field where
  name := .str typenameName
  type := .ok (.nonNull (.named (.standard .string)))
  arguments := .ok .empty
  resolve := .absent
  complexity := .absent
  deprecated := none

end Field

namespace Layout

/-- The definition of a field that is selected on a type. -/
def field? (layout : Layout) (parent : TypeId) (name : String) : Checked (Option Field) :=
  if name = Field.typenameName then .ok (some .typename)
  else
    match (layout.definition parent).fields? with
    | some fields => do return (← fields).find? name
    | none => .ok none

/-- The definition of a field whose name is given as a value. -/
def fieldNamed (layout : Layout) (parent : TypeId) (name : Value) : Checked (Option Field) :=
  match name with
  | .str name => layout.field? parent name
  | _ => .ok none

end Layout

/-- What a selection is seen under: the schema, the fragments and the values of variables. -/
structure Scope where
  schema : Schema
  fragments : List Fragment
  vars : Variables

namespace Scope

/-- The condition that a directive sets, if it stands on a node. -/
def condition (scope : Scope) (directive : Directive) (directives : List DirectiveNode) :
    Action (Option Value) := do
  let arguments ←
    Input.directiveArguments scope.schema.toLayout scope.vars directive directives
  return arguments.bind fun bound => Value.lookup? bound (.str "if")

/-- Whether the directives of a node let it take part. -/
def isIncluded (scope : Scope) (directives : List DirectiveNode) : Action Bool := do
  match ← scope.condition .skipWhen directives with
  | some (.bool true) => return false
  | _ =>
    match ← scope.condition .includeWhen directives with
    | some (.bool false) => return false
    | _ => return true

/-- Whether a fragment applies to values of an object type. -/
def applies (scope : Scope) (condition : Option String) (type : TypeId) : Checked Bool := do
  match condition with
  | none => return true
  | some name =>
    match ← scope.schema.named? name with
    | none => return false
    | some id =>
      if id = type then return true
      else if (scope.schema.kindOf id).isAbstract then scope.schema.isPossible id type
      else return false

end Scope

/-- The fields found so far, and the fragments that were expanded for them. -/
structure Gathering where
  fields : Collected
  expanded : List String

namespace Gathering

def empty : Gathering := ⟨[], []⟩

def addField (gathering : Gathering) (node : FieldNode) : Gathering :=
  { gathering with fields := gathering.fields.add node }

end Gathering

namespace Selection

/-- How a fragment's own selections are gathered. -/
abbrev Expansion := List Selection → Gathering → Action Gathering

def gatherSpread (scope : Scope) (type : TypeId) (expand : Expansion) (name : String)
    (gathering : Gathering) : Action Gathering := do
  let marked := { gathering with expanded := gathering.expanded ++ [name] }
  match fragment? scope.fragments name with
  | none => return marked
  | some fragment =>
    if ← scope.applies (some fragment.condition) type then expand fragment.selections marked
    else return marked

mutual

def gather (scope : Scope) (type : TypeId) (expand : Expansion) (selection : Selection)
    (gathering : Gathering) : Action Gathering :=
  match selection with
  | field start alias_ name arguments directives selections => do
    if ← scope.isIncluded directives then
      return gathering.addField ⟨start, alias_, name, arguments, directives, selections⟩
    else return gathering
  | inlineFragment _ condition directives selections => do
    if ← scope.isIncluded directives then
      if ← scope.applies condition type then gatherAll scope type expand selections gathering
      else return gathering
    else return gathering
  | spread _ name directives =>
    if gathering.expanded.contains name then return gathering
    else do
      if ← scope.isIncluded directives then gatherSpread scope type expand name gathering
      else return gathering

def gatherAll (scope : Scope) (type : TypeId) (expand : Expansion) (selections : List Selection)
    (gathering : Gathering) : Action Gathering :=
  match selections with
  | [] => return gathering
  | selection :: rest => do
    gatherAll scope type expand rest (← gather scope type expand selection gathering)

end

/-- Gathers with fragments nested up to a number of levels. -/
def gatherWithin (scope : Scope) (type : TypeId) : (levels : Nat) → Expansion
  | 0 => gatherAll scope type fun _ gathering => return gathering
  | levels + 1 => gatherAll scope type (gatherWithin scope type levels)

end Selection

namespace Scope

/-- Adds to a gathering what selections ask of a value of an object type. Fragments cannot nest
deeper than there are fragments, since none is expanded twice. -/
def gather (scope : Scope) (type : TypeId) : List Selection → Gathering → Action Gathering :=
  Selection.gatherWithin scope type scope.fragments.length

/-- The fields that selections ask of a value of an object type. -/
def collect (scope : Scope) (type : TypeId) (selections : List Selection) : Action Collected := do
  return (← scope.gather type selections .empty).fields

/-- The fields that the nodes of one field together ask of its value. -/
def gatherNodes (scope : Scope) (type : TypeId) : List FieldNode → Gathering → Action Gathering
  | [], gathering => return gathering
  | node :: rest, gathering => do
    scope.gatherNodes type rest (← scope.gather type node.selections gathering)

def collectNodes (scope : Scope) (type : TypeId) (nodes : List FieldNode) : Action Collected := do
  return (← scope.gatherNodes type nodes .empty).fields

end Scope

end GraphQL
