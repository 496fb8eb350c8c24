import GraphQL.Execution.Completion

/-!
Execution of fields and operations. The fields of an object run side by side; the root fields of a
mutation run one after the other, each to its end before the next one starts. How deep objects nest
is bounded, since fragments that spread each other could follow endless data.
-/

namespace GraphQL

namespace Execution

/-- Finds the value of a field that has no resolver: what stands under its name, or what comes back
when that is invoked. -/
def resolveByName (source : Value) (arguments : Value) (info : Info) (next : Reply → Program) :
    Program :=
  match (source.get? info.fieldName).getD .null with
  | .callable handle => .call (.invoke handle arguments info) next
  | .method receiver name =>
    next ((receiver.callMethod name arguments info.environment.context).mapError .value)
  | value => next (.ok value)

/-- Resolves a field: by its own resolver, else by that of the request, else by its name. -/
def resolve (setting : Setting) (field : Field) (source arguments : Value) (info : Info)
    (next : Reply → Program) : Program :=
  if info.fieldName = Field.typenameName then
    next (.ok (setting.schema.definition info.parentType).name)
  else if !field.resolve.isUnset then
    field.resolve.call (fun id => .resolve id source arguments info) next
  else
    match setting.environment.fieldResolver with
    | some id => .call (.resolve id source arguments info) next
    | none => resolveByName source arguments info next

/-- Binds the arguments of a field, resolves it and completes what comes back. -/
def fieldValue (setting : Setting) (below : Completion.Subfields) (field : Field) (type : TypeRef)
    (source : Value) (info : Info) (node : FieldNode) : Program :=
  let arguments :=
    Input.arguments setting.schema.toLayout setting.environment.vars node.start
      node.arguments field.arguments
  .act arguments fun
    | .error failure => .fail failure
    | .ok bound =>
      .perform (.resolving info.path) <|
        resolve setting field source (.map bound) info <| Program.onSuccess fun value =>
          .perform (.resolved info.path value) <| .receive setting value <|
            Program.onSuccess (Completion.complete setting below info type info.path)

/-- Executes one field; there is nothing to execute if the type does not declare it. -/
def field? (setting : Setting) (below : Completion.Subfields) (parent : TypeId) (source : Value)
    (path : ResponsePath) (nodes : List FieldNode) : Option Program :=
  nodes.head?.bind fun node =>
    match setting.schema.field? parent node.name with
    | .error fault => some (.fail (.schema fault))
    | .ok none => none
    | .ok (some field) =>
      match field.type with
      | .error fault => some (.fail (.schema fault))
      | .ok type =>
        let info : Info := ⟨setting.environment, node.name, nodes, type, parent, path⟩
        some ((fieldValue setting below field type source info node).andThen
          (settle type nodes path))

/-- The programs of the declared fields under their response keys. -/
def fieldPrograms (setting : Setting) (below : Completion.Subfields) (parent : TypeId)
    (source : Value) (path : Option ResponsePath) (fields : Collected) : List (String × Program) :=
  fields.filterMap fun (key, nodes) =>
    (field? setting below parent source (.add path (.name key)) nodes).map fun program =>
      (key, program)

def objectOf (keys : List String) (values : List Value) : Value := .ofFields (keys.zip values)

/-- Executes fields side by side, with objects nested up to a number of levels. -/
def fields (setting : Setting) : (levels : Nat) → TypeId → Value → Option ResponsePath → Collected →
    Program
  | 0, _, _, _, _ => .fail .tooDeep
  | levels + 1, parent, source, path, collected =>
    let below : Completion.Subfields := fun type value place selected =>
      fields setting levels type value (some place) selected
    let programs := fieldPrograms setting below parent source path collected
    .join (programs.map (·.2)) (.gathered (objectOf (programs.map (·.1))))

/-- Runs programs one after the other. Only response errors let the next one run. -/
def inTurn (next : Except Failure (List Outcome) → Program) :
    List Program → List Outcome → Program
  | [], settled => next (.ok settled)
  | program :: rest, settled =>
    program.andThen fun
      | .error (.response error) => inTurn next rest (settled ++ [.error (.response error)])
      | .error failure => next (.error failure)
      | .ok value => inTurn next rest (settled ++ [.ok value])

/-- Executes fields one after the other. -/
def fieldsInTurn (setting : Setting) (levels : Nat) (parent : TypeId) (source : Value)
    (collected : Collected) : Program :=
  let below : Completion.Subfields := fun type value place selected =>
    fields setting levels type value (some place) selected
  let programs := fieldPrograms setting below parent source none collected
  inTurn (.gathered (objectOf (programs.map (·.1)))) (programs.map (·.2)) []

/-- A response error that reaches the root is recorded and leaves no data. -/
def settleRoot : Outcome → Program
  | .error (.response error) => .perform (.record error) (.succeed .null)
  | outcome => .done outcome

end Execution

mutual

/-- The number of fields in a selection. -/
def Selection.fieldCount : Selection → Nat
  | .field _ _ _ _ _ selections => 1 + Selection.fieldCounts selections
  | .inlineFragment _ _ _ selections => Selection.fieldCounts selections
  | .spread .. => 0

def Selection.fieldCounts : List Selection → Nat
  | [] => 0
  | selection :: rest => Selection.fieldCount selection + Selection.fieldCounts rest

end

namespace Environment

/-- How many levels objects may nest beyond what the fields of a document allow for. -/
def spareLevels : Nat := 1000

/-- Without endless fragments, no object nests deeper than there are fields. -/
def levels (environment : Environment) : Nat :=
  Selection.fieldCounts environment.operation.selections
    + (environment.fragments.map fun fragment =>
      Selection.fieldCounts fragment.selections).foldr (· + ·) 0
    + spareLevels

end Environment

/-- How the fields at the root are executed. -/
inductive RootOrder where
  | sideBySide
  | inTurn
deriving DecidableEq, Repr

def OperationKind.rootOrder : OperationKind → RootOrder
  | .mutation => .inTurn
  | .query | .subscription => .sideBySide

namespace Execution

def rootFields (setting : Setting) (order : RootOrder) (root : TypeId) (collected : Collected) :
    Program :=
  let environment := setting.environment
  match order with
  | .inTurn => fieldsInTurn setting environment.levels root environment.root collected
  | .sideBySide => fields setting (environment.levels + 1) root environment.root none collected

/-- Executes an operation on the type at its root, its fields in the given order. -/
def operationIn (setting : Setting) (order : RootOrder) (root : TypeId) : Program :=
  (Program.act (setting.scope.collect root setting.environment.operation.selections) fun
    | .error failure => .fail failure
    | .ok collected => rootFields setting order root collected).andThen settleRoot

/-- Executes an operation on the type at its root. -/
def operation (setting : Setting) (root : TypeId) : Program :=
  operationIn setting setting.environment.operation.kind.rootOrder root

end Execution

end GraphQL
