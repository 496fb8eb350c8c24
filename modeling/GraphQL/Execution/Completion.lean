import GraphQL.Execution.RuntimeType
import GraphQL.Value.Parts

/-!
Completion turns a resolved value into the value of its type in the response: leaves are serialized,
list items become positions of their own, and objects have their selected fields executed.
-/

namespace GraphQL

namespace Completion

/-- Executes the fields that are selected on an object. -/
abbrev Subfields := TypeId → Value → ResponsePath → Collected → Program

/-- A resolver may return an error instead of raising it. -/
def raised? (value : Value) : Option Failure :=
  (Failure.ofValue? value).filter fun failure => !failure.isFatal

/-- The items of a resolved list. Texts and maps are no lists. -/
def listItems? (value : Value) : Option (List Value) :=
  match value with
  | .list items | .growing _ items | .tuple items | .set items _ => some items
  | _ => none

def problem (info : Info) (setting : Setting) (build : String → String → CompletionProblem) :
    Failure :=
  (build (setting.schema.label info.parentType) info.fieldName).failure

/-- Refuses null. -/
def requireValue (setting : Setting) (info : Info) : Outcome → Program :=
  Program.onSuccess fun value =>
    if value.isNull then .fail (problem info setting .nullForNonNull) else .succeed value

/-- Writes a leaf. A form that is itself deferred is waited for and taken as it comes. -/
def leaf (setting : Setting) (type : TypeId) (value : Value) : Program :=
  let inEffect := setting.schema.leafInEffect type
  .act (setting.schema.serialize inEffect value) fun
    | .error failure => .fail failure
    | .ok (.deferred ticket) => .await ticket .done
    | .ok written =>
      if written.isNull || written.isUndefined then
        .fail (CompletionProblem.failure
          (.notSerialized (setting.schema.label inEffect) value.shown))
      else .succeed written

/-- The fields selected on an object, collected once for each type and group of nodes. -/
def subfields (setting : Setting) (type : TypeId) (nodes : List FieldNode)
    (next : Except Failure Collected → Program) : Program :=
  let key : SubfieldKey := ⟨(setting.schema.definition type).name, nodes⟩
  .consult key fun
    | some fields => next (.ok fields)
    | none =>
      .act (setting.scope.collectNodes type nodes) fun
        | .ok fields => .perform (.remember key fields) (next (.ok fields))
        | .error failure => next (.error failure)

def executeSubfields (setting : Setting) (below : Subfields) (info : Info) (type : TypeId)
    (path : ResponsePath) (value : Value) : Program :=
  subfields setting type info.nodes fun
    | .ok fields => below type value path fields
    | .error failure => .fail failure

/-- Executes the selections made on an object, once the type, if it has a test, claims the value. -/
def object (setting : Setting) (below : Subfields) (info : Info) (type : TypeId)
    (path : ResponsePath) (value : Value) : Program :=
  let test := (setting.schema.definition type).isTypeOf
  if test.isAbsent then executeSubfields setting below info type path value
  else
    test.call (fun id => .isTypeOf id type value info) <| Program.onSuccess fun result =>
      .receive setting result <| Program.onSuccess fun holds =>
        if holds.isTruthy then executeSubfields setting below info type path value
        else
          .fail (RuntimeType.problem (.wrongType (setting.schema.label type) value.shown) info)

def abstract (setting : Setting) (below : Subfields) (info : Info) (type : TypeId)
    (path : ResponsePath) (value : Value) : Program :=
  RuntimeType.find setting info type value <| Program.onSuccess fun found =>
    match RuntimeType.check setting info type value found with
    | .ok id => object setting below info id path value
    | .error failure => .fail failure

/-- Completes a value of a named type. -/
def named (setting : Setting) (below : Subfields) (info : Info) (type : TypeId)
    (path : ResponsePath) (value : Value) : Program :=
  match setting.schema.kindOf type with
  | .scalar | .enum => leaf setting type value
  | .interface | .union => abstract setting below info type path value
  | .object => object setting below info type path value
  | .input => .fail (.assertion (.outputType (setting.schema.shown (.named type))))

/-- Completes items side by side, each at a position of its own. -/
def items (setting : Setting) (info : Info) (type : TypeRef) (path : ResponsePath)
    (complete : ResponsePath → Value → Program) (values : List Value) : Program :=
  let position (item : Value) (index : Nat) : Program :=
    let place := path.extend (.index index)
    (Program.receive setting item (.onSuccess (complete place))).andThen
      (settle type info.nodes place)
  match type with
  | .broken fault => .fail (.schema fault)
  | _ =>
    .perform (.listed path values) <|
      .join (values.zipIdx.map fun (item, index) => position item index) (.gathered .list)

/-- Completes a list. An iterator is taken out first; if it fails, its items are given up. -/
def list (setting : Setting) (info : Info) (type : TypeRef) (path : ResponsePath)
    (complete : ResponsePath → Value → Program) (value : Value) : Program :=
  match value with
  | .iterator handle =>
    .drain handle fun values fault =>
      match fault with
      | none => items setting info type path complete values
      | some failure =>
        if failure.isFatal then .fail failure
        else .closing (values.filterMap Value.ticket?) (.fail failure)
  | value =>
    match listItems? value with
    | some values => items setting info type path complete values
    | none => .fail (problem info setting .notIterable)

/-- Completes a value of a type. -/
def complete (setting : Setting) (below : Subfields) (info : Info) (type : TypeRef)
    (path : ResponsePath) (value : Value) : Program :=
  match raised? value with
  | some failure => .fail failure
  | none =>
    match type with
    | .nonNull of => (complete setting below info of path value).andThen (requireValue setting info)
    | .list of =>
      if value.isNull then .succeed .null
      else list setting info of path (complete setting below info of) value
    | .named id => if value.isNull then .succeed .null else named setting below info id path value
    | .broken fault => .fail (.schema fault)

end Completion

end GraphQL
