import GraphQL.Name
import GraphQL.Schema.Subtype

/-!
Well-formed schemas. `Schema.check` finds the first fault of a schema, in the order of its type map
and, within a type, in the order of its declaration.
-/

namespace GraphQL

/-- Refuses a name, saying whose name it is. -/
def checkNameOf (owner : Option String) (name : Value) : Checked Unit :=
  match nameProblem name with
  | none => .ok ()
  | some problem => .error (.badName owner problem.message)

/-- Refuses what fails a test. -/
def require (holds : Bool) (fault : SchemaFault) : Checked Unit :=
  if holds then .ok () else .error fault

/-- Refuses what is neither absent nor a function. -/
def Slot.check (slot : Slot) (fault : String → SchemaFault) : Checked Unit :=
  require (slot.isAbsent || slot.isCallable) (fault slot.shown)

namespace Layout

/-- Refuses a type that is not of a class of types. -/
def checkType (layout : Layout) (test : TypeRef → Checked Bool) (ref : TypeRef)
    (fault : String → SchemaFault) : Checked Unit := do
  require (← test ref) (fault (layout.shown ref))

def checkArgument (layout : Layout) (field : String) (argument : InputValue) : Checked Unit := do
  let owner := field ++ "(" ++ nameText argument.name ++ ":)"
  checkNameOf owner argument.name
  layout.checkType layout.isInputType (← argument.type) (.argumentNotInput owner)

def checkField (layout : Layout) (parent : String) (field : Field) : Checked Unit := do
  let owner := parent ++ "." ++ nameText field.name
  checkNameOf owner field.name
  layout.checkType layout.isOutputType (← field.type) (.fieldNotOutput owner)
  field.resolve.check (.resolverNotFunction owner)
  field.complexity.check (.complexityNotFunction owner)
  (← field.arguments).items.forM (layout.checkArgument owner)

/-- An implementing type takes every argument of the interface's field, with the same type. -/
def checkImplementedArgument (layout : Layout) (type interface field : String)
    (own : Table InputValue) (entry : Value × InputValue) : Checked Unit := do
  let name := nameText entry.1
  match own.get? entry.1 with
  | none => throw (.argumentMissing interface field name type)
  | some argument =>
    let ownType ← argument.type
    let expected ← entry.2.type
    require (← ownType.denotesSame expected)
      (.argumentTypeMismatch interface field name (layout.shown expected) type
        (layout.shown ownType))

/-- An implementing type has every field of the interface, with a type that can stand for it. -/
def checkImplementedField (layout : Layout) (type interface : String) (own : Table Field)
    (entry : Value × Field) : Checked Unit := do
  let name := nameText entry.1
  match own.get? entry.1 with
  | none => throw (.fieldMissing interface name type)
  | some field =>
    let ownType ← field.type
    let expected ← entry.2.type
    require (← layout.isSubtype ownType expected)
      (.fieldTypeMismatch interface name (layout.shown expected) type (layout.shown ownType))
    let expectedArguments ← entry.2.arguments
    if expectedArguments.isEmpty then return
    let ownArguments ← field.arguments
    expectedArguments.entries.forM
      (layout.checkImplementedArgument type interface name ownArguments)

/-- Checks the interfaces that a type declares, given the names of those before. -/
def checkInterfaces (layout : Layout) (type : String) (own : Table Field) :
    List Candidate → List Value → Checked Unit
  | [], _ => .ok ()
  | candidate :: rest, seen =>
    match candidate.named? with
    | none => .error (.notInterface type (layout.catalog.candidateShown candidate))
    | some id =>
      let interface := layout.definition id
      match interface.body with
      | .interface fields .. => do
        if seen.any (·.equals interface.name) then throw (.interfaceTwice type interface.label)
        (← fields).entries.forM (layout.checkImplementedField type interface.label own)
        layout.checkInterfaces type own rest (seen ++ [interface.name])
      | _ => .error (.notInterface type (layout.catalog.candidateShown candidate))

def checkFieldsType (layout : Layout) (type : String) (fields : Checked (Table Field))
    (interfaces : Checked (List Candidate)) : Checked Unit := do
  let own ← fields
  require (!own.isEmpty) (.noFields type)
  own.items.forM (layout.checkField type)
  layout.checkInterfaces type own (← interfaces) []

/-- Checks the members of a union, given the names of those before. -/
def checkMembers (layout : Layout) (union : String) : List Candidate → List Value → Checked Unit
  | [], _ => .ok ()
  | candidate :: rest, seen =>
    match candidate.named?.filter fun id => layout.kindOf id = .object with
    | none => .error (.memberNotObject union (layout.catalog.candidateShown candidate))
    | some id =>
      let name := (layout.definition id).name
      if seen.any (·.equals name) then .error (.memberTwice union (layout.label id))
      else layout.checkMembers union rest (seen ++ [name])

def reservedEnumNames : List String := ["true", "false", "null"]

def checkEnumName (type : String) (name : Value) : Checked Unit := do
  checkNameOf (type ++ "." ++ nameText name) name
  require (!(reservedEnumNames.contains (nameText name))) (.reservedEnumName type (nameText name))

def checkScalar (type : String) : ScalarRule → Checked Unit
  | .standard _ => .ok ()
  | .custom serialize parseValue parseLiteral => do
    require serialize.isCallable (.noSerialize type)
    require
      ((parseValue.isAbsent && parseLiteral.isAbsent)
        || (parseValue.isCallable && parseLiteral.isCallable))
      (.halfParsed type)

def checkInputField (layout : Layout) (type : String) (field : InputValue) : Checked Unit := do
  let owner := type ++ "." ++ nameText field.name
  checkNameOf owner field.name
  layout.checkType layout.isInputType (← field.type) (.inputFieldNotInput owner)

def checkDefinition (layout : Layout) (type : TypeDef) : Checked Unit := do
  checkNameOf none type.name
  let label := type.label
  match type.body with
  | .scalar rule => checkScalar label rule
  | .enum values => do
    let values ← values
    require (!values.isEmpty) (.noEnumValues label)
    values.names.forM (checkEnumName label)
  | .object fields interfaces isTypeOf => do
    layout.checkFieldsType label fields interfaces
    isTypeOf.check (.isTypeOfNotFunction label)
  | .interface fields interfaces resolveType => do
    layout.checkFieldsType label fields interfaces
    resolveType.check (.resolveTypeNotFunction label)
  | .union members resolveType => do
    let members ← members
    require (!members.isEmpty) (.noMembers label)
    layout.checkMembers label members []
    resolveType.check (.resolveTypeNotFunction label)
  | .input fields => do
    let fields ← fields
    require (!fields.isEmpty) (.noFields label)
    fields.items.forM (layout.checkInputField label)

def checkDirectiveArgument (layout : Layout) (directive : String) (argument : InputValue) :
    Checked Unit := do
  let owner := directive ++ "(" ++ nameText argument.name ++ ":)"
  checkNameOf owner argument.name
  layout.checkType layout.isInputType (← argument.type) (.directiveArgumentNotInput owner)

def checkDirective (layout : Layout) (directive : Directive) : Checked Unit := do
  checkNameOf none directive.name
  require (!directive.locations.isEmpty) (.directiveWithoutLocation (nameText directive.name))
  (← directive.arguments).items.forM (layout.checkDirectiveArgument directive.text)

/-- Checks directives, given the names of those before. -/
def checkDirectives (layout : Layout) : List Directive → List Value → Checked Unit
  | [], _ => .ok ()
  | directive :: rest, seen => do
    layout.checkDirective directive
    require (!(seen.any (·.equals directive.name))) (.directiveTwice (nameText directive.name))
    layout.checkDirectives rest (seen ++ [directive.name])

def checkRoot (layout : Layout) (operation : String) (root : Option Candidate) : Checked Unit :=
  match root with
  | none => .ok ()
  | some candidate =>
    require (candidate.named?.any fun id => layout.kindOf id = .object)
      (.rootNotObject operation (layout.catalog.candidateShown candidate))

end Layout

namespace Schema

/-- Every possible type of an interface implements it. -/
def checkPossibleTypes (schema : Schema) (id : TypeId) : Checked Unit := do
  match schema.kindOf id with
  | .interface =>
    (← schema.possibleTypes id).forM fun candidate => do
      match candidate.named? with
      | some implementation =>
        require (← schema.implements implementation id)
          (.possibleTypeForeign (schema.label id) (schema.label implementation))
      | none => return
  | _ => return

/-- Finds the first fault of a schema that is not assumed to be well-formed. -/
def check (schema : Schema) : Checked Unit := do
  if schema.assumeValid then return
  require schema.query.isSome .noQuery
  schema.checkRoot "Query" schema.query
  schema.checkRoot "Mutation" schema.mutation
  schema.checkRoot "Subscription" schema.subscription
  let found ← schema.reached
  found.forM fun (_, id) => schema.checkDefinition (schema.definition id)
  found.forM fun (_, id) => schema.checkPossibleTypes id
  schema.checkDirectives schema.directives []

end Schema

end GraphQL
