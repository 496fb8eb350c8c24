import GraphQL.Schema
import GraphQL.Value.Parts

/-!
Schemas as they are declared. A declaration may name types before they exist, leave a type to be
worked out later, or hold something that is no type at all; `SchemaDeclaration.schema` turns it into
a `Schema`, in which every such place holds a type or the fault that its first use meets.
-/

namespace GraphQL

inductive TypeExpr where
  | named (id : TypeId)
  | list (of : TypeExpr)
  | nonNull (of : TypeExpr)
  /-- Worked out on first use. -/
  | later (of : TypeExpr)
  | other (value : Value)
deriving Inhabited

namespace TypeExpr

/-- The type that a text such as `[Int!]!` refers to, by what the name in it stands for. The text
comes with its last character first. -/
def ofReversed? (find? : String → Option TypeId) : List Char → Option TypeExpr
  | '!' :: rest => (ofReversed? find? rest).map nonNull
  | ']' :: rest =>
    if rest.getLast? = some '[' then (ofReversed? find? rest.dropLast).map list else none
  | cs => (find? (String.ofList cs.reverse)).map named
termination_by cs => cs.length
decreasing_by all_goals simp; try omega

def read? (find? : String → Option TypeId) (text : String) : Option TypeExpr :=
  ofReversed? find? text.toList.reverse

def isLater : TypeExpr → Bool
  | later _ => true
  | _ => false

def wrapped (wrapper : String) : Candidate → TypeRef
  | .type ref => ref
  | .other value => .broken (.wrappedNotType wrapper value.shown)

/-- What is wrong with a non-null type of something, if that is non-null itself. -/
def doubling? (catalog : Catalog) (inner : Candidate) : Option SchemaFault :=
  match inner with
  | .type (.nonNull of) =>
    match catalog.text (.nonNull of) with
    | .ok text => some (.nonNullOfNonNull text)
    | .error (.schema fault) => some fault
    | .error _ => some (.nonNullOfNonNull (catalog.shown (.nonNull of)))
  | _ => none

def wrappedLater (wrapper : String) : Checked Candidate → TypeRef
  | .ok inner => wrapped wrapper inner
  | .error fault => .broken fault

def nullableLater (catalog : Catalog) (inner : Checked Candidate) : TypeRef :=
  match inner.toOption.bind (doubling? catalog) with
  | some fault => .broken fault
  | none => wrappedLater "NonNullType" inner

/-- What an expression stands for when it is built. An inner part that is to be worked out later
shows its fault only where the type is looked into. -/
def build (catalog : Catalog) : TypeExpr → Checked Candidate
  | named id => .ok (.named id)
  | other value => .ok (.ofValue value)
  | later _ => .ok (.other (.callable 0))
  | list (later of) => .ok (.type (.list (wrappedLater "ListType" (of.build catalog))))
  | list of => do return .type (.list (wrapped "ListType" (← of.build catalog)))
  | nonNull (later of) => .ok (.type (.nonNull (nullableLater catalog (of.build catalog))))
  | nonNull of => do
    let inner ← of.build catalog
    match doubling? catalog inner with
    | some fault => .error fault
    | none => return .type (.nonNull (wrapped "NonNullType" inner))

/-- What an expression stands for when it is used. -/
def resolve (catalog : Catalog) : TypeExpr → Checked Candidate
  | later of => of.build catalog
  | type => type.build catalog

/-- Whether building the expression, without using it, succeeds. -/
def check (catalog : Catalog) (type : TypeExpr) : Checked Unit := do
  let _ ← type.build catalog

/-- The type that an expression stands for, where nothing else will do. -/
def type (catalog : Catalog) (fault : String → SchemaFault) (expr : TypeExpr) :
    Checked TypeRef := do
  match ← expr.resolve catalog with
  | .type ref => return ref
  | .other value => throw (fault value.shown)

end TypeExpr

/-- What stands under a name: a full declaration, or only its type. -/
inductive Entry (δ : Type) where
  | declared (item : δ)
  | bare (type : TypeExpr)

/-- Declarations under their names, or something else in their place. -/
inductive Entries (δ : Type) where
  | listed (entries : List (Value × Entry δ))
  | other (value : Value)

namespace Entries

def none : Entries δ := listed []

/-- The entries, if there is a mapping of any kind. -/
def toList? : Entries δ → Option (List (Value × Entry δ))
  | listed entries => some entries
  | other value =>
    value.entries?.map fun entries => entries.map fun (name, found) => (name, .bare (.other found))

/-- What stands in place of a mapping, as a message shows it. -/
def shown : Entries δ → String
  | listed _ => ""
  | other value => value.shown

end Entries

structure InputDeclaration where
  type : TypeExpr
  default : Value
  name : Option Value

structure FieldDeclaration where
  type : TypeExpr
  arguments : Entries InputDeclaration
  resolve : Slot
  complexity : Slot
  deprecated : Option String
  name : Option Value

inductive EnumEntry where
  /-- Without a value of its own, the entry stands for its name. -/
  | declared (value : Value) (deprecated : Option String)
  | bare (value : Value)

inductive EnumDeclaration where
  | mapping (entries : List (Value × EnumEntry))
  | names (names : List Value)
  | other (value : Value)

inductive MemberDeclaration where
  | listed (members : List TypeExpr)
  | other (value : Value)

inductive BodyDeclaration where
  | scalar (serialize parseValue parseLiteral : Slot)
  | enum (values : EnumDeclaration)
  | object (fields : Entries FieldDeclaration) (interfaces : MemberDeclaration) (isTypeOf : Slot)
  | interface (fields : Entries FieldDeclaration) (interfaces : MemberDeclaration)
      (resolveType : Slot)
  | union (members : MemberDeclaration) (resolveType : Slot)
  | input (fields : Entries InputDeclaration)

structure TypeDeclaration where
  name : Value
  body : BodyDeclaration

def BodyDeclaration.kind : BodyDeclaration → TypeKind
  | scalar .. => .scalar
  | enum _ => .enum
  | object .. => .object
  | interface .. => .interface
  | union .. => .union
  | input _ => .input

def Catalog.ofDeclarations (types : List TypeDeclaration) : Catalog :=
  ⟨(types.map fun type => (type.body.kind, type.name)).toArray⟩

structure DirectiveDeclaration where
  name : Value
  locations : List String
  arguments : Entries InputDeclaration

inductive DirectiveEntry where
  /-- All directives of the specification. -/
  | specified
  | declared (directive : DirectiveDeclaration)

structure SchemaDeclaration where
  types : List TypeDeclaration
  query : Option TypeExpr := none
  mutation : Option TypeExpr := none
  subscription : Option TypeExpr := none
  extra : List TypeExpr := []
  directives : List DirectiveEntry := [.specified]
  overrides : List TypeExpr := []
  assumeValid : Bool := false

namespace Declaration

/-- Names must be fit for looking up by. -/
def checkName (name : Value) : Checked Unit :=
  match name.unhashable? with
  | some part => .error (.unhashableName part.typeName)
  | none => .ok ()

def checkInputs (catalog : Catalog) : Entries InputDeclaration → Checked Unit
  | .other _ => .ok ()
  | .listed entries => entries.forM fun (name, entry) => do
    checkName name
    match entry with
    | .declared input => input.type.check catalog
    | .bare type => type.check catalog

/-- The name that a declaration goes by: its own, if that is the name it stands under. -/
def agreedName (own : Option Value) (name : Value) : Option Value :=
  match own with
  | none => some name
  | some own => if own.equals name then some own else none

def input (catalog : Catalog) (owner role : String) (name : Value) (declared : InputDeclaration) :
    Checked InputValue :=
  match agreedName declared.name name with
  | some agreed =>
    .ok
      { name := agreed
        type := declared.type.type catalog (.inputTypeNotType (nameText agreed))
        default := declared.default }
  | none =>
    .error (.inputMisnamed owner role (nameText (declared.name.getD .null)) (nameText name))

def inputOfEntry (catalog : Catalog) (owner role : String) (name : Value) :
    Entry InputDeclaration → Checked InputValue
  | .declared declared => input catalog owner role name declared
  | .bare type => do
    let fromType := input catalog owner role name ⟨type, .undefined, none⟩
    match ← type.build catalog with
    | .type _ => fromType
    | .other value =>
      if value.isCallable then fromType
      else throw (.inputNotType owner (nameText name) role value.shown)

/-- Arguments or input fields under their names. -/
def inputs (catalog : Catalog) (owner role : String) (declared : Entries InputDeclaration) :
    Inputs :=
  match declared.toList? with
  | none => .error (.inputsNotMapping owner declared.shown)
  | some entries => do
    let made ← entries.mapM fun (name, entry) =>
      return (name, ← inputOfEntry catalog owner role name entry)
    return .ofList made

/-- Arguments that are not given are none. -/
def arguments (catalog : Catalog) (owner : String) (declared : Entries InputDeclaration) : Inputs :=
  match declared with
  | .other .null => inputs catalog owner "Argument" .none
  | declared => inputs catalog owner "Argument" declared

def checkFields (catalog : Catalog) : Entries FieldDeclaration → Checked Unit
  | .other _ => .ok ()
  | .listed entries => entries.forM fun (name, entry) => do
    checkName name
    match entry with
    | .declared field => do
      field.type.check catalog
      checkInputs catalog field.arguments
    | .bare type => type.check catalog

def field (catalog : Catalog) (parent : String) (name : Value) (declared : FieldDeclaration) :
    Checked Field :=
  match agreedName declared.name name with
  | some agreed =>
    .ok
      { name := agreed
        type := declared.type.type catalog (.fieldTypeNotType (nameText agreed))
        arguments :=
          arguments catalog ("Arguments of field " ++ nameText agreed) declared.arguments
        resolve := declared.resolve
        complexity := declared.complexity
        deprecated := declared.deprecated }
  | none => .error (.fieldMisnamed parent (nameText name) (nameText (declared.name.getD .null)))

def fieldOfEntry (catalog : Catalog) (parent : String) (name : Value) :
    Entry FieldDeclaration → Checked Field
  | .declared declared => field catalog parent name declared
  | .bare type => do
    match ← type.build catalog with
    | .type _ => field catalog parent name ⟨type, .none, .absent, .absent, none, none⟩
    | .other value => throw (.fieldNotType parent (nameText name) value.shown)

def fields (catalog : Catalog) (parent : String) (declared : Entries FieldDeclaration) :
    Checked (Table Field) := do
  checkFields catalog declared
  match declared.toList? with
  | none => throw (.fieldsNotMapping parent)
  | some entries =>
    let made ← entries.mapM fun (name, entry) =>
      return (name, ← fieldOfEntry catalog parent name entry)
    return .ofList made

def enumValue (name : Value) : EnumEntry → EnumValue
  | .declared .undefined deprecated => ⟨name, name, deprecated⟩
  | .declared value deprecated => ⟨name, value, deprecated⟩
  | .bare value => ⟨name, value, none⟩

def enumNames (type : String) (names : List Value) : Checked (Table EnumValue) := do
  let made ← names.mapM fun name =>
    match name with
    | .str _ => .ok (name, ⟨name, name, none⟩)
    | other => .error (SchemaFault.enumNameNotText type other.shown)
  return .ofList made

def enumMapping (entries : List (Value × EnumEntry)) : Checked (Table EnumValue) := do
  let made ← entries.mapM fun (name, entry) => do
    checkName name
    return (name, enumValue name entry)
  return .ofList made

def enumValues (type : String) : EnumDeclaration → Checked (Table EnumValue)
  | .mapping entries => enumMapping entries
  | .names names => enumNames type names
  | .other (.map entries) => enumMapping (entries.map fun (name, value) => (name, .bare value))
  | .other value =>
    match if value.string?.isSome then none else value.items? with
    | some names => enumNames type names
    | none => .error (.enumValuesNotIterable type value.shown)

def members (catalog : Catalog) (fault : SchemaFault) :
    MemberDeclaration → Checked (List Candidate)
  | .listed members => members.mapM (·.build catalog)
  | .other value =>
    match value.items? with
    | some items => .ok (items.map .ofValue)
    | none => .error fault

def body (catalog : Catalog) (label : String) : BodyDeclaration → TypeBody
  | .scalar serialize parseValue parseLiteral => .scalar (.custom serialize parseValue parseLiteral)
  | .enum values => .enum (enumValues label values)
  | .object declared interfaces isTypeOf =>
    .object (fields catalog label declared)
      (members catalog (.interfacesNotIterable label) interfaces) isTypeOf
  | .interface declared interfaces resolveType =>
    .interface (fields catalog label declared)
      (members catalog (.interfacesNotIterable label) interfaces) resolveType
  | .union declared resolveType =>
    .union (members catalog (.membersNotIterable label) declared) resolveType
  | .input declared =>
    .input (do
      checkInputs catalog declared
      inputs catalog (label ++ " fields") "InputField" declared)

def typeDef (catalog : Catalog) (declared : TypeDeclaration) : TypeDef :=
  ⟨declared.name, body catalog (nameText declared.name) declared.body⟩

def directive (catalog : Catalog) (declared : DirectiveDeclaration) : Checked Directive := do
  checkInputs catalog declared.arguments
  return {
    name := declared.name
    locations := declared.locations
    arguments :=
      arguments catalog ("Arguments of @" ++ nameText declared.name) declared.arguments }

def directivesOf (catalog : Catalog) : DirectiveEntry → Checked (List Directive)
  | .specified => .ok Directive.specified
  | .declared declared => do return [← directive catalog declared]

def root (catalog : Catalog) (declared : Option TypeExpr) : Checked (Option Candidate) :=
  match declared with
  | none => .ok none
  | some type => do
    match ← type.build catalog with
    | .other .null => return none
    | candidate => return some candidate

/-- The scalar whose place a type takes: the specified one of its name. -/
def override (catalog : Catalog) (candidate : Candidate) : Checked (Standard × TypeId) :=
  match candidate.named?.filter fun id => (catalog.kind id).isLeaf with
  | none => .error (.overrideNotLeaf (catalog.candidateShown candidate))
  | some id =>
    let name := catalog.name id
    match name.unhashable? with
    | some part => .error (.unhashableName part.typeName)
    | none =>
      match Standard.specified.find? fun scalar => name.equals (.str scalar.name) with
      | some scalar => .ok (scalar, id)
      | none => .error (.overrideNotStandard name.shown)

end Declaration

open Declaration in
/-- The schema that is declared. Of two overrides of one scalar the later one counts. -/
def SchemaDeclaration.schema (declared : SchemaDeclaration) : Checked Schema := do
  let catalog := Catalog.ofDeclarations declared.types
  let query ← root catalog declared.query
  let mutation ← root catalog declared.mutation
  let subscription ← root catalog declared.subscription
  let extra ← declared.extra.mapM (·.build catalog)
  let directives ← declared.directives.mapM (directivesOf catalog)
  let overriding ← declared.overrides.mapM (·.build catalog)
  let overrides ← overriding.mapM (override catalog)
  return .ofLayout
    { types := (declared.types.map (typeDef catalog)).toArray
      query
      mutation
      subscription
      extra
      directives := directives.flatten
      overrides := overrides.reverse
      assumeValid := declared.assumeValid }

end GraphQL
