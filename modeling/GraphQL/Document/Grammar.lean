import GraphQL.Document.Token

/-!
The grammar of query documents. `Document.parse` reads a whole source; `Literal.parse` and
`TypeNode.parse` read a source that is one value or one type. Definitions of types are read to the
end but leave nothing behind. Every recursive rule counts down from the length of the source, which
no rule can exceed because each step takes at least one token.
-/

namespace GraphQL

namespace Grammar

/-- The current token, the source behind it, and how many brackets stand open around it. -/
structure Position where
  token : Token
  cursor : Cursor
  depth : Nat := 0
deriving Inhabited

abbrev Rule := StateT Position (Except SyntaxFault)

def fail (offset : Nat) (problem : SyntaxProblem) : Rule α := throw ⟨problem, offset⟩

def current : Rule Token := return (← get).token

/-- Takes the current token and reads the next one. -/
def advance : Rule Token := do
  let position ← get
  let (token, cursor) ← Token.next position.cursor
  set { position with token, cursor }
  return position.token

/-- The token behind the current one. -/
def following : Rule Token := do
  let position ← get
  let (token, _) ← Token.next position.cursor
  return token

/-- How deep selection sets, lists and objects may stand inside one another. -/
def nestingLimit : Nat := 200

/-- Runs a rule one level further inside. -/
def nested (rule : Rule α) : Rule α := do
  let outside ← get
  if nestingLimit ≤ outside.depth then fail outside.token.start .tooDeep
  set { outside with depth := outside.depth + 1 }
  let made ← rule
  modify ({ · with depth := outside.depth })
  return made

def unexpected (token : Token) : Rule α := fail token.start (.unexpected token)

def sees (kind : TokenKind) : Rule Bool := return (← current).kind = kind

def expect (kind : TokenKind) : Rule Token := do
  let token ← current
  if token.kind = kind then advance else fail token.start (.expected kind token)

/-- Takes a token of a kind if it comes next. -/
def accept (kind : TokenKind) : Rule Bool := do
  if ← sees kind then
    let _ ← advance
    return true
  return false

def isKeyword (token : Token) (word : String) : Bool :=
  token.kind = .name && token.value = some word

def expectKeyword (word : String) : Rule Unit := do
  let token ← current
  if isKeyword token word then
    let _ ← advance
  else fail token.start (.expectedKeyword word token)

def acceptKeyword (word : String) : Rule Bool := do
  if isKeyword (← current) word then
    let _ ← advance
    return true
  return false

/-- Repeats a rule up to a closing token. -/
def upTo (close : TokenKind) (item : Rule α) : Nat → Rule (List α)
  | 0 => return []
  | steps + 1 => do
    if ← accept close then return []
    let first ← item
    return first :: (← upTo close item steps)

/-- Any number of items between two marks. -/
def between (steps : Nat) (opening : TokenKind) (item : Rule α) (close : TokenKind) :
    Rule (List α) := do
  let _ ← expect opening
  upTo close item steps

/-- At least one item between two marks. -/
def many (steps : Nat) (opening : TokenKind) (item : Rule α) (close : TokenKind) :
    Rule (List α) := do
  let _ ← expect opening
  let first ← item
  return first :: (← upTo close item steps)

/-- As `many`, or nothing when the opening mark does not come next. -/
def optional (steps : Nat) (opening : TokenKind) (item : Rule α) (close : TokenKind) :
    Rule (List α) := do
  if ← sees opening then many steps opening item close else return []

def separatedRest (mark : TokenKind) (item : Rule α) : Nat → Rule (List α)
  | 0 => return []
  | steps + 1 => do
    if ← accept mark then
      let next ← item
      return next :: (← separatedRest mark item steps)
    return []

/-- At least one item, with marks between them and perhaps one in front. -/
def separated (steps : Nat) (mark : TokenKind) (item : Rule α) : Rule (List α) := do
  let _ ← accept mark
  let first ← item
  return first :: (← separatedRest mark item steps)

def name : Rule String := do
  let token ← expect .name
  return token.value.getD ""

def named (token : Token) : Literal :=
  match token.value.getD "" with
  | "true" => .boolean token.start true
  | "false" => .boolean token.start false
  | "null" => .null token.start
  | word => .enum token.start word

def variableReference : Rule Literal := do
  let token ← expect .dollar
  return .reference token.start (← name)

/-- A constant holds no variable. -/
def refuseVariable : Rule Literal := do
  let mark ← expect .dollar
  let token ← current
  if token.kind = .name then fail mark.start (.constantVariable (token.value.getD ""))
  else unexpected mark

def literal (isConstant : Bool) : Nat → Rule Literal
  | 0 => do unexpected (← current)
  | steps + 1 => do
    let token ← current
    match token.kind with
    | .bracketLeft =>
      return .list token.start
        (← nested (between steps .bracketLeft (literal isConstant steps) .bracketRight))
    | .braceLeft =>
      let field : Rule (String × Literal) := do
        let key ← name
        let _ ← expect .colon
        return (key, ← literal isConstant steps)
      return .object token.start (← nested (between steps .braceLeft field .braceRight))
    | .int =>
      let _ ← advance
      return .int token.start (token.value.getD "")
    | .float =>
      let _ ← advance
      return .float token.start (token.value.getD "")
    | .string =>
      let _ ← advance
      return .string token.start (token.value.getD "") false
    | .blockString =>
      let _ ← advance
      return .string token.start (token.value.getD "") true
    | .name =>
      let _ ← advance
      return named token
    | .dollar => if isConstant then refuseVariable else variableReference
    | _ => unexpected token

def typeNode : Nat → Rule TypeNode
  | 0 => do unexpected (← current)
  | steps + 1 => do
    let token ← current
    let inner ←
      if ← accept .bracketLeft then do
        let of ← nested (typeNode steps)
        let _ ← expect .bracketRight
        pure (TypeNode.list token.start of)
      else pure (TypeNode.named token.start (← name))
    if ← accept .bang then return .nonNull inner else return inner

def argument (isConstant : Bool) (steps : Nat) : Rule ArgumentNode := do
  let token ← current
  let key ← name
  let _ ← expect .colon
  return ⟨token.start, key, ← literal isConstant steps⟩

def arguments (isConstant : Bool) (steps : Nat) : Rule (List ArgumentNode) :=
  optional steps .parenLeft (argument isConstant steps) .parenRight

def directive (isConstant : Bool) (steps : Nat) : Rule DirectiveNode := do
  let mark ← expect .atSign
  let key ← name
  return ⟨mark.start, key, ← arguments isConstant steps⟩

def directives (isConstant : Bool) (steps : Nat) : Nat → Rule (List DirectiveNode)
  | 0 => return []
  | count + 1 => do
    if ← sees .atSign then
      let first ← directive isConstant steps
      return first :: (← directives isConstant steps count)
    return []

def allDirectives (isConstant : Bool) (steps : Nat) : Rule (List DirectiveNode) :=
  directives isConstant steps steps

/-- The name of a fragment is any but `on`. -/
def fragmentName : Rule String := do
  let token ← current
  if token.value = some "on" then unexpected token
  name

def selection : Nat → Rule Selection
  | 0 => do unexpected (← current)
  | steps + 1 => do
    let selectionSet : Rule (List Selection) :=
      nested (many steps .braceLeft (selection steps) .braceRight)
    let token ← current
    if ← accept .spread then
      let conditioned ← acceptKeyword "on"
      if !conditioned && (← sees .name) then
        let key ← fragmentName
        return .spread token.start key (← allDirectives false steps)
      let condition ← if conditioned then some <$> name else pure none
      let marks ← allDirectives false steps
      return .inlineFragment token.start condition marks (← selectionSet)
    let first ← name
    let aliased ← accept .colon
    let key ← if aliased then name else pure first
    let given ← arguments false steps
    let marks ← allDirectives false steps
    let inner ← if ← sees .braceLeft then selectionSet else pure []
    return .field token.start (if aliased then some first else none) key given marks inner

def selectionSet (steps : Nat) : Rule (List Selection) :=
  nested (many steps .braceLeft (selection steps) .braceRight)

def isDescription (token : Token) : Bool :=
  token.kind = .string || token.kind = .blockString

def description : Rule Unit := do
  if isDescription (← current) then
    let _ ← advance

def operationKind : Rule OperationKind := do
  let token ← expect .name
  match token.value with
  | some "query" => return .query
  | some "mutation" => return .mutation
  | some "subscription" => return .subscription
  | _ => unexpected token

def variableDefinition (steps : Nat) : Rule VariableNode := do
  let first ← current
  description
  let _ ← expect .dollar
  let key ← name
  let _ ← expect .colon
  let type ← typeNode steps
  let default ← if ← accept .equals then some <$> literal true steps else pure none
  let _ ← allDirectives true steps
  return ⟨first.start, key, type, default⟩

def operation (steps : Nat) : Rule Operation := do
  let token ← current
  if token.kind = .braceLeft then
    return ⟨token.start, .query, none, [], [], ← selectionSet steps⟩
  description
  let kind ← operationKind
  let key ← if ← sees .name then some <$> name else pure none
  let variableNodes ← optional steps .parenLeft (variableDefinition steps) .parenRight
  let marks ← allDirectives false steps
  return ⟨token.start, kind, key, variableNodes, marks, ← selectionSet steps⟩

def fragmentDefinition (steps : Nat) : Rule Fragment := do
  let token ← current
  description
  expectKeyword "fragment"
  let key ← fragmentName
  expectKeyword "on"
  let condition ← name
  let marks ← allDirectives false steps
  return ⟨token.start, key, condition, marks, ← selectionSet steps⟩

/-- Where a directive may be declared to stand. -/
def directiveLocations : List String :=
  ["QUERY", "MUTATION", "SUBSCRIPTION", "FIELD", "FRAGMENT_DEFINITION", "FRAGMENT_SPREAD",
    "INLINE_FRAGMENT", "VARIABLE_DEFINITION", "SCHEMA", "SCALAR", "OBJECT", "FIELD_DEFINITION",
    "ARGUMENT_DEFINITION", "INTERFACE", "UNION", "ENUM", "ENUM_VALUE", "INPUT_OBJECT",
    "INPUT_FIELD_DEFINITION", "DIRECTIVE_DEFINITION"]

def inputValueDefinition (steps : Nat) : Rule Unit := do
  description
  let _ ← name
  let _ ← expect .colon
  let _ ← typeNode steps
  if ← accept .equals then
    let _ ← literal true steps
  let _ ← allDirectives true steps

def fieldDefinition (steps : Nat) : Rule Unit := do
  description
  let _ ← name
  let _ ← optional steps .parenLeft (inputValueDefinition steps) .parenRight
  let _ ← expect .colon
  let _ ← typeNode steps
  let _ ← allDirectives true steps

def enumValueDefinition (steps : Nat) : Rule Unit := do
  description
  let token ← current
  if token.value = some "true" ∨ token.value = some "false" ∨ token.value = some "null" then
    fail token.start (.reservedEnumValue token)
  let _ ← name
  let _ ← allDirectives true steps

def operationTypeDefinition : Rule Unit := do
  let _ ← operationKind
  let _ ← expect .colon
  let _ ← name

def directiveLocation : Rule Unit := do
  let token ← current
  let key ← name
  if !directiveLocations.contains key then unexpected token

/-- Whether the parts of a definition say anything, which an extension must. -/
def interfaces (steps : Nat) : Rule Bool := do
  if ← acceptKeyword "implements" then
    let _ ← separated steps .ampersand name
    return true
  return false

def fieldsBlock (steps : Nat) : Rule Bool :=
  return !(← optional steps .braceLeft (fieldDefinition steps) .braceRight).isEmpty

def inputFieldsBlock (steps : Nat) : Rule Bool :=
  return !(← optional steps .braceLeft (inputValueDefinition steps) .braceRight).isEmpty

def enumValuesBlock (steps : Nat) : Rule Bool :=
  return !(← optional steps .braceLeft (enumValueDefinition steps) .braceRight).isEmpty

def unionMembers (steps : Nat) : Rule Bool := do
  if ← accept .equals then
    let _ ← separated steps .pipe name
    return true
  return false

def constantDirectives (steps : Nat) : Rule Bool :=
  return !(← allDirectives true steps).isEmpty

/-- What follows the name in the definition of a type; whether it says anything. -/
def typeBody (steps : Nat) : String → Rule Bool
  | "scalar" => constantDirectives steps
  | "type" | "interface" => do
    let implementing ← interfaces steps
    let marked ← constantDirectives steps
    let fields ← fieldsBlock steps
    return implementing || marked || fields
  | "union" => do
    let marked ← constantDirectives steps
    let members ← unionMembers steps
    return marked || members
  | "enum" => do
    let marked ← constantDirectives steps
    let values ← enumValuesBlock steps
    return marked || values
  | _ => do
    let marked ← constantDirectives steps
    let fields ← inputFieldsBlock steps
    return marked || fields

def typeKeywords : List String := ["scalar", "type", "interface", "union", "enum", "input"]

def schemaDefinition (steps : Nat) : Rule Unit := do
  let _ ← constantDirectives steps
  let _ ← many steps .braceLeft operationTypeDefinition .braceRight

def directiveDefinition (steps : Nat) : Rule Unit := do
  let _ ← expect .atSign
  let _ ← name
  let _ ← optional steps .parenLeft (inputValueDefinition steps) .parenRight
  let _ ← acceptKeyword "repeatable"
  expectKeyword "on"
  let _ ← separated steps .pipe directiveLocation

/-- A definition of the type system, whose keyword has been seen behind any description. -/
def typeSystemDefinition (steps : Nat) (keyword : String) : Rule Unit := do
  description
  expectKeyword keyword
  if keyword = "schema" then schemaDefinition steps
  else if keyword = "directive" then directiveDefinition steps
  else
    let _ ← name
    let _ ← typeBody steps keyword

def extension (steps : Nat) : Rule Unit := do
  let token ← following
  let keyword := if token.kind = .name then token.value.getD "" else ""
  if keyword = "schema" then
    expectKeyword "extend"
    expectKeyword "schema"
    let marked ← constantDirectives steps
    let types ← optional steps .braceLeft operationTypeDefinition .braceRight
    if !marked && types.isEmpty then unexpected (← current)
  else if typeKeywords.contains keyword then
    expectKeyword "extend"
    expectKeyword keyword
    let _ ← name
    if !(← typeBody steps keyword) then unexpected (← current)
  else unexpected token

/-- A definition, chosen by its keyword; a description may stand before most of them. -/
def definition (steps : Nat) : Rule Definition := do
  let first ← current
  if first.kind = .braceLeft then return .operation (← operation steps)
  let described := isDescription first
  let token ← if described then following else pure first
  if described && token.kind = .braceLeft then fail first.start .describedShorthand
  if token.kind = .name then
    let word := token.value.getD ""
    if word = "schema" ∨ word = "directive" ∨ typeKeywords.contains word then
      typeSystemDefinition steps word
      return .typeSystem
    if word = "query" ∨ word = "mutation" ∨ word = "subscription" then
      return .operation (← operation steps)
    if word = "fragment" then return .fragment (← fragmentDefinition steps)
    if described then fail first.start .strayDescription
    if word = "extend" then
      extension steps
      return .typeSystem
  unexpected token

/-- Definitions up to the end of the source, at least one. -/
def definitions (steps : Nat) : Rule (List Definition) := do
  let first ← definition steps
  return first :: (← upTo .endOfSource (definition steps) steps)

/-- Runs a rule from the start of a source. -/
def read (source : String) (rule : Nat → Rule α) : Except SyntaxFault α := do
  let cs := source.toList
  let (token, cursor) ← Token.next ⟨cs, 0⟩
  let (made, _) ← (rule (cs.length + 1)).run { token, cursor }
  return made

/-- Runs a rule that must take the whole source. -/
def readAll (source : String) (rule : Nat → Rule α) : Except SyntaxFault α :=
  read source fun steps => do
    let made ← rule steps
    let _ ← expect .endOfSource
    return made

end Grammar

def Document.parse (source : String) : Except SyntaxFault Document := do
  return ⟨source.toList, ← Grammar.read source Grammar.definitions⟩

def Literal.parse (source : String) : Except SyntaxFault Literal :=
  Grammar.readAll source (Grammar.literal false)

def TypeNode.parse (source : String) : Except SyntaxFault TypeNode :=
  Grammar.readAll source Grammar.typeNode

end GraphQL
