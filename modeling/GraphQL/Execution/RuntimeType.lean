import GraphQL.Execution.Position
import GraphQL.Value.Attribute

/-!
The object type of a value of an abstract type. It is found by the type's own resolver, else by that
of the request, else by the value itself, which may name its type or be claimed by a possible type.
-/

namespace GraphQL

/-- Calls what stands in a slot. -/
def Slot.call (slot : Slot) (asked : Nat → Call) (next : Reply → Program) : Program :=
  match slot with
  | .function id => .call (asked id) next
  | .other value => next (.error (.value (.uncallable value.typeName)))
  | .absent => next (.error (.value (.uncallable Value.null.typeName)))

namespace TypeDef

/-- The test by which an object type claims values, if it has one. -/
def isTypeOf (type : TypeDef) : Slot :=
  match type.body with
  | .object _ _ isTypeOf => isTypeOf
  | _ => .absent

def resolveType (type : TypeDef) : Slot :=
  match type.body with
  | .interface _ _ resolveType => resolveType
  | .union _ resolveType => resolveType
  | _ => .absent

end TypeDef

/-- A slot that holds nothing, or something that counts as nothing, leaves the choice to others. -/
def Slot.isUnset : Slot → Bool
  | .absent => true
  | .function _ => false
  | .other value => !value.isTruthy

namespace RuntimeType

/-- The first type whose deferred test holds. -/
def firstHolding (deferred : List (TypeId × Nat)) (results : List (Nat × Value)) : Option TypeId :=
  (deferred.find? fun (_, ticket) => (results.lookup ticket).any Value.isTruthy).map (·.1)

/-- Decides by the tests that are still deferred. Tests that share a result wait for it once. -/
def decideDeferred (setting : Setting) (deferred : List (TypeId × Nat))
    (next : Except Failure (Option TypeId) → Program) : Program :=
  let tickets := (deferred.map (·.2)).eraseDups
  if deferred.isEmpty then next (.ok none)
  else if setting.synchronous then .closing tickets (next (.error .asynchronous))
  else
    .wait tickets fun
      | .ok results => next (.ok (firstHolding deferred (tickets.zip results)))
      | .error failure => next (.error failure)

/-- Asks the possible types in turn whether the value is theirs. The first that says so at once is
chosen; else the first whose deferred answer says so. -/
def askTypes (setting : Setting) (info : Info) (value : Value)
    (next : Except Failure (Option TypeId) → Program) :
    List (TypeId × Slot) → List (TypeId × Nat) → Program
  | [], deferred => decideDeferred setting deferred next
  | (type, test) :: rest, deferred =>
    test.call (fun id => .isTypeOf id type value info) fun
      | .error failure => next (.error failure)
      | .ok (.deferred ticket) =>
        askTypes setting info value next rest (deferred ++ [(type, ticket)])
      | .ok result =>
        if result.isTruthy then .closing (deferred.map (·.2)) (next (.ok (some type)))
        else askTypes setting info value next rest deferred

/-- The possible types that have a test. -/
def tested (schema : Schema) (possible : List Candidate) : List (TypeId × Slot) :=
  (possible.filterMap Candidate.named?).filterMap fun id =>
    let test := (schema.definition id).isTypeOf
    if test.isAbsent then none else some (id, test)

/-- Finds the type of a value when nobody resolves it. -/
def byDefault (setting : Setting) (info : Info) (abstract : TypeId) (value : Value)
    (next : Outcome → Program) : Program :=
  match value.get? "__typename" with
  | some (.str name) => next (.ok (.str name))
  | _ =>
    match setting.schema.possibleTypes abstract with
    | .error fault => next (.error (.schema fault))
    | .ok possible =>
      askTypes setting info value
        (fun
          | .ok (some type) => next (.ok (setting.schema.catalog.value (.named type)))
          | .ok none => next (.ok .null)
          | .error failure => next (.error failure))
        (tested setting.schema possible) []

/-- Finds the type of a value, as the application passes it on: a type, a name, or null. -/
def find (setting : Setting) (info : Info) (abstract : TypeId) (value : Value)
    (next : Outcome → Program) : Program :=
  let received : Reply → Program
    | .ok found => .receive setting found next
    | .error failure => next (.error failure)
  let own := (setting.schema.definition abstract).resolveType
  if !own.isUnset then own.call (fun id => .resolveType id (some abstract) value info) received
  else
    match setting.environment.typeResolver with
    | some id => .call (.resolveType id none value info) received
    | none => byDefault setting info abstract value next

def problem (found : CompletionProblem) (info : Info) : Failure :=
  .response { message := found.message, nodes := info.nodes.map (·.start) }

/-- The type that a name or a value denotes. -/
def denoted (setting : Setting) (info : Info) (abstract : String) (found : Value) :
    Except Failure Candidate :=
  match found with
  | .str name =>
    match setting.schema.named? name with
    | .error fault => .error (.schema fault)
    | .ok none => .error (problem (.unknownType abstract name) info)
    | .ok (some id) => .ok (.named id)
  | other => .ok (.ofValue other)

/-- The object type that was found, if it is a possible type of the abstract one. -/
def check (setting : Setting) (info : Info) (abstract : TypeId) (value found : Value) :
    Except Failure TypeId := do
  let schema := setting.schema
  let label := schema.label abstract
  let parent := schema.label info.parentType
  if found.isNull then throw (problem (.unresolvedType label parent info.fieldName) info)
  let candidate ← denoted setting info label found
  match candidate.named?.filter fun id => schema.kindOf id = .object with
  | none =>
    throw (problem (.notObjectType label parent info.fieldName value.shown
      (schema.catalog.candidateShown candidate)) info)
  | some id =>
    if ← (schema.isPossible abstract id).mapError .schema then return id
    else throw (problem (.notPossible (schema.label id) label) info)

end RuntimeType

end GraphQL
