import GraphQL.Execution.World
import GraphQL.Response
import GraphQL.Script.Store
import GraphQL.Text.Upper
import GraphQL.Value.Arithmetic
import GraphQL.Value.Attribute

/-!
Scripted applications: functions given as expressions answer the calls of a request. Their deferred
results bear labels, so that a log can tell which function was called and which delay ended when.
-/

namespace GraphQL

namespace Script

/-- Evaluation changes the store and may fail. -/
abbrev Evaluation := StateM Store

/-- What an expression learns about the field that it is evaluated for. -/
def infoValue (info : Info) : Value :=
  let environment := info.environment
  let typeName (ref : TypeRef) : Value := .str (environment.schema.shown ref)
  .ofFields
    [("field_name", .str info.fieldName),
      ("path", .list (info.path.toList.map Value.ofKey)),
      ("parent_type", typeName (.named info.parentType)),
      ("return_type", typeName info.returnType),
      ("node_count", .int info.nodes.length),
      ("operation", .str environment.operation.kind.name),
      ("operation_name", .ofOption (environment.operation.name.map .str)),
      ("fragments", .list (environment.fragments.map fun fragment => .str fragment.name)),
      ("variables", .ofFields environment.vars),
      ("root", environment.root),
      ("context", environment.context)]

def raise (spec : ErrorSpec) : Evaluation Reply := fun store =>
  let (thrown, store) := store.error spec
  (.error (.ofThrown thrown), store)

def faulty (result : Except ValueFault Value) : Reply := result.mapError .value

def upperByte (byte : UInt8) : UInt8 := if 97 ≤ byte && byte ≤ 122 then byte - 32 else byte

def upper (value : Value) : Except ValueFault Value :=
  match value with
  | .str text => .ok (.str (Text.upper text))
  | .bytes content => .ok (.bytes (content.map upperByte))
  | other =>
    match other.dataAttribute? "upper" with
    | some found => .error (.uncallable found.typeName)
    | none => .error (.noAttribute other.typeName "upper")

/-- The delay of a deferred result, which may grow by an item of the source. -/
def delayOf (frame : Frame) (delay : Int) (key : Option String) : Except ValueFault Nat :=
  match key with
  | none => .ok delay.toNat
  | some key => do
    let total ← (Value.int delay).plus (← frame.source.subscript key)
    match total with
    | .float x _ =>
      let whole := x.fraction?.map fun (part : Int × Nat) => part.1 / part.2
      return (whole.getD 0).toNat
    | total => return (total.int?.getD 0).toNat

/-- A value as it is by now. -/
def seen (value : Value) : Evaluation Reply := return .ok ((← get).current value)

/-- The handle of the list that a name of the state stands for, which is empty at first. -/
def listUnder (name : String) : Evaluation (Except ValueFault Nat) := do
  match (← get).state.lookup name with
  | none =>
    let handle ← modifyGet (·.grow [])
    modify (·.setState name (.growing handle []))
    return .ok handle
  | some (.growing handle _) => return .ok handle
  | some other => return .error (.noAttribute other.typeName "append")

/-- Keeps a sum under a name of the state. -/
def keep (name : String) (sum : Value) : Evaluation Reply := do
  match sum with
  | .list items =>
    let handle ← modifyGet (·.grow items)
    modify (·.setState name (.growing handle items))
    return .ok (.growing handle items)
  | sum =>
    modify (·.setState name sum)
    return .ok sum

def orZero (value : Option Value) : Value :=
  match value with
  | some value => if value.isTruthy then value else .int 0
  | none => .int 0

mutual

/-- The value of an expression, or the failure that it ends with. -/
def evaluate (frame : Frame) (expr : Expr) : Evaluation Reply :=
  match expr with
  | .const template => fun store =>
    let (value, store) := template.make store
    (.ok value, store)
  | .source => seen frame.source
  | .get key => seen ((frame.source.get? key).getD .null)
  | .has key => return .ok (.bool (frame.source.get? key).isSome)
  | .className => return .ok (.str frame.source.className)
  | .argument name => seen ((frame.arguments.get? name).getD .null)
  | .arguments => seen frame.arguments
  | .context => seen frame.context
  | .info => seen ((frame.info.map infoValue).getD .null)
  | .raise spec => raise spec
  | .later body delay key =>
    match delayOf frame delay key with
    | .error fault => return .error (.value fault)
    | .ok ticks => return .ok (← modifyGet (·.defer ⟨ticks, frame.label, .evaluate body frame⟩))
  | .list items => do return (← evaluateAll frame items).map .list
  | .map entries => do return (← evaluateEntries frame entries).map .ofEntries
  | .iterator items fault => fun store =>
    let (value, store) := store.iterator ⟨items, fault⟩
    (.ok value, store)
  | .upper body => do return (← evaluate frame body).bind fun value => faulty (upper value)
  | .add left right => do
    match ← evaluate frame left with
    | .error failure => return .error failure
    | .ok a =>
      let reply ← evaluate frame right
      let a := (← get).current a
      return reply.bind fun b => faulty (a.plus b)
  | .equal left right => do
    match ← evaluate frame left with
    | .error failure => return .error failure
    | .ok a =>
      let reply ← evaluate frame right
      let a := (← get).current a
      return reply.bind fun b =>
        match a.equals? b with
        | some same => .ok (.bool same)
        | none => .error (.value .signalingCompared)
  | .choose condition yes no => do
    match ← evaluate frame condition with
    | .error failure => return .error failure
    | .ok held => if held.isTruthy then evaluate frame yes else evaluate frame no
  | .stateGet name => do seen (((← get).state.lookup name).getD .null)
  | .stateAdd name body => do
    let store ← get
    let before := orZero ((store.state.lookup name).map store.current)
    match ← evaluate frame body with
    | .error failure => return .error failure
    | .ok value =>
      match ((← get).current before).plus value with
      | .error fault => return .error (.value fault)
      | .ok sum => keep name sum
  | .statePush name body => do
    match ← listUnder name with
    | .error fault => return .error (.value fault)
    | .ok handle =>
      match ← evaluate frame body with
      | .error failure => return .error failure
      | .ok value =>
        let size : Nat ← modifyGet (·.push handle value)
        return .ok (.int size)

def evaluateAll (frame : Frame) (items : List Expr) : Evaluation (Except Failure (List Value)) :=
  match items with
  | [] => return .ok []
  | item :: rest => do
    match ← evaluate frame item with
    | .error failure => return .error failure
    | .ok value => return (← evaluateAll frame rest).map (value :: ·)

def evaluateEntries (frame : Frame) (entries : List (Value × Expr)) :
    Evaluation (Except Failure (List (Value × Value))) :=
  match entries with
  | [] => return .ok []
  | (key, item) :: rest => do
    match ← evaluate frame item with
    | .error failure => return .error failure
    | .ok value => return (← evaluateEntries frame rest).map ((key, value) :: ·)

end

/-- The keys of a path, joined by points. -/
def pathText (path : ResponsePath) : String :=
  ".".intercalate <| path.toList.map fun
    | .name key => key
    | .index position => toString position

/-- The type that a type function is about; `*` stands for all of them. -/
def subject (info : Info) (type : Option TypeId) : String :=
  match type with
  | some id => info.environment.schema.label id
  | none => "*"

/-- The function that a call asks for, and what it is evaluated with. -/
def frameOf : Call → Frame
  | .resolve _ source arguments info =>
    ⟨source, arguments, info.environment.context, some info, pathText info.path⟩
  | .invoke _ arguments info => ⟨.null, arguments, info.environment.context, some info, ""⟩
  | .resolveType _ abstract value info =>
    ⟨value, .map [], info.environment.context, some info, "resolve_type " ++ subject info abstract⟩
  | .isTypeOf _ type value info =>
    ⟨value, .map [], info.environment.context, some info,
      "is_type_of " ++ subject info (some type)⟩
  | .serialize _ value | .parseValue _ value => { source := value }
  | .parseLiteral .. => {}
  | .complexity _ _ arguments => { arguments }

def functionOf : Call → Nat
  | .resolve function .. | .resolveType function .. | .isTypeOf function .. | .serialize function _
  | .parseValue function _ | .parseLiteral function .. | .complexity function .. => function
  | .invoke handle .. => handle

/-- The cost of a field: a base, plus what is selected within it times an argument. -/
def costOf (base : Value) (factor : Option String) (fallback child arguments : Value) :
    Except ValueFault Value := do
  let times :=
    match factor with
    | none => .int 1
    | some name => ((arguments.get? name).filter Value.isTruthy).getD fallback
  base.plus (← child.times times)

structure Program where
  functions : Array Function

def answer (program : Program) (asked : Call) : Evaluation Reply := do
  match asked with
  | .invoke handle .. =>
    match (← get).callables.lookup handle with
    | some body => evaluate (frameOf asked) body
    | none => return .error (.value (.uncallable Value.null.typeName))
  | .parseLiteral function literal vars =>
    match program.functions[function]?, literal.untyped vars with
    | some (.expression body), .ok value => evaluate { source := value } body
    | _, .error fault => return .error (.value fault)
    | _, _ => return .error (.value (.uncallable Value.null.typeName))
  | asked =>
    match program.functions[functionOf asked]?, asked with
    | some (.expression body), asked => evaluate (frameOf asked) body
    | some (.cost base factor fallback), .complexity _ child arguments =>
      return faulty (costOf base factor fallback child arguments)
    | some (.costError spec), _ => raise spec
    | _, _ => return .error (.value (.uncallable Value.null.typeName))

/-- Takes everything out of an iterator, which is empty afterwards. -/
def drain (handle : Nat) : Evaluation (List Value × Option Failure) := do
  match (← get).iterations.lookup handle with
  | none => return ([], none)
  | some iteration =>
    modify fun store => { store with iterations := (handle, ⟨[], none⟩) :: store.iterations }
    let items ← fun store => Template.makeItems iteration.items store
    match iteration.fault with
    | none => return (items, none)
    | some spec =>
      match ← raise spec with
      | .error failure => return (items, some failure)
      | .ok _ => return (items, none)

def finish (ticket : Nat) : Evaluation Reply := do
  match (← get).deferred.lookup ticket with
  | none => return .ok .null
  | some deferred =>
    match deferred.work with
    | .evaluate body frame => evaluate frame body
    | .give template => evaluate {} (.const template)
    | .raise spec => raise spec

/-- What an evaluation comes to by its end. -/
def settled (evaluation : Evaluation Reply) : Evaluation Reply := do
  let reply ← evaluation
  let store ← get
  return reply.map store.current

def application (program : Program) : Application Store where
  answer asked store := settled (answer program asked) store
  drain handle store := drain handle store
  delay ticket store := ((store.deferred.lookup ticket).map (·.delay)).getD 0
  finish ticket store := settled (finish ticket) store

/-- A response with all that was added since to the lists in its data. -/
def present (store : Store) (response : Response) : Response :=
  { response with data := store.current response.data }

inductive LogKind where
  | call
  | isTypeOf
  | resolveType
  | done
deriving DecidableEq, Repr

def LogKind.name : LogKind → String
  | call => "call"
  | isTypeOf => "is_type_of"
  | resolveType => "resolve_type"
  | done => "done"

structure LogEntry where
  kind : LogKind
  label : String
  time : Nat
deriving Repr

/-- What a log shows of an event. -/
def logEntry? (store : Store) (time : Nat) : Event → Option LogEntry
  | .called (.resolve _ _ _ info) _ => some ⟨.call, pathText info.path, time⟩
  | .called (.isTypeOf _ type _ info) _ => some ⟨.isTypeOf, subject info (some type), time⟩
  | .called (.resolveType _ abstract _ info) _ => some ⟨.resolveType, subject info abstract, time⟩
  | .settled ticket _ =>
    some ⟨.done, ((store.deferred.lookup ticket).map (·.label)).getD "", time⟩
  | _ => none

def log (world : World Store) : List LogEntry :=
  world.history.filterMap fun (time, event) => logEntry? world.state time event

end Script

end GraphQL
