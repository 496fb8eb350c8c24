import GraphQL.Cost
import GraphQL.Document.Grammar
import GraphQL.Execution.Operation
import GraphQL.Execution.Process
import GraphQL.Input.Variables
import GraphQL.Response
import GraphQL.Schema.Validity

/-!
Requests: an operation of a document, executed against a schema. `Request.execute` takes variables
that are coerced already; `Request.run` reads the query, coerces raw variables and holds the
operation against limits before it executes it.
-/

namespace GraphQL

structure Request where
  root : Value := .null
  context : Value := .null
  vars : List (Value × Value) := []
  operationName : Option String := none
  fieldResolver : Option Nat := none
  typeResolver : Option Nat := none
  limits : Cost.Limits := {}

/-- Why a request ends without a response. -/
inductive Refusal where
  | syntax_ (fault : SyntaxFault)
  | failed (failure : Failure)
  /-- Something had to be waited for where nothing may be. -/
  | incomplete

namespace Refusal

def message : Refusal → String
  | syntax_ fault => fault.message
  | failed failure => failure.message
  | incomplete => "GraphQL execution failed to complete synchronously."

end Refusal

/-- What comes of a request. -/
structure Report (σ : Type) where
  outcome : Except Refusal Response
  /-- Whether the response had to be waited for. -/
  awaited : Bool
  world : World σ

/-- A response without data. -/
def Response.rejected (errors : List ResponseError) : Response := ⟨.null, errors⟩

def Document.ChoiceFault.error (fault : Document.ChoiceFault) : ResponseError :=
  { message := fault.message }

namespace Request

variable {σ : Type}

/-- The root type of an operation, or the error that the schema has none. -/
def rootType (schema : Schema) (operation : Operation) : Except ResponseError TypeId :=
  match (schema.root operation.kind).bind Candidate.named? with
  | some type => .ok type
  | none =>
    .error
      { message :=
          "Schema is not configured to execute " ++ operation.kind.name ++ " operation."
        nodes := [operation.start] }

def environment (request : Request) (schema : Schema) (document : Document) (operation : Operation)
    (vars : Variables) : Environment where
  schema := schema
  fragments := document.fragments
  operation := operation
  root := request.root
  context := request.context
  vars := vars
  fieldResolver := request.fieldResolver
  typeResolver := request.typeResolver

/-- Variables that come coerced already. -/
def coerced (request : Request) : Variables := .ofEntries request.vars

def report (world : World σ) (awaited : Bool) (outcome : Except Refusal Response) : Report σ :=
  ⟨outcome, awaited, world⟩

/-- What an outcome at the root and the recorded errors make together. -/
def respond (synchronous awaited : Bool) (outcome : Outcome) (world : World σ) : Report σ :=
  match outcome with
  | .ok data => report world awaited (.ok ⟨data, world.errors⟩)
  | .error .asynchronous =>
    report world awaited
      (.error (if synchronous && !awaited then .incomplete else .failed .asynchronous))
  | .error failure => report world awaited (.error (.failed failure))

/-- Carries out the program of an operation, waiting as long as it takes. -/
def carryOut (application : Application σ) (synchronous : Bool) (program : Program)
    (world : World σ) : Report σ :=
  match Process.begin application program world with
  | (.finished outcome, world) => respond synchronous false outcome world
  | (process, world) =>
    let (outcome, world) := process.run application world
    respond synchronous true outcome world

def executeOperation (application : Application σ) (setting : Setting) (root : TypeId)
    (world : World σ) : Report σ :=
  carryOut application setting.synchronous (Execution.operation setting root) world

/-- Executes the requested operation of a document with the given variables. -/
def executeWith (application : Application σ) (request : Request) (schema : Schema)
    (document : Document) (vars : Variables) (synchronous : Bool) (world : World σ) :
    Report σ :=
  match schema.check with
  | .error fault => report world false (.error (.failed (.schema fault)))
  | .ok () =>
    match document.choose request.operationName with
    | .error fault => report world false (.ok (.rejected [fault.error]))
    | .ok operation =>
      match rootType schema operation with
      | .error error => report world false (.ok (.rejected [error]))
      | .ok root =>
        let environment := request.environment schema document operation vars
        executeOperation application ⟨environment, synchronous⟩ root world

/-- Executes the requested operation of a document. -/
def execute (application : Application σ) (request : Request) (schema : Schema)
    (document : Document) (synchronous : Bool) (world : World σ) : Report σ :=
  request.executeWith application schema document request.coerced synchronous world

/-- The variables of an operation, and whether it keeps within the limits: either the variables to
execute it with, or the errors that keep it from being executed. -/
def prepare (request : Request) (schema : Schema) (document : Document) (operation : Operation) :
    Action (Except (List ResponseError) Variables) := do
  match ← Input.coerceVariables schema operation request.vars with
  | .error errors => return .error errors
  | .ok vars =>
    match ← Cost.check ⟨schema, document.fragments, vars⟩ operation request.limits with
    | [] => return .ok vars
    | errors => return .error errors

/-- Runs a request on a document that is read already. -/
def runDocument (application : Application σ) (request : Request) (schema : Schema)
    (document : Document) (world : World σ) : Report σ :=
  match document.choose request.operationName with
  | .error fault => report world false (.ok (.rejected [fault.error]))
  | .ok operation =>
    match (request.prepare schema document operation).run (World.ask application) world with
    | (.error failure, world) => report world false (.error (.failed failure))
    | (.ok (.error errors), world) => report world false (.ok (.rejected errors))
    | (.ok (.ok vars), world) =>
      request.executeWith application schema document vars false world

/-- Runs a request on the text of a query. -/
def run (application : Application σ) (request : Request) (schema : Schema) (query : String)
    (world : World σ) : Report σ :=
  match schema.check with
  | .error fault => report world false (.error (.failed (.schema fault)))
  | .ok () =>
    match Document.parse query with
    | .error fault => report world false (.error (.syntax_ fault))
    | .ok document => request.runDocument application schema document world

/-- How a request is carried out. -/
inductive Mode where
  /-- Raw variables are coerced, and the limits hold. -/
  | checked
  /-- Variables are coerced already. -/
  | direct
  /-- As `direct`, but the response is waited for in any case. -/
  | waiting
  /-- As `direct`, but nothing may be waited for. -/
  | synchronous
deriving DecidableEq, Repr

def perform (application : Application σ) (request : Request) (mode : Mode) (schema : Schema)
    (query : String) (world : World σ) : Report σ :=
  if mode = .checked then request.run application schema query world
  else
    match Document.parse query with
    | .error fault => report world false (.error (.syntax_ fault))
    | .ok document =>
      let made := request.execute application schema document (mode == .synchronous) world
      { made with awaited := made.awaited || mode == .waiting }

end Request

end GraphQL
