import GraphQL.Document
import GraphQL.Failure

/-!
Responses: the data that an operation produced and the errors met on the way, with the form in which
clients see them.
-/

namespace GraphQL

structure Response where
  /-- Null when nothing was executed, or when an error reached the root. -/
  data : Value
  /-- In the order in which they were met. -/
  errors : List ResponseError

def Location.value (place : Location) : Value :=
  .ofFields [("line", .int place.line), ("column", .int place.column)]

namespace ResponseError

/-- The places in the source of the nodes at fault. -/
def locations (error : ResponseError) (document : Document) : List Location :=
  error.nodes.map document.locate

/-- The form of an error for clients, without the parts that it lacks. -/
def formatted (error : ResponseError) (document : Document) : Value :=
  let message := if error.message = "" then "An unknown error occurred." else error.message
  let parts : List (String × List Value) :=
    [("locations", (error.locations document).map Location.value),
      ("path", error.path.map Value.ofKey)]
  let extensions : List (String × Value) :=
    if error.extensions.isEmpty then [] else [("extensions", .ofFields error.extensions)]
  .ofFields <|
    [("message", .str message)]
      ++ (parts.filter fun (_, items) => !items.isEmpty).map
        (fun (name, items) => (name, .list items))
      ++ extensions

end ResponseError

namespace Response

/-- The response with its errors in a form of one's choice, left out when there are none. -/
def format (response : Response) (formatError : ResponseError → Value) : Value :=
  .ofFields <|
    ("data", response.data)
      :: if response.errors.isEmpty then []
        else [("errors", .list (response.errors.map formatError))]

def formatted (response : Response) (document : Document) : Value :=
  response.format fun error => error.formatted document

end Response

end GraphQL
