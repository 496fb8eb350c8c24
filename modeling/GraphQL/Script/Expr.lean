import GraphQL.Value

/-!
Applications written down as expressions. A template is a value that is made anew each time it is
used; an expression computes a value from what a function is called with and from a shared state.
-/

namespace GraphQL

namespace Script

/-- An error that can be made again and again. -/
structure ErrorSpec where
  kind : FailureKind
  message : Option String
  extensions : Option (List (String × Value))
  path : List PathKey

/-- How the objects of a class behave. -/
structure ObjectClass where
  name : String
  stringForm : StringForm
  comparesAttributes : Bool
  hashable : Bool

mutual

inductive Template where
  | constant (value : Value)
  | list (items : List Template)
  | tuple (items : List Template)
  | set (items : List Template)
  | map (entries : List (Template × Template))
  | error (spec : ErrorSpec)
  /-- Comes to a value once it has been waited for. -/
  | later (delay : Nat) (label : String) (value : Template)
  | laterError (delay : Nat) (label : String) (spec : ErrorSpec)
  | callable (body : Expr)
  /-- Objects of one id are the same object. -/
  | object (kind : ObjectClass) (attributes : List (String × Template)) (id : Option String)

inductive Expr where
  | const (template : Template)
  | source
  | get (key : String)
  | has (key : String)
  | className
  | argument (name : String)
  | arguments
  | context
  | info
  | raise (spec : ErrorSpec)
  /-- Evaluated once it has been waited for. The delay grows by an item of the source. -/
  | later (body : Expr) (delay : Int) (delayKey : Option String)
  | list (items : List Expr)
  | map (entries : List (Value × Expr))
  | iterator (items : List Template) (fault : Option ErrorSpec)
  | upper (body : Expr)
  | add (left right : Expr)
  | equal (left right : Expr)
  | choose (condition yes no : Expr)
  | stateGet (name : String)
  | stateAdd (name : String) (body : Expr)
  | statePush (name : String) (body : Expr)

end

/-- A function of the application. -/
inductive Function where
  | expression (body : Expr)
  /-- A cost: a base, plus the cost of what is selected times an argument. -/
  | cost (base : Value) (factor : Option String) (fallback : Value)
  | costError (spec : ErrorSpec)

end Script

end GraphQL
