import GraphQL.Call
import GraphQL.Script.Expr

/-!
What a scripted application keeps: a state of named values, the objects that have an id, what its
deferred results, iterators and callables do once they are used, and the lists that it adds to. Such
a list is seen by all who have got hold of it, so `Store.current` looks at a value anew.
-/

namespace GraphQL

namespace Script

/-- What an expression is evaluated with. -/
structure Frame where
  source : Value := .null
  arguments : Value := .map []
  context : Value := .null
  info : Option Info := none
  /-- Marks the deferred results that are made here. -/
  label : String := ""

inductive Work where
  | evaluate (body : Expr) (frame : Frame)
  | give (template : Template)
  | raise (spec : ErrorSpec)

structure Deferred where
  delay : Nat
  label : String
  work : Work

structure Iteration where
  items : List Template
  fault : Option ErrorSpec

structure Store where
  state : List (String × Value) := []
  /-- The number of identities and handles given out. -/
  used : Nat := 0
  objects : List (String × Value) := []
  /-- What the growing lists hold by now. -/
  lists : List (Nat × List Value) := []
  deferred : List (Nat × Deferred) := []
  iterations : List (Nat × Iteration) := []
  callables : List (Nat × Expr) := []

mutual

/-- A value with its growing lists replaced by what they hold now. -/
def renewed (now : Nat → Option (List Value)) : Value → Value
  | .growing handle items => .growing handle ((now handle).getD items)
  | .list items => .list (renewedItems now items)
  | .tuple items => .tuple (renewedItems now items)
  | .map entries => .map (renewedEntries now entries)
  | .object ⟨className, attributes, stringForm, comparesAttributes, hashable, identity⟩ =>
    .object
      ⟨className, renewedFields now attributes, stringForm, comparesAttributes, hashable, identity⟩
  | value => value

def renewedItems (now : Nat → Option (List Value)) : List Value → List Value
  | [] => []
  | item :: rest => renewed now item :: renewedItems now rest

def renewedEntries (now : Nat → Option (List Value)) : List (Value × Value) → List (Value × Value)
  | [] => []
  | (key, value) :: rest => (key, renewed now value) :: renewedEntries now rest

def renewedFields (now : Nat → Option (List Value)) :
    List (String × Value) → List (String × Value)
  | [] => []
  | (name, value) :: rest => (name, renewed now value) :: renewedFields now rest

end

namespace Store

/-- An identity or handle that was not given out before; none of them is zero. -/
def fresh (store : Store) : Nat × Store :=
  (store.used + 1, { store with used := store.used + 1 })

/-- A value with the growing lists in it, nested up to a depth, as they are now. -/
def renew (store : Store) : (depth : Nat) → Value → Value
  | 0, value => value
  | depth + 1, value =>
    renewed (fun handle => (store.lists.lookup handle).map (·.map (store.renew depth))) value

/-- A value as it is now. No list stands in another more often than there are lists. -/
def current (store : Store) (value : Value) : Value := store.renew store.lists.length value

/-- A list that can be added to. -/
def grow (store : Store) (items : List Value) : Nat × Store :=
  let (handle, store) := store.fresh
  (handle, { store with lists := (handle, items) :: store.lists })

/-- Adds to a list; its new length. -/
def push (store : Store) (handle : Nat) (item : Value) : Nat × Store :=
  let items := (store.lists.lookup handle).getD [] ++ [item]
  (items.length, { store with lists := (handle, items) :: store.lists.filter (·.1 != handle) })

/-- A number made anew is the same as no other. -/
def anew (store : Store) (value : Value) : Value × Store :=
  match value with
  | .float x _ =>
    let (identity, store) := store.fresh
    (.float x identity, store)
  | .decimal d _ =>
    let (identity, store) := store.fresh
    (.decimal d identity, store)
  | value => (value, store)

def setState (store : Store) (name : String) (value : Value) : Store :=
  { store with state := put store.state }
where
  put : List (String × Value) → List (String × Value)
    | [] => [(name, value)]
    | (key, old) :: rest => if key = name then (key, value) :: rest else (key, old) :: put rest

def error (store : Store) (spec : ErrorSpec) : Thrown × Store :=
  let (identity, store) := store.fresh
  (⟨spec.kind, spec.message, spec.extensions, spec.path, identity⟩, store)

def defer (store : Store) (deferred : Deferred) : Value × Store :=
  let (ticket, store) := store.fresh
  (.deferred ticket, { store with deferred := (ticket, deferred) :: store.deferred })

def callable (store : Store) (body : Expr) : Value × Store :=
  let (handle, store) := store.fresh
  (.callable handle, { store with callables := (handle, body) :: store.callables })

def iterator (store : Store) (iteration : Iteration) : Value × Store :=
  let (handle, store) := store.fresh
  (.iterator handle, { store with iterations := (handle, iteration) :: store.iterations })

def object (store : Store) (kind : ObjectClass) (attributes : List (String × Value))
    (id : Option String) : Value × Store :=
  let (identity, store) := store.fresh
  let made : Value :=
    .object
      { className := kind.name
        attributes
        stringForm := kind.stringForm
        comparesAttributes := kind.comparesAttributes
        hashable := kind.hashable
        identity }
  match id with
  | none => (made, store)
  | some id => (made, { store with objects := (id, made) :: store.objects })

end Store

namespace Template

mutual

/-- Makes the value that a template describes. -/
def make (template : Template) (store : Store) : Value × Store :=
  match template with
  | constant value => store.anew value
  | list items =>
    let (items, store) := makeItems items store
    (.list items, store)
  | tuple items =>
    let (items, store) := makeItems items store
    (.tuple items, store)
  | set items =>
    let (items, store) := makeItems items store
    let (identity, store) := store.fresh
    (.set (Value.distinctItems items) identity, store)
  | map entries =>
    let (entries, store) := makeEntries entries store
    (.ofEntries entries, store)
  | error spec =>
    let (thrown, store) := store.error spec
    (.error thrown, store)
  | later delay label value => store.defer ⟨delay, label, .give value⟩
  | laterError delay label spec => store.defer ⟨delay, label, .raise spec⟩
  | callable body => store.callable body
  | object kind attributes id =>
    match id.bind fun id => store.objects.lookup id with
    | some known => (known, store)
    | none =>
      let (attributes, store) := makeAttributes attributes store
      store.object kind attributes id

def makeItems (templates : List Template) (store : Store) : List Value × Store :=
  match templates with
  | [] => ([], store)
  | template :: rest =>
    let (value, store) := make template store
    let (values, store) := makeItems rest store
    (value :: values, store)

def makeEntries (entries : List (Template × Template)) (store : Store) :
    List (Value × Value) × Store :=
  match entries with
  | [] => ([], store)
  | (key, template) :: rest =>
    let (key, store) := make key store
    let (value, store) := make template store
    let (values, store) := makeEntries rest store
    ((key, value) :: values, store)

def makeAttributes (attributes : List (String × Template)) (store : Store) :
    List (String × Value) × Store :=
  match attributes with
  | [] => ([], store)
  | (name, template) :: rest =>
    let (value, store) := make template store
    let (values, store) := makeAttributes rest store
    ((name, value) :: values, store)

end

end Template

end Script

end GraphQL
