import GraphQL.KeyedStore
import GraphQL.Value.Equality
import GraphQL.Value.Text

/-!
Values as keys of a store. The default strategy compares containers part by part and keeps the kinds
of simple values apart, so that a boolean is never a number; other values are equal when they are
the same, or when their class says so. The identity strategy equates a value with itself only.
-/

namespace GraphQL

namespace Value

/-- Equality of simple values of one kind, of the same value, and of values that define it. -/
def leavesEqual? (left right : Value) : Option Bool :=
  match left, right with
  | null, null => some true
  | bool a, bool b => some (a = b)
  | str a, str b => some (a = b)
  | int a, int b => some (a = b)
  | float a _, float b _ => some (a.equals b)
  | null, _ | bool _, _ | str _, _ | int _, _ | float .., _ => some false
  | list _, _ | growing .., _ | tuple _, _ | map _, _ => some false
  | _, _ =>
    if identical left right then some true
    else if usesOwnEquality left then equals? left right
    else some false

/-- Whether two maps have the same keys. -/
def sameKeys (left right : List (Value × Value)) : Bool :=
  left.length == right.length
    && left.all fun entry => right.any fun other => entry.1.isKey other.1

mutual

/-- Whether two values are one key; there is no answer where comparing them is refused. -/
def keysEqual? (left right : Value) : Option Bool :=
  match left with
  | list xs | growing _ xs =>
    match right.listed? with
    | some ys => if xs.length != ys.length then some false else keyItemsEqual? xs ys
    | none => some false
  | tuple xs =>
    match right with
    | tuple ys => if xs.length != ys.length then some false else keyItemsEqual? xs ys
    | _ => some false
  | map a =>
    match right with
    | map b => if sameKeys a b then keyEntriesEqual? a b else some false
    | _ => some false
  | left => leavesEqual? left right

def keyItemsEqual? : List Value → List Value → Option Bool
  | [], [] => some true
  | x :: xs, y :: ys =>
    match keysEqual? x y with
    | some true => keyItemsEqual? xs ys
    | answer => answer
  | _, _ => some false

/-- Whether each entry of the first map has an equal value under its key in the second. -/
def keyEntriesEqual? : List (Value × Value) → List (Value × Value) → Option Bool
  | [], _ => some true
  | (key, value) :: rest, other =>
    match lookup? other key with
    | none => some false
    | some found =>
      match keysEqual? value found with
      | some true => keyEntriesEqual? rest other
      | answer => answer

end

/-- Values that are one key. -/
def keysEqual (left right : Value) : Bool := left.keysEqual? right == some true

/-- Whether a key refuses to be compared with another. -/
def refusesKey (left right : Value) : Bool := (left.keysEqual? right).isNone

end Value

inductive Bucket where
  | constant (value : Option Bool)
  | text (value : String)
  | integer (value : Int)
  /-- All floating point numbers, since both zeros are one key. -/
  | floating
  | sequence (isTuple : Bool) (size : Nat)
  | mapping (size : Nat)
  /-- Values that define their equality, by class. -/
  | comparable (className : String)
  | identity (className : String) (identity : Nat)
deriving DecidableEq, Repr

def Bucket.ofValue (key : Value) : Bucket :=
  match key with
  | .null => constant none
  | .bool value => constant (some value)
  | .str value => text value
  | .int value => integer value
  | .float .. => floating
  | .list items | .growing _ items => sequence false items.length
  | .tuple items => sequence true items.length
  | .map entries => mapping entries.length
  | .error thrown => identity key.className thrown.identity
  | .object object =>
    if object.comparesAttributes && object.hashable then comparable object.className
    else identity object.className object.identity
  | .deferred ticket => identity key.className ticket
  | .callable handle => identity key.className handle
  | .iterator handle => identity key.className handle
  | .set _ mark => identity "set" mark
  | .method .. => comparable "method"
  | .undefined => comparable "undefined"
  | .bytes _ => comparable "bytes"
  | .decimal .. => comparable "decimal"
  | .date _ => comparable "date"
  | .timestamp _ => comparable "timestamp"
  | .member enumeration .. => identity "member" enumeration
  | .type .. => comparable "type"

def defaultKeys : KeyStrategy Value Bucket := ⟨.ofValue, Value.keysEqual⟩

def identityKeys : KeyStrategy Value Unit := ⟨fun _ => (), Value.identical⟩

namespace Value

/-- Why a value cannot be looked up, if it cannot. -/
def hashFault? : Value → Option ValueFault
  | decimal d _ => if d.isSignaling then some .signalingHashed else none
  | _ => none

/-- Why looking a value up in a store by its default key fails, if it does. -/
def keyFault? (store : KeyedStore Value Bucket ν) (key : Value) : Option ValueFault :=
  key.hashFault?.orElse fun _ =>
    if store.meets refusesKey key then some .signalingCompared else none

end Value

end GraphQL
