import GraphQL.Value

/-!
Equality of values. `Value.equals?` compares numbers of all kinds by their value and containers by
their contents, and gives no answer where a signaling decimal refuses to be compared; `Value.equals`
takes that for unequal. `Value.identical` holds of one and the same value only.
-/

namespace GraphQL

namespace Value

/-- The numeric value of a number or a boolean. -/
inductive Numeric where
  | int (value : Int)
  | float (value : Binary64)
  | decimal (value : Decimal)
deriving DecidableEq, Repr

def Numeric.equals : Numeric → Numeric → Bool
  | .int a, .int b => a = b
  | .int a, .float b => b.equalsInt a
  | .float a, .int b => a.equalsInt b
  | .float a, .float b => a.equals b
  | .int a, .decimal b => (Decimal.ofInt a).equals b
  | .decimal a, .int b => a.equals (.ofInt b)
  | .float a, .decimal b => (Decimal.ofBinary64 a).equals b
  | .decimal a, .float b => a.equals (.ofBinary64 b)
  | .decimal a, .decimal b => a.equals b

def Numeric.isSignaling : Numeric → Bool
  | .decimal value => value.isSignaling
  | _ => false

def numeric? : Value → Option Numeric
  | bool value => some (.int (if value then 1 else 0))
  | int value => some (.int value)
  | float value _ => some (.float value)
  | decimal value _ => some (.decimal value)
  | _ => none

/-- The small integers, which exist once. -/
def isShared (n : Int) : Bool := -5 ≤ n && n ≤ 256

/-- The texts that exist once: the empty one and those of a single character below 256. -/
def isSharedText (text : String) : Bool :=
  match text.toList with
  | [] => true
  | [c] => c.toNat < 256
  | _ => false

/-- One and the same value. Constants, small integers, the shortest texts and enumeration members
exist once; objects, sets, errors, handles and other numbers carry their identity; any other value
is the same as no other. -/
def identical : Value → Value → Bool
  | null, null => true
  | undefined, undefined => true
  | bool a, bool b => a = b
  | int a, int b => a = b && isShared a
  | float a i, float b j => a = b && i = j
  | decimal a i, decimal b j => a = b && i = j
  | str a, str b => a = b && isSharedText a
  | bytes a, bytes b => a = b && a.length < 2
  | tuple [], tuple [] => true
  | set _ i, set _ j => i = j
  | growing a _, growing b _ => a = b
  | member e _ n _, member e' _ n' _ => e = e' && n = n'
  | error a, error b => a.identity = b.identity
  | object a, object b => a.identity = b.identity
  | deferred a, deferred b => a = b
  | callable a, callable b => a = b
  | iterator a, iterator b => a = b
  | type (.named a) _ _, type (.named b) _ _ => a = b
  | _, _ => false

/-- Equality of values without parts. -/
def atomsEqual (left right : Value) : Option Bool :=
  match left.numeric?, right.numeric? with
  | some a, some b => if a.isSignaling || b.isSignaling then none else some (a.equals b)
  | _, _ =>
    some <| match left, right with
    | null, null => true
    | undefined, undefined => true
    | str a, str b => a = b
    | bytes a, bytes b => a = b
    | date a, date b => a = b
    | timestamp a, timestamp b => a.equals b
    | member e _ n _, member e' _ n' _ => e = e' && n = n'
    | error a, error b => a.identity = b.identity
    | deferred a, deferred b => a = b
    | callable a, callable b => a = b
    | method a name, method b name' => identical a b && name = name'
    | iterator a, iterator b => a = b
    | type a _ _, type b _ _ => a = b
    | _, _ => false

/-- Whether two objects are of one class. -/
def sameClass (left right : ObjectValue) : Bool :=
  left.className = right.className && left.stringForm = right.stringForm
    && left.comparesAttributes == right.comparesAttributes && left.hashable == right.hashable

/-- The path of an error as a value; null when it has none. -/
def ofPath (path : List PathKey) : Value :=
  if path.isEmpty then null else list (path.map ofKey)

/-- The parts by which response errors are compared, except for the extensions. -/
def errorPart? (message : Option String) (path : List PathKey) (name : String) : Option Value :=
  match name with
  | "message" => some (str (message.getD ""))
  | "path" => some (ofPath path)
  | "nodes" | "source" | "positions" | "locations" | "original_error" => some null
  | _ => none

/-- Whether a value is the path of an error. -/
def isPath (path : List PathKey) (value : Value) : Option Bool :=
  match path, value.listed? with
  | [], _ => some value.isNull
  | keys, some items =>
    if keys.length != items.length then some false
    else (keys.zip items).allM fun (key, item) => atomsEqual (ofKey key) item
  | _, none => some false

/-- Whether the part of an error under a name, the extensions excepted, is a value. -/
def isErrorPart (message : Option String) (path : List PathKey) (name value : Value) :
    Option Bool :=
  match name with
  | str "path" => isPath path value
  | str name =>
    match errorPart? message path name with
    | some part => atomsEqual part value
    | none => some false
  | _ => some false

/-- Whether a map names the message, without which no map equals an error. -/
def namesMessage (entries : List (Value × Value)) : Bool :=
  entries.any fun
    | (str name, _) => name == "message"
    | _ => false

mutual

/-- Whether two values are equal. Response errors are equal when all their parts are, and equal a
map that names some of their parts, the message among them. -/
def equals? (left right : Value) : Option Bool :=
  match left with
  | list xs | growing _ xs =>
    match right.listed? with
    | some ys => if xs.length != ys.length then some false else equalItems? xs ys
    | none => some false
  | tuple xs =>
    match right with
    | tuple ys => equalItems? xs ys
    | _ => some false
  | set xs _ =>
    match right with
    | set ys _ => if xs.length != ys.length then some false else allFound? xs ys
    | _ => some false
  | map a =>
    match right with
    | map b => if a.length != b.length then some false else entriesFound? a b
    | error ⟨.response, message, extensions, path, _⟩ =>
      if namesMessage a then partsEqual? a message path (extensions.getD []) else some false
    | _ => some false
  | error ⟨.response, message, extensions, path, identity⟩ =>
    match right with
    | error other =>
      if identity = other.identity then some true
      else if other.kind != .response || message.getD "" != other.message.getD ""
        || path != other.path then some false
      else
        extensionsFound? extensions
          ((other.extensions.getD []).map fun (name, value) => (str name, value))
    | map b =>
      if namesMessage b then
        b.allM fun entry =>
          match entry with
          | (str "extensions", value) =>
            match value with
            | map fields => extensionsFound? extensions fields
            | _ => some false
          | (name, value) => isErrorPart message path name value
      else some false
    | _ => some false
  | object ⟨className, attributes, stringForm, comparesAttributes, hashable, identity⟩ =>
    match right with
    | object other =>
      if identity = other.identity then some true
      else if !comparesAttributes
        || !sameClass ⟨className, [], stringForm, true, hashable, identity⟩ other
        || attributes.length != other.attributes.length then some false
      else attributesFound? attributes other.attributes
    | _ => some false
  | left => atomsEqual left right

/-- Item by item, where the same value equals itself without being asked. -/
def equalItems? : List Value → List Value → Option Bool
  | [], [] => some true
  | x :: xs, y :: ys =>
    match if identical x y then some true else equals? x y with
    | some true => equalItems? xs ys
    | other => other
  | _, _ => some false

def allFound? : List Value → List Value → Option Bool
  | [], _ => some true
  | x :: xs, ys => do
    if ← ys.anyM fun y => if identical x y then some true else equals? x y then allFound? xs ys
    else return false

def entriesFound? : List (Value × Value) → List (Value × Value) → Option Bool
  | [], _ => some true
  | (key, value) :: rest, other =>
    match other.find? fun entry => identical key entry.1 || equals? key entry.1 == some true with
    | none => some false
    | some (_, found) =>
      match if identical value found then some true else equals? value found with
      | some true => entriesFound? rest other
      | answer => answer

def attributesFound? : List (String × Value) → List (String × Value) → Option Bool
  | [], _ => some true
  | (name, value) :: rest, other =>
    match other.lookup name with
    | none => some false
    | some found =>
      match if identical value found then some true else equals? value found with
      | some true => attributesFound? rest other
      | answer => answer

/-- Whether the extensions of an error are what a map holds. -/
def extensionsFound? : Option (List (String × Value)) → List (Value × Value) → Option Bool
  | none, other => some other.isEmpty
  | some fields, other =>
    if fields.length != other.length then some false else fieldsFound? fields other

def fieldsFound? : List (String × Value) → List (Value × Value) → Option Bool
  | [], _ => some true
  | (name, value) :: rest, other =>
    match other.find? fun entry => entry.1.string? == some name with
    | none => some false
    | some (_, found) =>
      match equals? value found with
      | some true => fieldsFound? rest other
      | answer => answer

/-- Whether every entry of a map is the part of an error under its name. -/
def partsEqual? : List (Value × Value) → Option String → List PathKey → List (String × Value) →
    Option Bool
  | [], _, _, _ => some true
  | (name, value) :: rest, message, path, extensions =>
    let same :=
      match name with
      | str "extensions" => equals? value (ofFields extensions)
      | name => isErrorPart message path name value
    match same with
    | some true => partsEqual? rest message path extensions
    | answer => answer

end

/-- Values that compare as equal. -/
def equals (left right : Value) : Bool := left.equals? right == some true

/-- Whether a value is found under a key: the same value, or an equal one. -/
def isKey (key value : Value) : Bool := identical key value || key.equals value

/-- Whether objects of the value's class say themselves which of them are equal, and can be looked
up by that. -/
def usesOwnEquality : Value → Bool
  | object o => o.comparesAttributes && o.hashable
  | error thrown => thrown.kind = .response
  | bytes _ | decimal .. | date _ | timestamp _ | member .. | undefined | type .. | method .. =>
    true
  | _ => false

/-- The entry of a map under a key. -/
def lookup? (entries : List (Value × α)) (key : Value) : Option α :=
  (entries.find? fun entry => entry.1.isKey key).map (·.2)

/-- Puts an entry into a map: an equal key keeps its place and takes the new value. -/
def putEntry (entries : List (Value × α)) (key : Value) (value : α) : List (Value × α) :=
  match entries with
  | [] => [(key, value)]
  | (k, v) :: rest =>
    if k.isKey key then (k, value) :: rest else (k, v) :: putEntry rest key value

def ofEntries (entries : List (Value × Value)) : Value :=
  map (entries.foldl (fun made (key, value) => putEntry made key value) [])

/-- A set of values keeps the first of those that are equal. -/
def distinctItems (items : List Value) : List Value :=
  items.foldl (fun made item => if made.any (·.isKey item) then made else made ++ [item]) []

end Value

end GraphQL
