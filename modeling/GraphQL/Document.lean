/-!
Query documents as trees. Every node keeps the offset of its first character, which places it in the
source and tells it apart from every other node of the document.
-/

namespace GraphQL

inductive Literal where
  | reference (start : Nat) (name : String)
  | int (start : Nat) (numeral : String)
  | float (start : Nat) (numeral : String)
  | string (start : Nat) (text : String) (block : Bool)
  | boolean (start : Nat) (value : Bool)
  | null (start : Nat)
  | enum (start : Nat) (name : String)
  | list (start : Nat) (items : List Literal)
  | object (start : Nat) (fields : List (String × Literal))
deriving Inhabited, Repr

namespace Literal

def start : Literal → Nat
  | reference start _ | int start _ | float start _ | string start _ _ | boolean start _
  | null start | enum start _ | list start _ | object start _ => start

def isNull : Literal → Bool
  | null _ => true
  | _ => false

def reference? : Literal → Option String
  | reference _ name => some name
  | _ => none

end Literal

/-- A type as a document writes it. -/
inductive TypeNode where
  | named (start : Nat) (name : String)
  | list (start : Nat) (of : TypeNode)
  | nonNull (of : TypeNode)
deriving Inhabited, Repr

def TypeNode.start : TypeNode → Nat
  | named start _ => start
  | list start _ => start
  | nonNull of => of.start

structure ArgumentNode where
  start : Nat
  name : String
  value : Literal
deriving Inhabited, Repr

structure DirectiveNode where
  start : Nat
  name : String
  arguments : List ArgumentNode
deriving Inhabited, Repr

/-- A selection set is never empty, so a field without one has an empty list. -/
inductive Selection where
  | field (start : Nat) (aliasName : Option String) (name : String) (arguments : List ArgumentNode)
      (directives : List DirectiveNode) (selections : List Selection)
  | inlineFragment (start : Nat) (condition : Option String) (directives : List DirectiveNode)
      (selections : List Selection)
  | spread (start : Nat) (name : String) (directives : List DirectiveNode)
deriving Inhabited, Repr

def Selection.start : Selection → Nat
  | field start .. | inlineFragment start .. | spread start .. => start

structure FieldNode where
  start : Nat
  aliasName : Option String
  name : String
  arguments : List ArgumentNode
  directives : List DirectiveNode
  selections : List Selection
deriving Inhabited, Repr

/-- The key of the field in the response. -/
def FieldNode.responseKey (node : FieldNode) : String := node.aliasName.getD node.name

mutual

/-- Whether two literals are the same, down to where they stand. -/
def Literal.same : Literal → Literal → Bool
  | reference start name, reference start' name' => start == start' && name == name'
  | int start numeral, int start' numeral' => start == start' && numeral == numeral'
  | float start numeral, float start' numeral' => start == start' && numeral == numeral'
  | string start text block, string start' text' block' =>
    start == start' && text == text' && block == block'
  | boolean start value, boolean start' value' => start == start' && value == value'
  | null start, null start' => start == start'
  | enum start name, enum start' name' => start == start' && name == name'
  | list start items, list start' items' => start == start' && Literal.sameItems items items'
  | object start fields, object start' fields' =>
    start == start' && Literal.sameFields fields fields'
  | _, _ => false

def Literal.sameItems : List Literal → List Literal → Bool
  | [], [] => true
  | item :: rest, item' :: rest' => Literal.same item item' && Literal.sameItems rest rest'
  | _, _ => false

def Literal.sameFields : List (String × Literal) → List (String × Literal) → Bool
  | [], [] => true
  | (name, literal) :: rest, (name', literal') :: rest' =>
    name == name' && Literal.same literal literal' && Literal.sameFields rest rest'
  | _, _ => false

end

/-- Whether two lists have the same entries, by what makes two entries the same. -/
def sameEach (same : α → α → Bool) : List α → List α → Bool
  | [], [] => true
  | entry :: rest, entry' :: rest' => same entry entry' && sameEach same rest rest'
  | _, _ => false

def ArgumentNode.same (left right : ArgumentNode) : Bool :=
  left.start == right.start && left.name == right.name && left.value.same right.value

def DirectiveNode.same (left right : DirectiveNode) : Bool :=
  left.start == right.start && left.name == right.name
    && sameEach ArgumentNode.same left.arguments right.arguments

mutual

/-- Whether two selections are the same, down to where they stand. -/
def Selection.same : Selection → Selection → Bool
  | field start alias_ name arguments directives selections,
    field start' alias' name' arguments' directives' selections' =>
    start == start' && alias_ == alias' && name == name'
      && sameEach ArgumentNode.same arguments arguments'
      && sameEach DirectiveNode.same directives directives'
      && Selection.sameAll selections selections'
  | inlineFragment start condition directives selections,
    inlineFragment start' condition' directives' selections' =>
    start == start' && condition == condition'
      && sameEach DirectiveNode.same directives directives'
      && Selection.sameAll selections selections'
  | spread start name directives, spread start' name' directives' =>
    start == start' && name == name' && sameEach DirectiveNode.same directives directives'
  | _, _ => false

def Selection.sameAll : List Selection → List Selection → Bool
  | [], [] => true
  | selection :: rest, selection' :: rest' =>
    Selection.same selection selection' && Selection.sameAll rest rest'
  | _, _ => false

end

def FieldNode.same (left right : FieldNode) : Bool :=
  left.start == right.start && left.aliasName == right.aliasName && left.name == right.name
    && sameEach ArgumentNode.same left.arguments right.arguments
    && sameEach DirectiveNode.same left.directives right.directives
    && Selection.sameAll left.selections right.selections

mutual

theorem Literal.eq_of_same : (left right : Literal) → left.same right = true → left = right
  | reference .., right, same
  | int .., right, same
  | float .., right, same
  | string .., right, same
  | boolean .., right, same
  | null _, right, same
  | enum .., right, same => by cases right <;> simp_all [Literal.same]
  | list _ items, right, same => by
    cases right with
    | list _ items' =>
      simp only [Literal.same, Bool.and_eq_true, beq_iff_eq] at same
      rw [same.1, Literal.eq_of_sameItems items items' same.2]
    | _ => simp [Literal.same] at same
  | object _ fields, right, same => by
    cases right with
    | object _ fields' =>
      simp only [Literal.same, Bool.and_eq_true, beq_iff_eq] at same
      rw [same.1, Literal.eq_of_sameFields fields fields' same.2]
    | _ => simp [Literal.same] at same

theorem Literal.eq_of_sameItems :
    (left right : List Literal) → Literal.sameItems left right = true → left = right
  | [], right, same => by cases right <;> simp_all [Literal.sameItems]
  | item :: rest, right, same => by
    cases right with
    | nil => simp [Literal.sameItems] at same
    | cons item' rest' =>
      simp only [Literal.sameItems, Bool.and_eq_true] at same
      rw [Literal.eq_of_same item item' same.1, Literal.eq_of_sameItems rest rest' same.2]

theorem Literal.eq_of_sameFields :
    (left right : List (String × Literal)) → Literal.sameFields left right = true → left = right
  | [], right, same => by cases right <;> simp_all [Literal.sameFields]
  | (name, literal) :: rest, right, same => by
    cases right with
    | nil => simp [Literal.sameFields] at same
    | cons entry' rest' =>
      obtain ⟨name', literal'⟩ := entry'
      simp only [Literal.sameFields, Bool.and_eq_true, beq_iff_eq] at same
      rw [same.1.1, Literal.eq_of_same literal literal' same.1.2,
        Literal.eq_of_sameFields rest rest' same.2]

end

theorem eq_of_sameEach {same : α → α → Bool}
    (sound : ∀ entry entry', same entry entry' = true → entry = entry') {left right : List α}
    (all : sameEach same left right = true) : left = right := by
  induction left generalizing right with
  | nil => cases right <;> simp_all [sameEach]
  | cons entry rest ih =>
    cases right with
    | nil => simp [sameEach] at all
    | cons entry' rest' =>
      simp only [sameEach, Bool.and_eq_true] at all
      rw [sound entry entry' all.1, ih all.2]

theorem ArgumentNode.eq_of_same (left right : ArgumentNode) (same : left.same right = true) :
    left = right := by
  obtain ⟨start, name, value⟩ := left
  obtain ⟨start', name', value'⟩ := right
  simp only [ArgumentNode.same, Bool.and_eq_true, beq_iff_eq] at same
  rw [same.1.1, same.1.2, Literal.eq_of_same value value' same.2]

theorem DirectiveNode.eq_of_same (left right : DirectiveNode) (same : left.same right = true) :
    left = right := by
  obtain ⟨start, name, arguments⟩ := left
  obtain ⟨start', name', arguments'⟩ := right
  simp only [DirectiveNode.same, Bool.and_eq_true, beq_iff_eq] at same
  rw [same.1.1, same.1.2, eq_of_sameEach ArgumentNode.eq_of_same same.2]

mutual

theorem Selection.eq_of_same : (left right : Selection) → left.same right = true → left = right
  | field _ _ _ _ _ selections, right, same => by
    cases right with
    | field _ _ _ _ _ selections' =>
      simp only [Selection.same, Bool.and_eq_true, beq_iff_eq] at same
      obtain ⟨⟨⟨⟨⟨start, alias_⟩, name⟩, arguments⟩, directives⟩, rest⟩ := same
      rw [start, alias_, name, eq_of_sameEach ArgumentNode.eq_of_same arguments,
        eq_of_sameEach DirectiveNode.eq_of_same directives,
        Selection.eq_of_sameAll selections selections' rest]
    | _ => simp [Selection.same] at same
  | inlineFragment _ _ _ selections, right, same => by
    cases right with
    | inlineFragment _ _ _ selections' =>
      simp only [Selection.same, Bool.and_eq_true, beq_iff_eq] at same
      obtain ⟨⟨⟨start, condition⟩, directives⟩, rest⟩ := same
      rw [start, condition, eq_of_sameEach DirectiveNode.eq_of_same directives,
        Selection.eq_of_sameAll selections selections' rest]
    | _ => simp [Selection.same] at same
  | spread .., right, same => by
    cases right with
    | spread _ _ _ =>
      simp only [Selection.same, Bool.and_eq_true, beq_iff_eq] at same
      rw [same.1.1, same.1.2, eq_of_sameEach DirectiveNode.eq_of_same same.2]
    | _ => simp [Selection.same] at same

theorem Selection.eq_of_sameAll :
    (left right : List Selection) → Selection.sameAll left right = true → left = right
  | [], right, same => by cases right <;> simp_all [Selection.sameAll]
  | selection :: rest, right, same => by
    cases right with
    | nil => simp [Selection.sameAll] at same
    | cons selection' rest' =>
      simp only [Selection.sameAll, Bool.and_eq_true] at same
      rw [Selection.eq_of_same selection selection' same.1,
        Selection.eq_of_sameAll rest rest' same.2]

end

theorem FieldNode.eq_of_same (left right : FieldNode) (same : left.same right = true) :
    left = right := by
  obtain ⟨start, alias_, name, arguments, directives, selections⟩ := left
  obtain ⟨start', alias', name', arguments', directives', selections'⟩ := right
  simp only [FieldNode.same, Bool.and_eq_true, beq_iff_eq] at same
  obtain ⟨⟨⟨⟨⟨sameStart, sameAlias⟩, sameName⟩, sameArguments⟩, sameDirectives⟩, rest⟩ := same
  rw [sameStart, sameAlias, sameName, eq_of_sameEach ArgumentNode.eq_of_same sameArguments,
    eq_of_sameEach DirectiveNode.eq_of_same sameDirectives,
    Selection.eq_of_sameAll selections selections' rest]

inductive OperationKind where
  | query
  | mutation
  | subscription
deriving DecidableEq, Repr, Inhabited

def OperationKind.name : OperationKind → String
  | query => "query"
  | mutation => "mutation"
  | subscription => "subscription"

def OperationKind.all : List OperationKind := [query, mutation, subscription]

structure VariableNode where
  start : Nat
  name : String
  type : TypeNode
  default : Option Literal
deriving Inhabited, Repr

structure Operation where
  start : Nat
  kind : OperationKind
  name : Option String
  variableNodes : List VariableNode
  directives : List DirectiveNode
  selections : List Selection
deriving Inhabited, Repr

structure Fragment where
  start : Nat
  name : String
  condition : String
  directives : List DirectiveNode
  selections : List Selection
deriving Inhabited, Repr

/-- Definitions of types have no part in execution. -/
inductive Definition where
  | operation (operation : Operation)
  | fragment (fragment : Fragment)
  | typeSystem
deriving Inhabited, Repr

/-- A place in a source, as line and column from 1. -/
structure Location where
  line : Nat
  column : Nat
deriving DecidableEq, Repr, Inhabited

namespace Location

/-- Walks over characters, of which the first stands at the given place. A line ends at a line feed,
a carriage return, or both in this order. -/
def advance : (count : Nat) → List Char → Location → Location
  | 0, _, place => place
  | _, [], place => place
  | count + 1, '\r' :: '\n' :: rest, place =>
    match count with
    | 0 => ⟨place.line, place.column + 1⟩
    | count + 1 => advance count rest ⟨place.line + 1, 1⟩
  | count + 1, c :: rest, place =>
    advance count rest
      (if c = '\n' ∨ c = '\r' then ⟨place.line + 1, 1⟩ else ⟨place.line, place.column + 1⟩)

def ofOffset (source : List Char) (offset : Nat) : Location :=
  advance offset source ⟨1, 1⟩

end Location

structure Document where
  source : List Char
  definitions : List Definition
deriving Inhabited, Repr

namespace Document

def operations (document : Document) : List Operation :=
  document.definitions.filterMap fun
    | .operation operation => some operation
    | _ => none

/-- Puts a fragment under its name: a name given twice keeps its place and takes the later one. -/
def putFragment (fragments : List Fragment) (fragment : Fragment) : List Fragment :=
  match fragments with
  | [] => [fragment]
  | first :: rest =>
    if first.name = fragment.name then fragment :: rest else first :: putFragment rest fragment

/-- The fragments by name, in the order of the document. -/
def fragments (document : Document) : List Fragment :=
  document.definitions.foldl (fun made definition =>
    match definition with
    | .fragment fragment => putFragment made fragment
    | _ => made) []

def locate (document : Document) (offset : Nat) : Location :=
  .ofOffset document.source offset

/-- Why no operation of a document can be chosen. -/
inductive ChoiceFault where
  | noOperation
  | severalOperations
  | unknown (name : String)
deriving DecidableEq, Repr

def ChoiceFault.message : ChoiceFault → String
  | noOperation => "Must provide an operation."
  | severalOperations => "Must provide operation name if query contains multiple operations."
  | unknown name => "Unknown operation named \"" ++ name ++ "\"."

/-- The operation of a name; without a name, the only one. -/
def choose (document : Document) (name : Option String) : Except ChoiceFault Operation :=
  match name with
  | none =>
    match document.operations with
    | [] => .error .noOperation
    | [operation] => .ok operation
    | _ => .error .severalOperations
  | some name =>
    match document.operations.find? (·.name == some name) with
    | some operation => .ok operation
    | none => .error (.unknown name)

end Document

/-- The fragment of a name. -/
def fragment? (fragments : List Fragment) (name : String) : Option Fragment :=
  fragments.find? (·.name == name)

end GraphQL
