import GraphQL.Schema.Layout
import GraphQL.Value.Parts

/-!
The type map: every named type that the roots, the extra types and the directives of a schema reach,
under its name, in the order of a depth-first walk. Overridden scalars are replaced by what
overrides them.
-/

namespace GraphQL

abbrev TypeMap := List (Value × TypeId)

namespace InputValue

def reference (input : InputValue) : Checked Candidate := input.type.map .type

end InputValue

namespace Field

/-- The types that a field refers to: its own, then those of its arguments. -/
def references (field : Field) : Checked (List Candidate) := do
  let own ← field.type
  let arguments ← field.arguments
  return .type own :: (← arguments.items.mapM InputValue.reference)

end Field

namespace TypeDef

def fieldReferences (fields : Checked (Table Field)) (interfaces : Checked (List Candidate)) :
    Checked (List Candidate) := do
  let interfaces ← interfaces
  let fields ← fields
  return interfaces ++ (← fields.items.mapM Field.references).flatten

/-- The types that a type refers to, in the order of its declaration. -/
def references (type : TypeDef) : Checked (List Candidate) :=
  match type.body with
  | .scalar _ | .enum _ => .ok []
  | .object fields interfaces _ => fieldReferences fields interfaces
  | .interface fields interfaces _ => fieldReferences fields interfaces
  | .union members _ => members
  | .input fields => do (← fields).items.mapM InputValue.reference

end TypeDef

namespace Layout

/-- The types that there are. -/
def ids (layout : Layout) : List TypeId :=
  Standard.all.map .standard ++ (List.range layout.types.size).map .declared

/-- How many types are not in a map. -/
def missing (layout : Layout) (found : TypeMap) : Nat :=
  (layout.ids.filter fun id => !(found.any fun entry => entry.2 == id)).length

theorem missing_append_lt {layout : Layout} {found : TypeMap} {id : TypeId} (name : Value)
    (known : id ∈ layout.ids) (fresh : ¬ (found.any fun entry => entry.2 == id) = true) :
    layout.missing (found ++ [(name, id)]) < layout.missing found := by
  simp only [missing, ← List.countP_eq_length_filter]
  have fewer : ∀ ids : List TypeId,
      (ids.countP fun i => !((found ++ [(name, id)]).any fun entry => entry.2 == i))
        ≤ ids.countP fun i => !(found.any fun entry => entry.2 == i) := fun ids =>
    List.countP_mono_left fun i _ left => by
      simp only [List.any_append, Bool.not_or, Bool.and_eq_true] at left
      exact left.1
  obtain ⟨before, after, split⟩ := List.append_of_mem known
  rw [split]
  simp only [List.countP_append, List.countP_cons]
  have front := fewer before
  have back := fewer after
  have left : (!((found ++ [(name, id)]).any fun entry => entry.2 == id)) = false := by simp
  have right : (!(found.any fun entry => entry.2 == id)) = true := by
    rw [Bool.not_eq_true']
    exact Bool.eq_false_iff.2 fresh
  simp only [left, right, if_true]
  simp only [Bool.false_eq_true, if_false]
  omega

/-- Walks from the pending types on, each type before the types that it refers to. -/
def walk (layout : Layout) (pending : List Candidate) (found : TypeMap) : Checked TypeMap :=
  match pending with
  | [] => .ok found
  | .other value :: rest =>
    if value.isNull then layout.walk rest found else .error (.notNamedType value.shown)
  | .type ref :: rest =>
    match ref.innermost with
    | .error fault => .error fault
    | .ok inner =>
      let id := layout.leafInEffect inner
      if _ : found.any fun entry => entry.2 == id then layout.walk rest found
      else
        let type := layout.definition id
        match type.name.unhashable? with
        | some part => .error (.unhashableName part.typeName)
        | none =>
          if (Value.lookup? found type.name).isSome then .error (.namedTwice type.label)
          else if _ : id ∈ layout.ids then
            match type.references with
            | .error fault => .error fault
            | .ok references => layout.walk (references ++ rest) (found ++ [(type.name, id)])
          else .error (.notNamedType type.label)
termination_by (layout.missing found, pending.length)
decreasing_by
  · exact Prod.Lex.right _ (by simp)
  · exact Prod.Lex.right _ (by simp)
  · exact Prod.Lex.left _ _ (missing_append_lt _ (by assumption) (by assumption))

/-- Where the walk starts. -/
def origins (layout : Layout) : Checked (List Candidate) := do
  let roots := [layout.query, layout.mutation, layout.subscription].filterMap id
  let arguments ← layout.directives.mapM fun directive => do
    (← directive.arguments).items.mapM InputValue.reference
  return roots ++ layout.extra ++ arguments.flatten

end Layout

/-- The values among which there is an order. -/
inductive OrderClass where
  | text
  | number
  | bytes
  | sequence
  | day
  | moment
deriving DecidableEq

def OrderClass.ofValue? : Value → Option OrderClass
  | .str _ => some text
  | .bool _ | .int _ | .float .. | .decimal .. => some number
  | .bytes _ => some bytes
  | .tuple _ => some sequence
  | .date _ => some day
  | .timestamp _ => some moment
  | _ => none

def ordered (left right : Value) : Bool :=
  match OrderClass.ofValue? left, OrderClass.ofValue? right with
  | some a, some b => a = b
  | _, _ => false

/-- The names of a type map must have an order between them. -/
def checkOrder : List Value → Checked Unit
  | first :: second :: rest =>
    if ordered second first then checkOrder (second :: rest)
    else .error (.unorderedNames second.typeName first.typeName)
  | _ => .ok ()

def Layout.typeMap (layout : Layout) : Checked TypeMap := do
  let found ← layout.walk (← layout.origins) []
  checkOrder (found.map (·.1))
  return found

end GraphQL
