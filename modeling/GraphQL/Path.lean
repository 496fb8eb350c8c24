/-!
Response paths: the position of a value in a response, as the keys and indices that lead to it from
the root. Extending a path shares the path it extends.
-/

namespace GraphQL

inductive PathKey where
  | name (key : String)
  | index (position : Int)
deriving DecidableEq, Repr, Inhabited

/-- A path has at least one key; the root of a response has no path. -/
inductive ResponsePath where
  | start (key : PathKey)
  | extend (parent : ResponsePath) (key : PathKey)
deriving DecidableEq, Repr

namespace ResponsePath

def key : ResponsePath → PathKey
  | start key => key
  | extend _ key => key

def parent? : ResponsePath → Option ResponsePath
  | start _ => none
  | extend parent _ => some parent

/-- The number of keys before the last one. -/
def depth : ResponsePath → Nat
  | start _ => 0
  | extend parent _ => parent.depth + 1

/-- Adds a key behind a path, or starts one at the root. -/
def add (parent : Option ResponsePath) (key : PathKey) : ResponsePath :=
  match parent with
  | none => start key
  | some path => extend path key

/-- The keys from the root on. -/
def toList : ResponsePath → List PathKey
  | start key => [key]
  | extend parent key => parent.toList ++ [key]

theorem toList_add (parent : Option ResponsePath) (key : PathKey) :
    (add parent key).toList = (parent.map toList).getD [] ++ [key] := by
  cases parent <;> rfl

theorem length_toList (path : ResponsePath) : path.toList.length = path.depth + 1 := by
  induction path with
  | start key => rfl
  | extend parent key ih => simp [toList, depth, ih]

theorem toList_ne_nil (path : ResponsePath) : path.toList ≠ [] := by
  cases path <;> simp [toList]

theorem toList_injective {left right : ResponsePath} (same : left.toList = right.toList) :
    left = right := by
  induction left generalizing right with
  | start key =>
    cases right with
    | start key' => simpa [toList] using same
    | extend parent key' =>
      have size := congrArg List.length same
      simp [toList, length_toList] at size
  | extend parent key ih =>
    cases right with
    | start key' =>
      have size := congrArg List.length same
      simp [toList, length_toList] at size
    | extend parent' key' =>
      have parts : parent.toList = parent'.toList ∧ key = key' := by simpa [toList] using same
      rw [ih parts.1, parts.2]

/-- The response keys among the keys of a path, without the list indices. -/
def names (path : ResponsePath) : List String :=
  path.toList.filterMap fun
    | .name key => some key
    | .index _ => none

end ResponsePath

end GraphQL
