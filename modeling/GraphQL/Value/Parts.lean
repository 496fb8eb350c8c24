import GraphQL.Value.Equality

/-!
Values seen through their parts: which of them hold items, and which can stand as names of a table.
-/

namespace GraphQL

namespace Value

/-- The items that iterating over a value gives, if it can be iterated over. Iterators are not
among these values, since their items are known only as they come. -/
def items? : Value → Option (List Value)
  | list items | growing _ items | tuple items | set items _ => some items
  | map entries => some (entries.map (·.1))
  | str text => some (text.toList.map fun c => str (String.singleton c))
  | bytes content => some (content.map fun byte => int byte.toNat)
  | _ => none

def entries? : Value → Option (List (Value × Value))
  | map entries => some entries
  | _ => none

mutual

/-- The first part that keeps a value from being looked up by, if there is one. -/
def unhashable? : Value → Option Value
  | list items => some (list items)
  | growing handle items => some (growing handle items)
  | set items identity => some (set items identity)
  | map entries => some (map entries)
  | tuple items => unhashableItem? items
  | object o => if o.comparesAttributes && !o.hashable then some (object o) else none
  | _ => none

def unhashableItem? : List Value → Option Value
  | [] => none
  | item :: rest =>
    match unhashable? item with
    | some part => some part
    | none => unhashableItem? rest

end

end Value

end GraphQL
