import GraphQL.Failure
import Mathlib.Data.List.Nodup

/-!
Responses before nulls spread. Every place of a response has failed or been filled; what the response
shows then follows from which places may be null, and its errors are those of the failed places.
-/

namespace GraphQL

mutual

/-- A field or a list item, and whether its type forbids null. -/
inductive Place where
  | failed (nonNull : Bool) (error : ResponseError)
  | filled (nonNull : Bool) (content : Content)

inductive Content where
  | null
  | leaf (value : Value)
  | list (items : List Place)
  | object (keys : List String) (fields : List Place)

end

mutual

/-- What a place shows. Nothing is shown where the null goes on to the place around it. -/
def Place.data? : Place → Option Value
  | .failed nonNull _ => if nonNull then none else some .null
  | .filled nonNull content =>
    match content.data? with
    | some value => some value
    | none => if nonNull then none else some .null

def Content.data? : Content → Option Value
  | .null => some .null
  | .leaf value => some value
  | .list items => (Place.dataOfAll items).map .list
  | .object keys fields => (Place.dataOfAll fields).map fun values => .ofFields (keys.zip values)

def Place.dataOfAll : List Place → Option (List Value)
  | [] => some []
  | place :: rest =>
    match place.data?, Place.dataOfAll rest with
    | some value, some values => some (value :: values)
    | _, _ => none

end

mutual

/-- The places that failed at or below a place, by their paths, with their errors. -/
def Place.failures (path : List PathKey) : Place → List (List PathKey × ResponseError)
  | .failed _ error => [(path, error)]
  | .filled _ content => content.failures path

def Content.failures (path : List PathKey) : Content → List (List PathKey × ResponseError)
  | .null | .leaf _ => []
  | .list items => Place.failuresFrom path 0 items
  | .object keys fields => Place.failuresUnder path keys fields

def Place.failuresFrom (path : List PathKey) (index : Nat) :
    List Place → List (List PathKey × ResponseError)
  | [] => []
  | place :: rest =>
    place.failures (path ++ [.index index]) ++ Place.failuresFrom path (index + 1) rest

def Place.failuresUnder (path : List PathKey) (keys : List String) :
    List Place → List (List PathKey × ResponseError)
  | [] => []
  | place :: rest =>
    place.failures (path ++ [.name (keys.headD "")])
      ++ Place.failuresUnder path keys.tail rest

end

/-- The errors of the places that failed. -/
def Place.errors (path : List PathKey) (place : Place) : List ResponseError :=
  (place.failures path).map (·.2)

def Content.errors (path : List PathKey) (content : Content) : List ResponseError :=
  (content.failures path).map (·.2)

mutual

/-- In every object the keys are distinct, one for each field. -/
def Place.Keyed : Place → Prop
  | .failed _ _ => True
  | .filled _ content => content.Keyed

def Content.Keyed : Content → Prop
  | .null | .leaf _ => True
  | .list items => Place.AllKeyed items
  | .object keys fields => keys.Nodup ∧ keys.length = fields.length ∧ Place.AllKeyed fields

def Place.AllKeyed : List Place → Prop
  | [] => True
  | place :: rest => place.Keyed ∧ Place.AllKeyed rest

end

mutual

theorem Place.failures_below (path : List PathKey) (place : Place)
    (failure : List PathKey × ResponseError) (member : failure ∈ place.failures path) :
    ∃ rest, failure.1 = path ++ rest := by
  match place with
  | .failed nonNull error =>
      rw [Place.failures, List.mem_singleton] at member
      exact ⟨[], by rw [member, List.append_nil]⟩
  | .filled nonNull content =>
      rw [Place.failures] at member
      exact content.failures_below path failure member

theorem Content.failures_below (path : List PathKey) (content : Content)
    (failure : List PathKey × ResponseError) (member : failure ∈ content.failures path) :
    ∃ rest, failure.1 = path ++ rest := by
  match content with
  | .null => cases member
  | .leaf value => cases member
  | .list items =>
      rcases Place.failuresFrom_below path 0 items failure member with ⟨index, rest, _, found⟩
      exact ⟨_, found⟩
  | .object keys fields =>
      rcases Place.failuresUnder_below path keys fields failure member with ⟨key, rest, _, found⟩
      exact ⟨_, found⟩

theorem Place.failuresFrom_below (path : List PathKey) (start : Nat) (items : List Place)
    (failure : List PathKey × ResponseError)
    (member : failure ∈ Place.failuresFrom path start items) :
    ∃ index rest, start ≤ index ∧ failure.1 = path ++ .index (index : Nat) :: rest := by
  match items with
  | [] => cases member
  | place :: others =>
      rw [Place.failuresFrom, List.mem_append] at member
      rcases member with here | later
      · rcases place.failures_below _ failure here with ⟨rest, found⟩
        exact ⟨start, rest, Nat.le_refl _, by rw [found, List.append_assoc]; rfl⟩
      · rcases Place.failuresFrom_below path (start + 1) others failure later with
          ⟨index, rest, after, found⟩
        exact ⟨index, rest, by omega, found⟩

theorem Place.failuresUnder_below (path : List PathKey) (keys : List String) (fields : List Place)
    (failure : List PathKey × ResponseError)
    (member : failure ∈ Place.failuresUnder path keys fields) :
    ∃ key rest, (keys.length = fields.length → key ∈ keys)
      ∧ failure.1 = path ++ .name key :: rest := by
  match fields with
  | [] => cases member
  | place :: others =>
      rw [Place.failuresUnder, List.mem_append] at member
      rcases member with here | later
      · rcases place.failures_below _ failure here with ⟨rest, found⟩
        refine ⟨keys.headD "", rest, fun size => ?_, by rw [found, List.append_assoc]; rfl⟩
        cases keys with
        | nil => cases size
        | cons key keys => exact List.mem_cons_self
      · rcases Place.failuresUnder_below path keys.tail others failure later with
          ⟨key, rest, inside, found⟩
        refine ⟨key, rest, fun size => List.mem_of_mem_tail (inside ?_), found⟩
        rw [List.length_tail, size, List.length_cons, Nat.add_sub_cancel]

end

mutual

theorem Place.nodup_failures (path : List PathKey) (place : Place) (keyed : place.Keyed) :
    ((place.failures path).map (·.1)).Nodup := by
  match place with
  | .failed nonNull error => exact List.nodup_singleton path
  | .filled nonNull content =>
      rw [Place.failures]
      exact content.nodup_failures path keyed

theorem Content.nodup_failures (path : List PathKey) (content : Content) (keyed : content.Keyed) :
    ((content.failures path).map (·.1)).Nodup := by
  match content with
  | .null => exact List.nodup_nil
  | .leaf value => exact List.nodup_nil
  | .list items => exact Place.nodup_failuresFrom path 0 items keyed
  | .object keys fields => exact Place.nodup_failuresUnder path keys fields keyed.1 keyed.2.1 keyed.2.2

theorem Place.nodup_failuresFrom (path : List PathKey) (start : Nat) (items : List Place)
    (keyed : Place.AllKeyed items) :
    ((Place.failuresFrom path start items).map (·.1)).Nodup := by
  match items with
  | [] => exact List.nodup_nil
  | place :: others =>
      rw [Place.failuresFrom, List.map_append, List.nodup_append]
      refine ⟨place.nodup_failures _ keyed.1,
        Place.nodup_failuresFrom path (start + 1) others keyed.2, ?_⟩
      intro left first right second same
      rcases List.mem_map.1 first with ⟨failure, here, rfl⟩
      rcases List.mem_map.1 second with ⟨other, later, rfl⟩
      rcases place.failures_below _ failure here with ⟨rest, found⟩
      rcases Place.failuresFrom_below path (start + 1) others other later with
        ⟨index, rest', after, found'⟩
      rw [found, found', List.append_assoc, List.append_cancel_left_eq] at same
      simp only [List.cons_append, List.cons.injEq, PathKey.index.injEq] at same
      omega

theorem Place.nodup_failuresUnder (path : List PathKey) (keys : List String) (fields : List Place)
    (distinct : keys.Nodup) (size : keys.length = fields.length) (keyed : Place.AllKeyed fields) :
    ((Place.failuresUnder path keys fields).map (·.1)).Nodup := by
  match keys, fields with
  | _, [] => exact List.nodup_nil
  | key :: keys, place :: others =>
      have smaller : keys.length = others.length := Nat.succ.inj size
      rw [Place.failuresUnder, List.map_append, List.nodup_append]
      refine ⟨place.nodup_failures _ keyed.1,
        Place.nodup_failuresUnder path keys others (List.nodup_cons.1 distinct).2 smaller keyed.2, ?_⟩
      intro left first right second same
      rcases List.mem_map.1 first with ⟨failure, here, rfl⟩
      rcases List.mem_map.1 second with ⟨other, later, rfl⟩
      rcases place.failures_below _ failure here with ⟨rest, found⟩
      rcases Place.failuresUnder_below path keys others other later with
        ⟨key', rest', inside, found'⟩
      rw [found, found', List.append_assoc, List.append_cancel_left_eq] at same
      simp only [List.headD_cons, List.cons_append, List.cons.injEq, PathKey.name.injEq] at same
      exact (List.nodup_cons.1 distinct).1 (same.1 ▸ inside smaller)

end

end GraphQL
