import GraphQL.Value.Text

/-!
Sums, products and comparison of values, for the numbers and texts that costs and application code
reckon with. Decimals are computed to a fixed number of digits.
-/

namespace GraphQL

namespace Binary64

/-- The product of two numbers, rounded once. -/
def mul : Binary64 → Binary64 → Binary64
  | .finite n m e, .finite n' m' e' =>
    match fraction? (.finite n m e), fraction? (.finite n' m' e') with
    | some (a, b), some (c, d) =>
      let product := a * c
      if product = 0 then zero (n ^^ n') else ofRatio (n ^^ n') product.natAbs (b * d)
    | _, _ => .nan
  | .infinite n, .infinite n' => .infinite (n ^^ n')
  | .infinite n, .finite n' m e => if isZero (.finite n' m e) then .nan else .infinite (n ^^ n')
  | .finite n m e, .infinite n' => if isZero (.finite n m e) then .nan else .infinite (n ^^ n')
  | _, _ => .nan

/-- Whether a number is greater than an integer. -/
def exceeds (x : Binary64) (n : Int) : Bool :=
  match x with
  | .nan => false
  | .infinite negative => !negative
  | x =>
    match x.fraction? with
    | some (a, b) => n * b < a
    | none => false

end Binary64

namespace Decimal

/-- How many digits a computed number has at most. -/
def precision : Nat := 28

/-- A number with no more digits than the precision allows, a tie rounded to the even one. -/
def rounded (negative : Bool) (coefficient : Nat) (exponent : Int) : Decimal :=
  let excess := (digits coefficient).length - precision
  let kept := Binary64.divideToEven coefficient (Nat.pow 10 excess)
  if kept = Nat.pow 10 precision then .finite negative (kept / 10) (exponent + excess + 1)
  else .finite negative kept (exponent + excess)

def signed (negative : Bool) (coefficient : Nat) : Int :=
  if negative then -(coefficient : Int) else coefficient

/-- A number too small beside another one to do more than to break a tie. -/
def reduced (coefficient : Nat) (exponent lowest : Int) : Nat × Int :=
  if coefficient ≠ 0 ∧ adjusted coefficient exponent < lowest then (1, lowest)
  else (coefficient, exponent)

def sumOfFinite (n : Bool) (c : Nat) (e : Int) (n' : Bool) (c' : Nat) (e' : Int) : Decimal :=
  let floor (coefficient : Nat) (exponent : Int) : Int :=
    min exponent (adjusted coefficient exponent - precision) - 2
  let (d, f) := if c' = 0 then (c, e) else reduced c e (floor c' e')
  let (d', f') := if c = 0 then (c', e') else reduced c' e' (floor c e)
  let lowest := min f f'
  let total := signed n (d * Nat.pow 10 (f - lowest).toNat)
    + signed n' (d' * Nat.pow 10 (f' - lowest).toNat)
  if total = 0 then rounded (n && n') 0 lowest
  else rounded (decide (total < 0)) total.natAbs lowest

/-- The quiet form of the first operand that is no number; there is none for a signaling one. -/
def quiet? (left right : Decimal) : Option Decimal :=
  if left.isSignaling || right.isSignaling then none
  else
    match left with
    | .nan .. => some left
    | _ => some right

/-- The sum of two numbers, which is undefined for a signaling one and for opposite infinities. -/
def add? (left right : Decimal) : Option Decimal :=
  match left, right with
  | .finite n c e, .finite n' c' e' => some (sumOfFinite n c e n' c' e')
  | .infinite n, .infinite n' => if n = n' then some (.infinite n) else none
  | .infinite n, .finite .. => some (.infinite n)
  | .finite .., .infinite n => some (.infinite n)
  | left, right => quiet? left right

/-- The product of two numbers, which is undefined for a signaling one and for zero times
infinity. -/
def mul? (left right : Decimal) : Option Decimal :=
  match left, right with
  | .finite n c e, .finite n' c' e' => some (rounded (n ^^ n') (c * c') (e + e'))
  | .infinite n, .infinite n' => some (.infinite (n ^^ n'))
  | .infinite n, .finite n' c _ => if c = 0 then none else some (.infinite (n ^^ n'))
  | .finite n c _, .infinite n' => if c = 0 then none else some (.infinite (n ^^ n'))
  | left, right => quiet? left right

/-- Whether a number is greater than an integer; there is no answer for what is no number. -/
def exceeds? (x : Decimal) (n : Int) : Option Bool :=
  match x with
  | .nan .. => none
  | .infinite negative => some !negative
  | x =>
    match (x.add? (.ofInt (-n))) with
    | some (.finite negative coefficient _) => some (!negative && coefficient ≠ 0)
    | _ => none

end Decimal

namespace Value

def int? : Value → Option Int
  | bool value => some (if value then 1 else 0)
  | int value => some value
  | _ => none

/-- Integers and floating point numbers as floating point numbers. -/
def float? : Value → Option Binary64
  | float value _ => some value
  | value => value.int?.map .ofInt

/-- Integers and decimals as decimals, unless both are integers. -/
def decimals? (left right : Value) : Option (Decimal × Decimal) :=
  match left, right with
  | decimal a _, decimal b _ => some (a, b)
  | decimal a _, other => other.int?.map fun n => (a, .ofInt n)
  | other, decimal b _ => other.int?.map fun n => (.ofInt n, b)
  | _, _ => none

def ofDecimal? (result : Option Decimal) : Except ValueFault Value :=
  match result with
  | some x => .ok (ofDecimal x)
  | none => .error .signalingCompared

/-- A sequence with another one of its kind behind it. -/
def joinedTo (left right : Value) : Except ValueFault Value :=
  match left with
  | str a =>
    match right with
    | str b => .ok (str (a ++ b))
    | other => .error (.textSum other.typeName)
  | bytes a =>
    match right with
    | bytes b => .ok (bytes (a ++ b))
    | other => .error (.bytesSum other.typeName)
  | list a | growing _ a =>
    match right.listed? with
    | some b => .ok (list (a ++ b))
    | none => .error (.listSum right.typeName)
  | tuple a =>
    match right with
    | tuple b => .ok (tuple (a ++ b))
    | other => .error (.tupleSum other.typeName)
  | left => .error (.unsupportedSum left.typeName right.typeName)

def plus (left right : Value) : Except ValueFault Value :=
  match left.int?, right.int? with
  | some a, some b => .ok (int (a + b))
  | _, _ =>
    match left.float?, right.float? with
    | some a, some b => .ok (ofFloat (a.add b))
    | _, _ =>
      match decimals? left right with
      | some (a, b) => ofDecimal? (a.add? b)
      | none => joinedTo left right

/-- A total with something more added to it. -/
def raisedBy (total more : Value) : Except ValueFault Value :=
  (total.plus more).mapError fun
    | .unsupportedSum left right => .unsupportedGrowth left right
    | fault => fault

def isSequence : Value → Bool
  | str _ | bytes _ | list _ | growing .. | tuple _ => true
  | _ => false

/-- A sequence with as many copies of its items as a number says. -/
def repeated (count right : Value) : Except ValueFault Value :=
  match count.int? with
  | some a =>
    match right with
    | str b => .ok (str (String.join (List.replicate a.toNat b)))
    | bytes b => .ok (bytes (List.replicate a.toNat b).flatten)
    | list b | growing _ b => .ok (list (List.replicate a.toNat b).flatten)
    | tuple b => .ok (tuple (List.replicate a.toNat b).flatten)
    | other => .error (.unsupportedProduct count.typeName other.typeName)
  | none =>
    if right.isSequence then .error (.repeatedBy count.typeName)
    else .error (.unsupportedProduct count.typeName right.typeName)

/-- A number times a value: a product, or a text or list repeated. -/
def times (count right : Value) : Except ValueFault Value :=
  match count.int?, right.int? with
  | some a, some b => .ok (int (a * b))
  | _, _ =>
    match count.float?, right.float? with
    | some a, some b => .ok (ofFloat (a.mul b))
    | _, _ =>
      match decimals? count right with
      | some (a, b) => ofDecimal? (a.mul? b)
      | none => repeated count right

/-- Whether a number is greater than a limit. -/
def exceeds (value : Value) (limit : Int) : Except ValueFault Bool :=
  match value with
  | decimal x _ =>
    match x.exceeds? limit with
    | some found => .ok found
    | none => .error .signalingCompared
  | value =>
    match value.int?, value.float? with
    | some n, _ => .ok (limit < n)
    | none, some x => .ok (x.exceeds limit)
    | none, none => .error (.unordered ">" value.typeName (int limit).typeName)

end Value

end GraphQL
