import Treewalk.Error
import Treewalk.Number.Arithmetic

/-!
# Operators applied to values

`UnaryOp.value?` and `BinaryOp.value?` are the operator tables: what an operator gives for operands
of kinds that it supports, and nothing for others. `apply` turns the gaps of a table into faults
that name the operator and the kinds. A zero divisor is refused before the kinds are looked at.
-/

set_option autoImplicit false
set_option relaxedAutoImplicit false

namespace Treewalk

namespace UnaryOp

def value? : UnaryOp → Value → Option Value
  | plus, .number x => some (.number x)
  | minus, .number x => some (.number x.negate)
  | not, .boolean b => some (.boolean !b)
  | _, _ => none

def apply (op : UnaryOp) (right : Value) : Except Fault Value :=
  match op.value? right with
  | some value => .ok value
  | none => .error (.unsupportedUnary op right.kind)

end UnaryOp

namespace Value

/-- An operator on two numbers alone. No result is a signaling NaN. -/
def arithmetic? (op : Number → Number → Float) : Value → Value → Option Value
  | number x, number y => some (number (.float (op x y)))
  | _, _ => none

/-- Two numbers are added. As soon as one operand is a string, the texts of both are joined. -/
def sum? : Value → Value → Option Value
  | number x, number y => some (number (.float (x.toFloat + y.toFloat)))
  | string s, right => some (string (s ++ right.text))
  | left, string s => some (string (left.text ++ s))
  | _, _ => none

/-- An ordering of two numbers or of two strings, by what it holds of either. -/
def ordering? (ofNumbers : Float → Float → Bool) (ofStrings : String → String → Bool) :
    Value → Value → Option Value
  | number x, number y => some (boolean (ofNumbers x.toFloat y.toFloat))
  | string s, string t => some (boolean (ofStrings s t))
  | _, _ => none

/-- Whether two values of one kind are equal. NaN equals nothing, and the two zeros are equal. -/
def equal? : Value → Value → Option Bool
  | number x, number y => some (x.toFloat == y.toFloat)
  | boolean a, boolean b => some (a == b)
  | string s, string t => some (s == t)
  | _, _ => none

def isZero : Value → Bool
  | number x => x.toFloat == 0
  | _ => false

end Value

namespace BinaryOp

/-- Strings are ordered by their code points. An ordering with a NaN holds of nothing. -/
def value? : BinaryOp → Value → Value → Option Value
  | add => Value.sum?
  | subtract => Value.arithmetic? fun x y ↦ x.toFloat - y.toFloat
  | multiply => Value.arithmetic? fun x y ↦ x.toFloat * y.toFloat
  | divide => Value.arithmetic? fun x y ↦ x.toFloat / y.toFloat
  | modulo => Value.arithmetic? fun x y ↦ Number.flooredRemainder x.toFloat y.toFloat
  | power => Value.arithmetic? Number.power
  | less => Value.ordering? (fun x y ↦ x < y) (fun s t ↦ s < t)
  | lessOrEqual => Value.ordering? (fun x y ↦ x ≤ y) (fun s t ↦ s ≤ t)
  | greater => Value.ordering? (fun x y ↦ x > y) (fun s t ↦ s > t)
  | greaterOrEqual => Value.ordering? (fun x y ↦ x ≥ y) (fun s t ↦ s ≥ t)
  | equal => fun left right ↦ (left.equal? right).map .boolean
  | notEqual => fun left right ↦ (left.equal? right).map fun same ↦ .boolean !same

def apply (op : BinaryOp) (left right : Value) : Except Fault Value :=
  if op = divide ∧ right.isZero then
    .error .divisionByZero
  else
    match op.value? left right with
    | some value => .ok value
    | none => .error (.unsupportedBinary op left.kind right.kind)

end BinaryOp

/-- Whether the left operand decides, so that the right one is not looked at. -/
def LogicalOp.decidedBy : LogicalOp → Value → Bool
  | and, left => !left.isTruthy
  | or, left => left.isTruthy

end Treewalk
