import Treewalk.Operation

/-!
# The kinds of operands and results

Whether an operator gives a value depends on the kinds of its operands alone. `UnaryOp.supports` and
`BinaryOp.supports` say for which kinds it does, and `apply` complains about all others. What is
known of the kinds of the operands may also settle the kind of the result (`UnaryOp.resultKind`,
`BinaryOp.resultKind?`).
-/

set_option autoImplicit false
set_option relaxedAutoImplicit false

namespace Treewalk

/-- Whether a value is of a kind, as far as the kind is known. -/
def Value.Fits (value : Value) (kind? : Option Kind) : Prop :=
  ∀ kind ∈ kind?, value.kind = kind

theorem Value.fits_some {value : Value} {kind : Kind} :
    value.Fits (some kind) ↔ value.kind = kind := by
  simp [Fits]

/-! ### Unary operators -/

namespace UnaryOp

def supports : UnaryOp → Kind → Bool
  | plus, .number | minus, .number | not, .boolean => true
  | _, _ => false

theorem isSome_value? (op : UnaryOp) (right : Value) :
    (op.value? right).isSome = op.supports right.kind := by
  cases op <;> cases right <;> rfl

theorem apply_eq_error {op : UnaryOp} {right : Value} {fault : Fault}
    (h : op.apply right = .error fault) :
    op.supports right.kind = false ∧ fault = .unsupportedUnary op right.kind := by
  unfold apply at h
  split at h
  · cases h
  · rename_i hnone
    have hsupports := op.isSome_value? right
    rw [hnone] at hsupports
    cases h
    exact ⟨hsupports.symm, rfl⟩

/-- The kind of all values that an operator gives. -/
def resultKind : UnaryOp → Kind
  | plus | minus => .number
  | not => .boolean

theorem kind_of_apply {op : UnaryOp} {right value : Value} (h : op.apply right = .ok value) :
    value.kind = op.resultKind := by
  cases op <;> cases right <;> cases h <;> rfl

theorem apply_of_supports {op : UnaryOp} {right : Value} (h : op.supports right.kind) :
    ∃ value, op.apply right = .ok value := by
  cases happly : op.apply right with
  | ok value => exact ⟨value, rfl⟩
  | error fault =>
    rw [(apply_eq_error happly).1] at h
    cases h

end UnaryOp

/-! ### Binary operators -/

namespace Value

theorem isSome_arithmetic? (op : Number → Number → Float) (left right : Value) :
    (arithmetic? op left right).isSome =
      (left.kind == .number && right.kind == .number) := by
  cases left <;> cases right <;> rfl

theorem isSome_sum? (left right : Value) :
    (left.sum? right).isSome =
      (left.kind == .number && right.kind == .number ||
        left.kind == .string || right.kind == .string) := by
  cases left <;> cases right <;> rfl

theorem kind_of_sum? {left right value : Value} (h : left.sum? right = some value) :
    value.kind =
      if left.kind = .string ∨ right.kind = .string then .string else .number := by
  cases left <;> cases right <;> cases h <;> rfl

theorem isSome_ordering? (ofNumbers : Float → Float → Bool) (ofStrings : String → String → Bool)
    (left right : Value) :
    (ordering? ofNumbers ofStrings left right).isSome =
      (left.kind == right.kind && left.kind != .boolean) := by
  cases left <;> cases right <;> rfl

theorem isSome_equal? (left right : Value) :
    (left.equal? right).isSome = (left.kind == right.kind) := by
  cases left <;> cases right <;> rfl

end Value

namespace BinaryOp

def supports : BinaryOp → Kind → Kind → Bool
  | add, left, right =>
    left == .number && right == .number || left == .string || right == .string
  | subtract, left, right | multiply, left, right | divide, left, right | modulo, left, right
  | power, left, right => left == .number && right == .number
  | less, left, right | lessOrEqual, left, right | greater, left, right
  | greaterOrEqual, left, right => left == right && left != .boolean
  | equal, left, right | notEqual, left, right => left == right

theorem isSome_value? (op : BinaryOp) (left right : Value) :
    (op.value? left right).isSome = op.supports left.kind right.kind := by
  cases op with
  | add => exact Value.isSome_sum? left right
  | subtract | multiply | divide | modulo | power => exact Value.isSome_arithmetic? _ left right
  | less | lessOrEqual | greater | greaterOrEqual =>
    rw [value?, Value.isSome_ordering?]
    rfl
  | equal | notEqual =>
    rw [value?, Option.isSome_map, Value.isSome_equal?]
    rfl

/-- An operator fails by a zero divisor or for the kinds of its operands. -/
theorem apply_eq_error {op : BinaryOp} {left right : Value} {fault : Fault}
    (h : op.apply left right = .error fault) :
    op = .divide ∧ fault = .divisionByZero ∨
      op.supports left.kind right.kind = false ∧
        fault = .unsupportedBinary op left.kind right.kind := by
  unfold apply at h
  split at h
  · rename_i hzero
    cases h
    exact .inl ⟨hzero.1, rfl⟩
  · split at h
    · cases h
    · rename_i hnone
      have hsupports := op.isSome_value? left right
      rw [hnone] at hsupports
      cases h
      exact .inr ⟨hsupports.symm, rfl⟩

/-- The kind of all values that an operator gives for operands of which the kinds are known or not,
as far as it is settled by them. -/
def resultKind? : BinaryOp → Option Kind → Option Kind → Option Kind
  | add, left, right =>
    if left = some .string ∨ right = some .string then
      some .string
    else if left = some .number ∧ right = some .number then
      some .number
    else
      none
  | subtract, _, _ | multiply, _, _ | divide, _, _ | modulo, _, _ | power, _, _ => some .number
  | less, _, _ | lessOrEqual, _, _ | greater, _, _ | greaterOrEqual, _, _ | equal, _, _
  | notEqual, _, _ => some .boolean

theorem value?_of_apply {op : BinaryOp} {left right value : Value}
    (h : op.apply left right = .ok value) : op.value? left right = some value := by
  unfold apply at h
  split at h
  · cases h
  · split at h
    · rename_i hvalue
      cases h
      exact hvalue
    · cases h

theorem fits_of_apply {op : BinaryOp} {left right value : Value} {left? right? : Option Kind}
    (hleft : left.Fits left?) (hright : right.Fits right?) (h : op.apply left right = .ok value) :
    value.Fits (op.resultKind? left? right?) := by
  have hvalue := value?_of_apply h
  cases op with
  | add =>
    unfold resultKind?
    dsimp only
    split
    · rename_i hstring
      rw [Value.fits_some, Value.kind_of_sum? hvalue,
        if_pos (hstring.imp (hleft .string) (hright .string))]
    · split
      · rename_i hnumber
        rw [Value.fits_some, Value.kind_of_sum? hvalue, hleft .number hnumber.1,
          hright .number hnumber.2]
        rfl
      · nofun
  | subtract | multiply | divide | modulo | power | less | lessOrEqual | greater | greaterOrEqual
  | equal | notEqual =>
    refine Value.fits_some.mpr ?_
    cases left <;> cases right <;> cases hvalue <;> rfl

/-- On operands of kinds that it supports, an operator fails by a zero divisor or not at all. -/
theorem apply_of_supports {op : BinaryOp} {left right : Value}
    (h : op.supports left.kind right.kind) :
    (∃ value, op.apply left right = .ok value) ∨
      op.apply left right = .error .divisionByZero := by
  cases happly : op.apply left right with
  | ok value => exact .inl ⟨value, rfl⟩
  | error fault =>
    rcases apply_eq_error happly with ⟨-, hfault⟩ | ⟨hsupports, -⟩
    · exact .inr (congrArg Except.error hfault)
    · rw [hsupports] at h
      cases h

end BinaryOp

end Treewalk
