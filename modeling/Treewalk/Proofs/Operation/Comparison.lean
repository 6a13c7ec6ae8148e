import Treewalk.Proofs.Number.Line
import Treewalk.Operation

/-!
# The six comparisons

The four orderings accept two numbers or two strings (`Value.Comparable`) and no other two values,
`==` and `!=` any two values of one kind, and all six speak of the same order: that of the line of
doubles, which leaves NaN out, or that of the code points of strings. `ComparisonLaws` states what
the comparisons owe one another, and they do so on any values (`comparisons_agree`).
-/

set_option autoImplicit false
set_option relaxedAutoImplicit false

namespace Treewalk

/-! ### Outcomes of comparisons -/

namespace BinaryOp

/-- The comparisons that need an order. -/
def isOrdering : BinaryOp → Bool
  | less | lessOrEqual | greater | greaterOrEqual => true
  | _ => false

variable (op : BinaryOp) (left right : Value)

def Succeeds : Prop :=
  ∃ value, op.apply left right = .ok value

/-- The operator says yes. -/
def Holds : Prop :=
  op.apply left right = .ok (.boolean true)

/-- The operator does not support the kinds of its operands and names them in order. -/
def Complains : Prop :=
  op.apply left right = .error (.unsupportedBinary op left.kind right.kind)

variable {op left right}

theorem holds_iff {holds : Bool} (h : op.apply left right = .ok (.boolean holds)) :
    op.Holds left right ↔ holds = true := by
  rw [Holds, h, Except.ok.injEq, Value.boolean.injEq]

theorem isOrdering_iff :
    op.isOrdering ↔ op = less ∨ op = lessOrEqual ∨ op = greater ∨ op = greaterOrEqual := by
  cases op <;> decide

section Numbers

variable {x y : Number}

theorem less_number :
    less.Holds (.number x) (.number y) ↔ x.toFloat < y.toFloat :=
  (holds_iff rfl).trans decide_eq_true_iff

theorem lessOrEqual_number :
    lessOrEqual.Holds (.number x) (.number y) ↔ x.toFloat ≤ y.toFloat :=
  (holds_iff rfl).trans decide_eq_true_iff

theorem greater_number :
    greater.Holds (.number x) (.number y) ↔ y.toFloat < x.toFloat :=
  (holds_iff rfl).trans decide_eq_true_iff

theorem greaterOrEqual_number :
    greaterOrEqual.Holds (.number x) (.number y) ↔ y.toFloat ≤ x.toFloat :=
  (holds_iff rfl).trans decide_eq_true_iff

theorem equal_number :
    equal.Holds (.number x) (.number y) ↔ x.toFloat == y.toFloat :=
  holds_iff rfl

end Numbers

section Strings

variable {s t : String}

theorem less_string : less.Holds (.string s) (.string t) ↔ s < t :=
  (holds_iff rfl).trans decide_eq_true_iff

theorem lessOrEqual_string : lessOrEqual.Holds (.string s) (.string t) ↔ s ≤ t :=
  (holds_iff rfl).trans decide_eq_true_iff

theorem greater_string : greater.Holds (.string s) (.string t) ↔ t < s :=
  (holds_iff rfl).trans decide_eq_true_iff

theorem greaterOrEqual_string : greaterOrEqual.Holds (.string s) (.string t) ↔ t ≤ s :=
  (holds_iff rfl).trans decide_eq_true_iff

theorem equal_string : equal.Holds (.string s) (.string t) ↔ s = t :=
  (holds_iff rfl).trans beq_iff_eq

end Strings

end BinaryOp

/-! ### The laws -/

namespace Value

def isNaN : Value → Bool
  | number x => x.toFloat.isNaN
  | _ => false

/-- Two numbers or two strings. -/
inductive Comparable : Value → Value → Prop
  | numbers (x y : Number) : Comparable (.number x) (.number y)
  | strings (s t : String) : Comparable (.string s) (.string t)

variable {a b : Value}

theorem Comparable.symm (h : a.Comparable b) : b.Comparable a := by
  cases h with
  | numbers x y => exact .numbers y x
  | strings s t => exact .strings t s

theorem Comparable.kind_eq (h : a.Comparable b) : a.kind = b.kind := by
  cases h <;> rfl

end Value

open BinaryOp

/-- What the six comparisons owe one another on three values. -/
structure ComparisonLaws (a b c : Value) : Prop where
  /-- Each ordering accepts two numbers and two strings. -/
  orderings : a.Comparable b →
    ∀ op : BinaryOp, op.isOrdering → ∃ holds, op.apply a b = .ok (.boolean holds)
  orderings_complain : ¬ a.Comparable b → ∀ op : BinaryOp, op.isOrdering → op.Complains a b
  orderings_comm : ∀ op : BinaryOp, op.isOrdering → (op.Succeeds a b ↔ op.Succeeds b a)
  equalities : a.kind = b.kind →
    ∃ same, equal.apply a b = .ok (.boolean same) ∧ notEqual.apply a b = .ok (.boolean !same)
  equalities_complain : a.kind ≠ b.kind → equal.Complains a b ∧ notEqual.Complains a b
  less_comm : less.Holds a b ↔ greater.Holds b a
  lessOrEqual_comm : lessOrEqual.Holds a b ↔ greaterOrEqual.Holds b a
  lessOrEqual_iff : a.Comparable b →
    (lessOrEqual.Holds a b ↔ less.Holds a b ∨ equal.Holds a b)
  less_irrefl : ¬ less.Holds a a
  less_trans : less.Holds a b → less.Holds b c → less.Holds a c
  /-- Without NaN, exactly one of three comparisons holds. -/
  trichotomy : a.Comparable b → a.isNaN = false → b.isNaN = false →
    less.Holds a b ∧ ¬ equal.Holds a b ∧ ¬ greater.Holds a b ∨
      ¬ less.Holds a b ∧ equal.Holds a b ∧ ¬ greater.Holds a b ∨
        ¬ less.Holds a b ∧ ¬ equal.Holds a b ∧ greater.Holds a b
  /-- With NaN, nothing holds but `!=`. -/
  isNaN : a.Comparable b → a.isNaN = true ∨ b.isNaN = true →
    (∀ op : BinaryOp, op.isOrdering ∨ op = equal → op.apply a b = .ok (.boolean false)) ∧
      notEqual.Holds a b

theorem append_lt_append_iff (p q r : String) : p ++ q < p ++ r ↔ q < r := by
  rw [String.lt_iff_toList_lt, String.lt_iff_toList_lt, String.toList_append, String.toList_append]
  induction p.toList with
  | nil => rfl
  | cons c rest ih => simpa [List.cons_lt_cons_iff] using ih

section Laws

variable {a b c : Value}

theorem orderings {op : BinaryOp} (hop : op.isOrdering) (h : a.Comparable b) :
    ∃ holds, op.apply a b = .ok (.boolean holds) := by
  rw [isOrdering_iff] at hop
  cases h <;> rcases hop with rfl | rfl | rfl | rfl <;> exact ⟨_, rfl⟩

theorem orderings_complain {op : BinaryOp} (hop : op.isOrdering) (h : ¬ a.Comparable b) :
    op.Complains a b := by
  rw [isOrdering_iff] at hop
  rcases a with x | p | s <;> rcases b with y | q | t
  case number.number => exact (h (.numbers x y)).elim
  case string.string => exact (h (.strings s t)).elim
  all_goals rcases hop with rfl | rfl | rfl | rfl <;> rfl

/-- The orderings accept the same operands. -/
theorem succeeds_iff {op : BinaryOp} (hop : op.isOrdering) :
    op.Succeeds a b ↔ a.Comparable b := by
  constructor
  · rintro ⟨value, hvalue⟩
    by_contra hcomparable
    have hcomplains : op.apply a b = _ := orderings_complain hop hcomparable
    rw [hvalue] at hcomplains
    cases hcomplains
  · intro h
    obtain ⟨holds, hholds⟩ := orderings hop h
    exact ⟨_, hholds⟩

theorem comparable_of_less (h : less.Holds a b) : a.Comparable b :=
  (succeeds_iff rfl).mp ⟨_, h⟩

theorem less_trans (hab : less.Holds a b) (hbc : less.Holds b c) : less.Holds a c := by
  cases comparable_of_less hab with
  | numbers x y =>
    cases comparable_of_less hbc with
    | numbers _ z =>
      exact less_number.mpr (Number.lt_trans (less_number.mp hab) (less_number.mp hbc))
  | strings s t =>
    cases comparable_of_less hbc with
    | strings _ u => exact less_string.mpr ((less_string.mp hab).trans (less_string.mp hbc))

theorem trichotomy (h : a.Comparable b) (ha : a.isNaN = false) (hb : b.isNaN = false) :
    less.Holds a b ∧ ¬ equal.Holds a b ∧ ¬ greater.Holds a b ∨
      ¬ less.Holds a b ∧ equal.Holds a b ∧ ¬ greater.Holds a b ∨
        ¬ less.Holds a b ∧ ¬ equal.Holds a b ∧ greater.Holds a b := by
  rcases h with ⟨x, y⟩ | ⟨s, t⟩
  · obtain ⟨p, hp⟩ := Number.exists_point ha
    obtain ⟨q, hq⟩ := Number.exists_point hb
    rw [less_number, equal_number, greater_number, Number.lt_iff_point hp hq,
      Number.beq_iff_point hp hq, Number.lt_iff_point hq hp]
    rcases lt_trichotomy p q with hlt | heq | hgt
    · exact .inl ⟨hlt, hlt.ne, hlt.asymm⟩
    · exact .inr (.inl ⟨heq.not_lt, heq, heq.symm.not_lt⟩)
    · exact .inr (.inr ⟨hgt.asymm, hgt.ne', hgt⟩)
  · rw [less_string, equal_string, greater_string]
    rcases lt_trichotomy s t with hlt | heq | hgt
    · exact .inl ⟨hlt, hlt.ne, hlt.asymm⟩
    · exact .inr (.inl ⟨heq.not_lt, heq, heq.symm.not_lt⟩)
    · exact .inr (.inr ⟨hgt.asymm, hgt.ne', hgt⟩)

/-- With NaN no ordering holds, and no equality. -/
theorem apply_of_isNaN {op : BinaryOp} (hop : op.isOrdering ∨ op = equal)
    (h : a.Comparable b) (hnan : a.isNaN = true ∨ b.isNaN = true) :
    op.apply a b = .ok (.boolean false) := by
  rcases h with ⟨x, y⟩ | ⟨s, t⟩
  · have hle : ¬ x.toFloat ≤ y.toFloat := fun hle ↦
      hnan.elim (ne_true_of_eq_false (Number.isNaN_of_le hle).1)
        (ne_true_of_eq_false (Number.isNaN_of_le hle).2)
    have hge : ¬ y.toFloat ≤ x.toFloat := fun hge ↦
      hnan.elim (ne_true_of_eq_false (Number.isNaN_of_le hge).2)
        (ne_true_of_eq_false (Number.isNaN_of_le hge).1)
    have hequal : (x.toFloat == y.toFloat) = false := by
      rw [← Bool.not_eq_true]
      exact fun hequal ↦ hle (Number.le_iff_lt_or_beq.mpr (.inr hequal))
    have hboolean : ∀ {holds : Bool}, holds = false →
        (.ok (.boolean holds) : Except Fault Value) = .ok (.boolean false) := fun h ↦ by rw [h]
    rw [isOrdering_iff] at hop
    rcases hop with (rfl | rfl | rfl | rfl) | rfl
    · exact hboolean (decide_eq_false (mt Number.le_of_lt hle))
    · exact hboolean (decide_eq_false hle)
    · exact hboolean (decide_eq_false (mt Number.le_of_lt hge))
    · exact hboolean (decide_eq_false hge)
    · exact hboolean hequal
  · rcases hnan with hnan | hnan <;> cases hnan

theorem equalities (hkind : a.kind = b.kind) :
    ∃ same, equal.apply a b = .ok (.boolean same) ∧ notEqual.apply a b = .ok (.boolean !same) := by
  rcases a with x | p | s <;> rcases b with y | q | t
  case number.number | boolean.boolean | string.string => exact ⟨_, rfl, rfl⟩
  all_goals cases hkind

theorem equalities_complain (hkind : a.kind ≠ b.kind) :
    equal.Complains a b ∧ notEqual.Complains a b := by
  rcases a with x | p | s <;> rcases b with y | q | t
  case number.number | boolean.boolean | string.string => exact (hkind rfl).elim
  all_goals exact ⟨rfl, rfl⟩

theorem notEqual_of_isNaN (h : a.Comparable b) (hnan : a.isNaN = true ∨ b.isNaN = true) :
    notEqual.Holds a b := by
  obtain ⟨same, hequal, hnotEqual⟩ := equalities h.kind_eq
  rw [apply_of_isNaN (.inr rfl) h hnan] at hequal
  cases hequal
  exact hnotEqual

/-- An ordering and the one that it is with its operands swapped. -/
theorem less_comm (a b : Value) : less.Holds a b ↔ greater.Holds b a := by
  rcases a with x | p | s <;> rcases b with y | q | t
  case number.number => exact less_number.trans greater_number.symm
  case string.string => exact less_string.trans greater_string.symm
  all_goals exact iff_of_false nofun nofun

theorem lessOrEqual_comm (a b : Value) : lessOrEqual.Holds a b ↔ greaterOrEqual.Holds b a := by
  rcases a with x | p | s <;> rcases b with y | q | t
  case number.number => exact lessOrEqual_number.trans greaterOrEqual_number.symm
  case string.string => exact lessOrEqual_string.trans greaterOrEqual_string.symm
  all_goals exact iff_of_false nofun nofun

theorem lessOrEqual_iff (h : a.Comparable b) :
    lessOrEqual.Holds a b ↔ less.Holds a b ∨ equal.Holds a b := by
  cases h with
  | numbers x y => rw [lessOrEqual_number, less_number, equal_number, Number.le_iff_lt_or_beq]
  | strings s t => rw [lessOrEqual_string, less_string, equal_string, le_iff_lt_or_eq]

theorem less_irrefl (a : Value) : ¬ less.Holds a a := by
  intro h
  cases comparable_of_less h with
  | numbers x _ => exact Number.lt_irrefl _ (less_number.mp h)
  | strings s _ => exact (less_string.mp h).false

theorem orderings_comm {op : BinaryOp} (hop : op.isOrdering) :
    op.Succeeds a b ↔ op.Succeeds b a := by
  rw [succeeds_iff hop, succeeds_iff hop]
  exact ⟨Value.Comparable.symm, Value.Comparable.symm⟩

end Laws

/-- The six comparisons agree on any values, and joining one text before two others does not change
the order of those. -/
theorem comparisons_agree :
    (∀ a b c : Value, ComparisonLaws a b c) ∧
      ∀ p q r : String, ∃ pq pr, add.apply (.string p) (.string q) = .ok pq ∧
        add.apply (.string p) (.string r) = .ok pr ∧
        (less.Holds (.string q) (.string r) ↔ less.Holds pq pr) := by
  refine ⟨fun a b c ↦ ?_, fun p q r ↦ ⟨_, _, rfl, rfl, ?_⟩⟩
  · exact {
      orderings := fun h _ hop ↦ orderings hop h
      orderings_complain := fun h _ hop ↦ orderings_complain hop h
      orderings_comm := fun _ ↦ orderings_comm
      equalities := equalities
      equalities_complain := equalities_complain
      less_comm := less_comm a b
      lessOrEqual_comm := lessOrEqual_comm a b
      lessOrEqual_iff := lessOrEqual_iff
      less_irrefl := less_irrefl a
      less_trans := less_trans
      trichotomy := trichotomy
      isNaN := fun h hnan ↦
        ⟨fun _ hop ↦ apply_of_isNaN hop h hnan, notEqual_of_isNaN h hnan⟩ }
  · rw [less_string, less_string]
    exact (append_lt_append_iff p q r).symm

/-- A text before a longer one, a number beside NaN, and two booleans. -/
theorem comparisons_agree_kinds :
    let one : Value := .number (Number.ofInt64 1)
    let nan : Value := .number (.float Number.nan)
    (Value.Comparable (.string "a") (.string "ab") ∧ greater.Holds (.string "ab") (.string "a") ∧
      ¬ equal.Holds (.string "a") (.string "ab")) ∧
    (one.Comparable nan ∧
      (∀ op : BinaryOp, op.isOrdering ∨ op = equal → op.apply one nan = .ok (.boolean false)) ∧
      notEqual.Holds one nan) ∧
    ∀ op : BinaryOp, op.isOrdering → op.Complains (.boolean false) (.boolean true) := by
  intro one nan
  have hstrings := comparisons_agree.1 (.string "a") (.string "ab") (.string "a")
  have hnumbers := comparisons_agree.1 one nan one
  have hbooleans := comparisons_agree.1 (.boolean false) (.boolean true) (.boolean false)
  have hless : less.Holds (.string "a") (.string "ab") := less_string.mpr (by decide)
  refine ⟨⟨.strings _ _, hstrings.less_comm.mp hless, ?_⟩, ⟨.numbers _ _, ?_⟩, ?_⟩
  · rcases hstrings.trichotomy (.strings _ _) rfl rfl with h | h | h
    · exact h.2.1
    · exact absurd hless h.1
    · exact h.2.1
  · exact hnumbers.isNaN (.numbers _ _) (.inr (by decide +kernel))
  · exact hbooleans.orderings_complain nofun

end Treewalk
