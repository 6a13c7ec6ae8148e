import Treewalk.Evaluator
import Treewalk.Proofs.Eval.Sequence
import Treewalk.Proofs.Operation.Kinds
import Treewalk.Proofs.Syntax.Parts

/-!
# Kinds known without running

`Expr.kind?` reads off an expression the kind of its values, as far as the operators settle it.
Nothing is known of variables and calls, so every kind that is known is known in all scopes
(`yields_evalExpr`). The checks that `if`, `while` and `for` make of their values never fail where
the kind is known to be the right one. An expression whose parts all have known kinds, with
operators that support them, changes nothing and comes to a value unless it divides by zero
(`settles_evalExpr`). `kind_soundness` puts these together.
-/

set_option autoImplicit false
set_option relaxedAutoImplicit false

namespace Treewalk

/-! ### Known kinds -/

/-- The kind that both operands of `and` or `or` have. -/
def LogicalOp.commonKind? (left right : Option Kind) : Option Kind :=
  if left = right then left else none

namespace Expr

/-- The kind of all values of an expression, as far as it is known without running it. -/
def kind? : Expr → Option Kind
  | int _ _ | float _ _ => some .number
  | bool _ _ => some .boolean
  | str _ _ => some .string
  | identifier _ _ | call _ _ _ => none
  | grouping inner _ => inner.kind?
  | unary operator _ _ => some operator.resultKind
  | binary left operator right _ => operator.resultKind? left.kind? right.kind?
  | logical left _ right _ => LogicalOp.commonKind? left.kind? right.kind?

/-- Whether the operator of an expression supports the kinds that its operands are known to have.
The operands of `and` and `or` may be of any kind. -/
def suitsOperands : Expr → Bool
  | unary operator right _ => right.kind?.any operator.supports
  | binary left operator right _ =>
    left.kind?.any fun first ↦ right.kind?.any (operator.supports first)
  | _ => true

end Expr

/-- Expressions of which all kinds are known, with operators that support them. No variable and no
call is among them, since nothing is known of their kinds. -/
def Fragment.wellKinded : Fragment :=
  ⟨fun expr ↦ expr.kind?.isSome ∧ expr.suitsOperands, fun _ ↦ True⟩

/-! ### Soundness -/

namespace EvalM

variable {S α : Type} {first : EvalM S Value} {next : Value → EvalM S Value} {kind : Kind}
  {kind? kind?' : Option Kind}

/-- Every value that a computation comes to fits a kind. -/
def Yields (computation : EvalM S Value) (kind? : Option Kind) : Prop :=
  ∀ state value after, computation state = (.ok value, after) → value.Fits kind?

theorem yields_none (computation : EvalM S Value) : Yields computation none :=
  fun _ _ _ _ ↦ nofun

theorem yields_pure {value : Value} (h : value.Fits kind?) :
    Yields (pure value : EvalM S Value) kind? := by
  intro state result after hresult
  cases hresult
  exact h

theorem Yields.bind (hfirst : Yields first kind?)
    (hnext : ∀ value, value.Fits kind? → Yields (next value) kind?') :
    Yields (first >>= next) kind?' := by
  intro state value after hvalue
  rw [bind_apply] at hvalue
  rcases hresult : first state with ⟨stop | result, middle⟩
  · rw [hresult] at hvalue
    cases hvalue
  · rw [hresult] at hvalue
    exact hnext result (hfirst state result middle hresult) middle value after hvalue

theorem yields_ofExcept {line : Line} {outcome : Except Fault Value}
    (h : ∀ value, outcome = .ok value → value.Fits kind?) :
    Yields (ofExcept line outcome : EvalM S Value) kind? := by
  cases outcome with
  | ok value => exact yields_pure (h value rfl)
  | error fault => nofun

/-- What follows a computation matters for the values that it comes to alone. -/
theorem Yields.bind_congr (hfirst : Yields first (some kind)) {rest rest' : Value → EvalM S α}
    (h : ∀ value : Value, value.kind = kind → rest value = rest' value) :
    first >>= rest = first >>= rest' := by
  funext state
  rw [bind_apply, bind_apply]
  rcases hresult : first state with ⟨stop | value, after⟩
  · rfl
  · have hkind := Value.fits_some.mp (hfirst state value after hresult)
    exact congrFun (h value hkind) after

/-- A computation changes nothing, and comes to a value unless it divides by zero. -/
def Settles (computation : EvalM S Value) : Prop :=
  ∀ state,
    (∃ value, computation state = (.ok value, state)) ∨
      ∃ line, computation state = (.error (.error ⟨.divisionByZero, line⟩), state)

theorem settles_pure (value : Value) : Settles (pure value : EvalM S Value) :=
  fun _ ↦ .inl ⟨value, rfl⟩

theorem Settles.bind (hfirst : Settles first) (hyields : Yields first kind?)
    (hnext : ∀ value, value.Fits kind? → Settles (next value)) : Settles (first >>= next) := by
  intro state
  rw [bind_apply]
  rcases hfirst state with ⟨value, hvalue⟩ | ⟨line, hzero⟩
  · rw [hvalue]
    exact hnext value (hyields state value state hvalue) state
  · rw [hzero]
    exact .inr ⟨line, rfl⟩

theorem settles_ofExcept {line : Line} {outcome : Except Fault Value}
    (h : (∃ value, outcome = .ok value) ∨ outcome = .error .divisionByZero) :
    Settles (ofExcept line outcome : EvalM S Value) := by
  rcases h with ⟨value, rfl⟩ | rfl
  · exact settles_pure value
  · exact fun _ ↦ .inr ⟨line, rfl⟩

end EvalM

open EvalM

variable {S : Type} [Scopes S] (invoke : Invoke S) (env : FrameId)

/-- All values of an expression are of its kind, whatever its variables hold and whatever its calls
do. -/
theorem yields_evalExpr (expr : Expr) : Yields (evalExpr invoke env expr) expr.kind? := by
  induction expr using Expr.induction_operands with
  | step expr ih =>
    unfold evalExpr Expr.kind?
    cases expr with
    | int value line | float value line | bool value line | str value line =>
      exact yields_pure (Value.fits_some.mpr rfl)
    | identifier name line | call name arguments line => exact yields_none _
    | grouping inner line => exact ih inner (by simp [Expr.operands])
    | unary operator right line =>
      refine (ih right (by simp [Expr.operands])).bind fun value _ ↦ yields_ofExcept ?_
      exact fun result hresult ↦ Value.fits_some.mpr (UnaryOp.kind_of_apply hresult)
    | binary left operator right line =>
      refine (ih left (by simp [Expr.operands])).bind fun first hfirst ↦ ?_
      refine (ih right (by simp [Expr.operands])).bind fun second hsecond ↦ yields_ofExcept ?_
      exact fun result hresult ↦ BinaryOp.fits_of_apply hfirst hsecond hresult
    | logical left operator right line =>
      have hleft := ih left (by simp [Expr.operands])
      have hright := ih right (by simp [Expr.operands])
      dsimp only
      unfold LogicalOp.commonKind?
      split
      · rename_i hsame
        refine hleft.bind fun first hfirst ↦ ?_
        split
        · exact yields_pure hfirst
        · rwa [hsame]
      · exact yields_none _

/-- A test of a known boolean is not checked for its kind. -/
theorem evalCondition_of_boolean {condition : Expr} (h : condition.kind? = some .boolean)
    (construct : Construct) (line : Line) :
    evalCondition invoke env construct condition line =
      (do
        let value ← evalExpr invoke env condition
        pure (decide (value = .boolean true))) := by
  have hyields := yields_evalExpr invoke env condition
  rw [h] at hyields
  refine hyields.bind_congr fun value hkind ↦ ?_
  cases value with
  | boolean holds => cases holds <;> rfl
  | number x | string s => cases hkind

/-- Nothing stops a bound that is known to be a number but what stops its expression. -/
theorem evalBound_of_number_kind {expr : Expr} (h : expr.kind? = some .number) {bound : Bound}
    {state : State S} {stop : Stop}
    (hstop : (evalBound invoke env bound expr state).1 = .error stop) :
    (evalExpr invoke env expr state).1 = .error stop := by
  have hyields := yields_evalExpr invoke env expr state
  rw [evalBound, bind_apply] at hstop
  rcases hresult : evalExpr invoke env expr state with ⟨first | value, after⟩
  · rw [hresult] at hstop
    cases hstop
    rfl
  · have hkind := hyields value after hresult .number h
    rw [hresult] at hstop
    cases value with
    | number x => cases hstop
    | boolean holds | string s => cases hkind

/-! ### Expressions that cannot go wrong -/

/-- An expression without variables and calls, with operators that support the kinds of their
operands, comes to a value or divides by zero, and changes nothing. -/
theorem settles_evalExpr {expr : Expr} (h : Fragment.wellKinded.HasExpr expr) :
    Settles (evalExpr invoke env expr) := by
  induction expr using Expr.induction_operands with
  | step expr ih =>
    obtain ⟨hkind, hsuits⟩ := h.self
    unfold evalExpr
    cases expr with
    | int value line | float value line | bool value line | str value line =>
      exact settles_pure _
    | identifier name line | call name arguments line => cases hkind
    | grouping inner line =>
      have hmem : inner ∈ (Expr.grouping inner line).operands := by simp [Expr.operands]
      exact ih inner hmem (h.operand hmem)
    | unary operator right line =>
      have hmem : right ∈ (Expr.unary operator right line).operands := by simp [Expr.operands]
      obtain ⟨kind, hright, hsupports⟩ := (Option.any_eq_true _ _).mp hsuits
      refine (ih right hmem (h.operand hmem)).bind (yields_evalExpr invoke env right) ?_
      refine fun value hvalue ↦ settles_ofExcept (.inl (UnaryOp.apply_of_supports ?_))
      rwa [hvalue kind hright]
    | binary left operator right line =>
      have hmem : left ∈ (Expr.binary left operator right line).operands := by
        simp [Expr.operands]
      have hmem' : right ∈ (Expr.binary left operator right line).operands := by
        simp [Expr.operands]
      obtain ⟨leftKind, hleft, hany⟩ := (Option.any_eq_true _ _).mp hsuits
      obtain ⟨rightKind, hright, hsupports⟩ := (Option.any_eq_true _ _).mp hany
      refine (ih left hmem (h.operand hmem)).bind (yields_evalExpr invoke env left) ?_
      refine fun first hfirst ↦ (ih right hmem' (h.operand hmem')).bind
        (yields_evalExpr invoke env right) ?_
      refine fun second hsecond ↦ settles_ofExcept (BinaryOp.apply_of_supports ?_)
      rwa [hfirst leftKind hleft, hsecond rightKind hright]
    | logical left operator right line =>
      have hmem : left ∈ (Expr.logical left operator right line).operands := by
        simp [Expr.operands]
      have hmem' : right ∈ (Expr.logical left operator right line).operands := by
        simp [Expr.operands]
      refine (ih left hmem (h.operand hmem)).bind (yields_evalExpr invoke env left) ?_
      refine fun first _ ↦ ?_
      split
      · exact settles_pure first
      · exact ih right hmem' (h.operand hmem')

/-- Kinds that are known without running are right. In all scopes and states,

* an expression of a known kind comes to no value of another;
* an `if` or `while` whose condition is known to be a boolean never complains about its kind, so it
  goes by whether the value is `true`;
* nothing stops a bound of a `for` loop that is known to be a number but what stops its expression;
* an expression of which all kinds are known, without variables and calls and with operators that
  support the kinds of their operands, comes to a value or divides by zero, and changes nothing. -/
theorem kind_soundness (invoke : Invoke S) (env : FrameId) (expr : Expr) :
    (∀ kind, expr.kind? = some kind → ∀ state value after,
      evalExpr invoke env expr state = (.ok value, after) → value.kind = kind) ∧
    (expr.kind? = some .boolean → ∀ fuel body fallback line,
      (execStmt fuel invoke env (.ifThen expr body line) = do
        let value ← evalExpr invoke env expr
        if value = .boolean true then
          let inner ← openFrame env
          execBlock fuel invoke inner body
        else
          pure .normal) ∧
      (execStmt fuel invoke env (.ifElse expr body fallback line) = do
        let value ← evalExpr invoke env expr
        let inner ← openFrame env
        if value = .boolean true then
          execBlock fuel invoke inner body
        else
          execBlock fuel invoke inner fallback) ∧
      (execStmt fuel invoke env (.whileLoop expr body line) = do
        let inner ← openFrame env
        EvalM.whileLoop
          (do let value ← evalExpr invoke env expr
              pure (decide (value = .boolean true)))
          (execBlock fuel invoke inner body) fuel)) ∧
    (expr.kind? = some .number → ∀ bound state stop,
      (evalBound invoke env bound expr state).1 = .error stop →
        (evalExpr invoke env expr state).1 = .error stop) ∧
    (Fragment.wellKinded.HasExpr expr → ∀ state,
      (∃ value, evalExpr invoke env expr state = (.ok value, state)) ∨
        ∃ line, evalExpr invoke env expr state =
          (.error (.error ⟨.divisionByZero, line⟩), state)) := by
  refine ⟨fun kind hkind state value after hvalue ↦ ?_, fun hkind fuel body fallback line ↦ ?_,
    fun hkind bound state stop hstop ↦ evalBound_of_number_kind invoke env hkind hstop,
    fun hwell state ↦ ?_⟩
  · exact yields_evalExpr invoke env expr state value after hvalue kind hkind
  · have hcondition := evalCondition_of_boolean invoke env hkind
    refine ⟨?_, ?_, ?_⟩
    · unfold execStmt
      rw [hcondition, bind_assoc]
      refine bind_congr fun value ↦ ?_
      rw [pure_bind]
      by_cases hvalue : value = .boolean true <;> simp [hvalue]
    · unfold execStmt
      rw [hcondition, bind_assoc]
      refine bind_congr fun value ↦ ?_
      rw [pure_bind]
      by_cases hvalue : value = .boolean true <;> simp [hvalue]
    · unfold execStmt
      rw [hcondition]
  · exact settles_evalExpr invoke env hwell state

/-- Where a variable holds a boolean, it joins with a string to a string, it is no bound, and
`1 / 0 < 3` is a condition that divides by zero. -/
theorem kind_soundness_mixed :
    let state : State Store :=
      ⟨(({} : Store).openFrame none).2.declare 0 "b" (.set (.boolean true)), 0, {}⟩
    let joined : Expr := .binary (.identifier "b" 1) .add (.str "!" 1) 1
    let bound : Expr := .unary .minus (.identifier "b" 1) 1
    let ordered : Expr := .binary (.binary (.int 1 1) .divide (.int 0 1) 1) .less (.int 3 1) 1
    let refused : Stop := .error ⟨.unsupportedUnary .minus .boolean, 1⟩
    (joined.kind? = some .string ∧
      evalExpr (calls 9 1) 0 joined state = (.ok (.string "true!"), state) ∧
      (Value.string "true!").kind = .string) ∧
    (ordered.kind? = some .boolean ∧
      execStmt 1 (calls 9 1) 0 (.ifThen ordered [] 1) = do
        let value ← evalExpr (calls 9 1) 0 ordered
        if value = .boolean true then
          let inner ← openFrame (S := Store) 0
          execBlock 1 (calls 9 1) inner []
        else
          pure .normal) ∧
    (bound.kind? = some .number ∧
      (evalBound (calls 9 1) 0 .start bound state).1 = .error refused ∧
      (evalExpr (calls 9 1) 0 bound state).1 = .error refused) ∧
    Fragment.wellKinded.HasExpr ordered ∧
      ((∃ value, evalExpr (calls 9 1) 0 ordered state = (.ok value, state)) ∨
        ∃ line, evalExpr (calls 9 1) 0 ordered state =
          (.error (.error ⟨.divisionByZero, line⟩), state)) := by
  intro state joined bound ordered refused
  have hjoined : evalExpr (calls 9 1) 0 joined state = (.ok (.string "true!"), state) := by
    simp only [joined, evalExpr]
    rfl
  have hbound : (evalBound (calls 9 1) 0 .start bound state).1 = .error refused := by
    simp only [bound, evalBound, evalExpr]
    rfl
  have hordered : Fragment.wellKinded.HasExpr ordered := by
    intro part hpart
    simp only [ordered, Expr.parts, List.mem_cons, List.mem_append, List.not_mem_nil, or_false,
      or_assoc] at hpart
    rcases hpart with rfl | rfl | rfl | rfl | rfl <;> exact ⟨rfl, rfl⟩
  refine ⟨⟨rfl, hjoined, ?_⟩, ⟨rfl, ?_⟩, ⟨rfl, hbound, ?_⟩, hordered, ?_⟩
  · exact (kind_soundness (calls 9 1) 0 joined).1 .string rfl state _ state hjoined
  · exact ((kind_soundness (calls 9 1) 0 ordered).2.1 rfl 1 [] [] 1).1
  · exact (kind_soundness (calls 9 1) 0 bound).2.2.1 rfl .start state refused hbound
  · exact (kind_soundness (calls 9 1) 0 ordered).2.2.2 hordered state

end Treewalk
