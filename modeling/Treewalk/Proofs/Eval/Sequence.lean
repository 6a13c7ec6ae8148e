import Treewalk.Eval.Basic

/-!
# Statements in sequence

Running statements in turn is running the first of them and then, unless these return or stop, the
others (`execBlock_append`). So statements that stand after one that stopped have no effect.
-/

set_option autoImplicit false
set_option relaxedAutoImplicit false

namespace Treewalk

variable {S : Type}

namespace EvalM

theorem bind_of_ok {α β : Type} {first : EvalM S α} {state after : State S} {result : α}
    (h : first state = (.ok result, after)) (next : α → EvalM S β) :
    (first >>= next) state = next result after := by
  rw [bind_apply, h]

theorem bind_of_error {α β : Type} {first : EvalM S α} {state after : State S} {stop : Stop}
    (h : first state = (.error stop, after)) (next : α → EvalM S β) :
    (first >>= next) state = (.error stop, after) := by
  rw [bind_apply, h]

theorem andThen_assoc (first second third : EvalM S Flow) :
    andThen (andThen first second) third = andThen first (andThen second third) := by
  unfold andThen
  rw [bind_assoc]
  refine bind_congr fun flow ↦ ?_
  cases flow with
  | normal => rfl
  | returned value => rw [pure_bind]

theorem normal_andThen (second : EvalM S Flow) : andThen (pure .normal) second = second :=
  pure_bind _ _

theorem andThen_stop {first : EvalM S Flow} {state after : State S} {stop : Stop}
    (h : first state = (.error stop, after)) (second : EvalM S Flow) :
    andThen first second state = (.error stop, after) := by
  rw [andThen, bind_apply, h]

end EvalM

variable [Scopes S] (fuel : Nat) (invoke : Invoke S) (env : FrameId)

theorem execBlock_append (first second : List Stmt) :
    execBlock fuel invoke env (first ++ second) =
      EvalM.andThen (execBlock fuel invoke env first) (execBlock fuel invoke env second) := by
  induction first with
  | nil => rw [execBlock, EvalM.normal_andThen, List.nil_append]
  | cons stmt rest ih => rw [List.cons_append, execBlock, execBlock, ih, EvalM.andThen_assoc]

/-- Statements after a stop are not run. -/
theorem execBlock_append_stop {first : List Stmt} {state after : State S} {stop : Stop}
    (h : execBlock fuel invoke env first state = (.error stop, after)) (second : List Stmt) :
    execBlock fuel invoke env (first ++ second) state = (.error stop, after) := by
  rw [execBlock_append]
  exact EvalM.andThen_stop h _

end Treewalk
