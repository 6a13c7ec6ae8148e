import Treewalk.Eval.Basic

/-!
# Prints that write in some way

A print is the only node that writes. `evaluateWith` is the evaluation with the way in which prints
write as a parameter (`Put`), and if they write as in `execStmt` it is the evaluation itself
(`evaluateWith_write`). Expressions write through calls alone, so they are evaluated as they are.
-/

set_option autoImplicit false
set_option relaxedAutoImplicit false

namespace Treewalk

open EvalM

/-- How a print at a line writes its text. -/
abbrev Put (S : Type) : Type :=
  Line → String → EvalM S Unit

variable {S : Type} [Scopes S]

mutual

/-- A statement whose prints write in some way. -/
def execStmtWith (put : Put S) (fuel : Nat) (invoke : Invoke S) (env : FrameId) :
    Stmt → EvalM S Flow
  | .block body _ => execBlockWith put fuel invoke env body
  | .print value ending line => do
    let shown ← evalExpr invoke env value
    put line (Escape.decode shown.text ++ ending.text)
    pure .normal
  | .ifThen condition body line => do
    if ← evalCondition invoke env .ifStatement condition line then
      let inner ← openFrame env
      execBlockWith put fuel invoke inner body
    else
      pure .normal
  | .ifElse condition body fallback line => do
    let holds ← evalCondition invoke env .ifStatement condition line
    let inner ← openFrame env
    if holds then
      execBlockWith put fuel invoke inner body
    else
      execBlockWith put fuel invoke inner fallback
  | .whileLoop condition body line => do
    let inner ← openFrame env
    EvalM.whileLoop (evalCondition invoke env .whileLoop condition line)
      (execBlockWith put fuel invoke inner body) fuel
  | .forLoop counter start stop step body _ => do
    let progression ← evalProgression invoke env start stop step
    let inner ← openFrame env
    EvalM.forLoop progression (fun current ↦ assign env counter (.number (.float current)))
      (execBlockWith put fuel invoke inner body) fuel progression.start
  | .assign name value line => execStmt fuel invoke env (.assign name value line)
  | .declare name value line => execStmt fuel invoke env (.declare name value line)
  | .function name parameters body line =>
    execStmt fuel invoke env (.function name parameters body line)
  | .call name arguments line => execStmt fuel invoke env (.call name arguments line)
  | .ret value line => execStmt fuel invoke env (.ret value line)

def execBlockWith (put : Put S) (fuel : Nat) (invoke : Invoke S) (env : FrameId) :
    List Stmt → EvalM S Flow
  | [] => pure .normal
  | stmt :: rest =>
    andThen (execStmtWith put fuel invoke env stmt) (execBlockWith put fuel invoke env rest)

end

def runBodyWith (put : Put S) (enter : Enter S) : Nat → FrameId → List Stmt → EvalM S Flow
  | 0, _, _ => outOfFuel
  | fuel + 1, env, body =>
    execBlockWith put fuel (invoke enter (runBodyWith put enter fuel)) env body

/-- How calls run functions whose prints write in some way. -/
def callsWith (put : Put S) (enter : Enter S) (fuel : Nat) : Invoke S :=
  invoke enter (runBodyWith put enter fuel)

def evaluateWith (put : Put S) (fuel : Nat) (invoke : Invoke S) (env : FrameId) :
    Node → EvalM S Result
  | .stmt root => do
    let flow ← execStmtWith put fuel invoke env root
    pure (.flow flow)
  | .expr root => do
    let value ← evalExpr invoke env root
    pure (.value value)

/-! ### Prints that write to the sink -/

mutual

theorem execStmtWith_write (fuel : Nat) (invoke : Invoke S) :
    ∀ (stmt : Stmt) (env : FrameId),
      execStmtWith EvalM.write fuel invoke env stmt = execStmt fuel invoke env stmt
  | .block body _, env => by
    unfold execStmtWith execStmt
    exact execBlockWith_write fuel invoke body env
  | .print _ _ _, _ | .assign _ _ _, _ | .declare _ none _, _ | .declare _ (some _) _, _
  | .function _ _ _ _, _ | .call _ _ _, _ | .ret _ _, _ => by
    unfold execStmtWith execStmt
    rfl
  | .ifThen _ body _, _ | .whileLoop _ body _, _ | .forLoop _ _ _ _ body _, _ => by
    unfold execStmtWith execStmt
    simp only [execBlockWith_write fuel invoke body]
  | .ifElse _ body fallback _, _ => by
    unfold execStmtWith execStmt
    simp only [execBlockWith_write fuel invoke body, execBlockWith_write fuel invoke fallback]

theorem execBlockWith_write (fuel : Nat) (invoke : Invoke S) :
    ∀ (body : List Stmt) (env : FrameId),
      execBlockWith EvalM.write fuel invoke env body = execBlock fuel invoke env body
  | [], _ => by
    unfold execBlockWith execBlock
    rfl
  | stmt :: rest, env => by
    unfold execBlockWith execBlock
    rw [execStmtWith_write fuel invoke stmt env, execBlockWith_write fuel invoke rest env]

end

theorem callsWith_write (enter : Enter S) (fuel : Nat) :
    callsWith EvalM.write enter fuel = callsBy enter fuel := by
  have hrun : runBodyWith EvalM.write enter fuel = runBody enter fuel := by
    induction fuel with
    | zero => rfl
    | succ fuel ih =>
      funext env body
      rw [runBodyWith, runBody, ih, execBlockWith_write]
  rw [callsWith, callsBy, hrun]

theorem evaluateWith_write (fuel : Nat) (invoke : Invoke S) (env : FrameId) (node : Node) :
    evaluateWith EvalM.write fuel invoke env node = evaluate fuel invoke env node := by
  cases node with
  | stmt root => rw [evaluateWith, evaluate, execStmtWith_write]
  | expr root => rfl

end Treewalk
