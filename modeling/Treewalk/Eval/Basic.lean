import Treewalk.Eval.Loop
import Treewalk.Operation
import Treewalk.Text.Escape

/-!
# Evaluation

`evalExpr` and `execStmt` follow the syntax and take calls as a parameter: `Invoke` says how a
resolved function is run on its arguments. `invoke` opens the frame of a call under the frame of the
declaration, and `runBody` ties the knot, one unit of fuel for each call inside another. That a body
is run one call deeper is a parameter as well (`Enter`), which `calls` fills in. Loops count their
rounds with the same fuel. Every other step is recursion on the syntax, so a program without loops
needs no more fuel than the depth that it may reach.

A block runs in the frame it is given. Branches, loop bodies and calls open a frame of their own; a
loop opens one for all its rounds, while its test and its counter stay outside.
-/

set_option autoImplicit false
set_option relaxedAutoImplicit false

namespace Treewalk

open EvalM

/-- How a call runs a function on its arguments: from the function, the arguments and the line of
the call to the value returned, if there is one. -/
abbrev Invoke (S : Type) : Type :=
  Closure → List Value → Line → EvalM S (Option Value)

variable {S : Type} [Scopes S]

/-! ### Expressions -/

/-- The value of a call where one is needed. -/
def demand (name : String) (line : Line) : Option Value → EvalM S Value
  | some value => pure value
  | none => fail (.missingReturnValue name) line

mutual

def evalExpr (invoke : Invoke S) (env : FrameId) : Expr → EvalM S Value
  | .int value _ => pure (.number (Number.ofInt64 value))
  | .float value _ => pure (.number value)
  | .bool value _ => pure (.boolean value)
  | .str value _ => pure (.string value)
  | .identifier name line => read env name line
  | .grouping inner _ => evalExpr invoke env inner
  | .unary operator right line => do
    let value ← evalExpr invoke env right
    ofExcept line (operator.apply value)
  | .binary left operator right line => do
    let first ← evalExpr invoke env left
    let second ← evalExpr invoke env right
    ofExcept line (operator.apply first second)
  | .logical left operator right _ => do
    let first ← evalExpr invoke env left
    if operator.decidedBy first then
      pure first
    else
      evalExpr invoke env right
  | .call name arguments line => do
    let closure ← resolve env name arguments.length line
    let values ← evalArguments invoke env arguments
    let result ← invoke closure values line
    demand name line result

/-- The values of the arguments of a call, from left to right. -/
def evalArguments (invoke : Invoke S) (env : FrameId) : List Expr → EvalM S (List Value)
  | [] => pure []
  | argument :: rest => do
    let value ← evalExpr invoke env argument
    let values ← evalArguments invoke env rest
    pure (value :: values)

end

/-- A call whose value may be absent. The function is found, and its number of parameters compared,
before any argument is evaluated. -/
def evalCall (invoke : Invoke S) (env : FrameId) (name : String) (arguments : List Expr)
    (line : Line) : EvalM S (Option Value) := do
  let closure ← resolve env name arguments.length line
  let values ← evalArguments invoke env arguments
  invoke closure values line

/-- As an expression, a call is the same call with its value demanded. -/
theorem evalExpr_call (invoke : Invoke S) (env : FrameId) (name : String) (arguments : List Expr)
    (line : Line) :
    evalExpr invoke env (.call name arguments line) =
      evalCall invoke env name arguments line >>= demand name line := by
  simp [evalExpr, evalCall]

/-- The boolean that a construct branches on. -/
def evalCondition (invoke : Invoke S) (env : FrameId) (construct : Construct) (condition : Expr)
    (line : Line) : EvalM S Bool := do
  match ← evalExpr invoke env condition with
  | .boolean holds => pure holds
  | value => fail (.nonBooleanCondition construct value.kind) line

/-- A number that a `for` loop asks for; another value is charged to the line it is written on. -/
def evalBound (invoke : Invoke S) (env : FrameId) (bound : Bound) (expr : Expr) :
    EvalM S Float := do
  match ← evalExpr invoke env expr with
  | .number x => pure x.toFloat
  | value => fail (.nonNumericBound bound value.kind) expr.line

/-- The numbers of a `for` loop, each bound evaluated once. -/
def evalProgression (invoke : Invoke S) (env : FrameId) (start stop : Expr) (step : Option Expr) :
    EvalM S Progression := do
  let first ← evalBound invoke env .start start
  let last ← evalBound invoke env .stop stop
  match step with
  | some expr =>
    let stride ← evalBound invoke env .step expr
    pure ⟨first, last, stride⟩
  | none => pure ⟨first, last, Progression.defaultStep first last⟩

/-- What a `return` passes on. A call that stands there directly may have no value, and then
neither has the return. -/
def evalResult (invoke : Invoke S) (env : FrameId) : Option Expr → EvalM S (Option Value)
  | none => pure none
  | some (.call name arguments line) => evalCall invoke env name arguments line
  | some expr => do
    let value ← evalExpr invoke env expr
    pure (some value)

/-! ### Statements -/

mutual

def execStmt (fuel : Nat) (invoke : Invoke S) (env : FrameId) : Stmt → EvalM S Flow
  | .block body _ => execBlock fuel invoke env body
  | .print value ending line => do
    let shown ← evalExpr invoke env value
    write line (Escape.decode shown.text ++ ending.text)
    pure .normal
  | .ifThen condition body line => do
    if ← evalCondition invoke env .ifStatement condition line then
      let inner ← openFrame env
      execBlock fuel invoke inner body
    else
      pure .normal
  | .ifElse condition body fallback line => do
    let holds ← evalCondition invoke env .ifStatement condition line
    let inner ← openFrame env
    if holds then
      execBlock fuel invoke inner body
    else
      execBlock fuel invoke inner fallback
  | .whileLoop condition body line => do
    let inner ← openFrame env
    EvalM.whileLoop (evalCondition invoke env .whileLoop condition line)
      (execBlock fuel invoke inner body) fuel
  | .forLoop counter start stop step body _ => do
    let progression ← evalProgression invoke env start stop step
    let inner ← openFrame env
    EvalM.forLoop progression (fun current ↦ assign env counter (.number (.float current)))
      (execBlock fuel invoke inner body) fuel progression.start
  | .assign name value _ => do
    let result ← evalExpr invoke env value
    assign env name result
    pure .normal
  | .declare name none _ => do
    declare env name .unset
    pure .normal
  | .declare name (some value) _ => do
    let result ← evalExpr invoke env value
    declare env name (.set result)
    pure .normal
  | .function name parameters body line => do
    declareFunction env ⟨name, parameters, body, line⟩
    pure .normal
  | .call name arguments line => do
    let _ ← evalCall invoke env name arguments line
    pure .normal
  | .ret value _ => do
    let result ← evalResult invoke env value
    pure (.returned result)

/-- Runs statements in turn, up to the first that returns. -/
def execBlock (fuel : Nat) (invoke : Invoke S) (env : FrameId) : List Stmt → EvalM S Flow
  | [] => pure .normal
  | stmt :: rest => andThen (execStmt fuel invoke env stmt) (execBlock fuel invoke env rest)

end

/-! ### Calls -/

/-- Binds the parameters of a function to the arguments, in order. -/
def bindParameters (env : FrameId) : List (String × Value) → EvalM S Unit
  | [] => pure ()
  | (parameter, value) :: rest => do
    declare env parameter (.set value)
    bindParameters env rest

/-- Runs a function in a frame of its own under the frame of its declaration. -/
def runFunction (runBody : FrameId → List Stmt → EvalM S Flow) (closure : Closure)
    (values : List Value) : EvalM S (Option Value) := do
  let env ← openFrame closure.frame
  bindParameters env (closure.function.parameters.zip values)
  match ← runBody env closure.function.body with
  | .normal => pure none
  | .returned value => pure value

/-- How the body of a call at a line is run. -/
abbrev Enter (S : Type) : Type :=
  Line → EvalM S (Option Value) → EvalM S (Option Value)

def invoke (enter : Enter S) (runBody : FrameId → List Stmt → EvalM S Flow) : Invoke S :=
  fun closure values line ↦ enter line (runFunction runBody closure values)

/-- Runs the body of a function in the frame of a call. -/
def runBody (enter : Enter S) : Nat → FrameId → List Stmt → EvalM S Flow
  | 0, _, _ => outOfFuel
  | fuel + 1, env, body => execBlock fuel (invoke enter (runBody enter fuel)) env body

/-- How calls that are entered in one way run functions with some fuel. -/
def callsBy (enter : Enter S) (fuel : Nat) : Invoke S :=
  invoke enter (runBody enter fuel)

/-- Calls under a limit. -/
def calls (limit fuel : Nat) : Invoke S :=
  callsBy (deeper limit) fuel

/-! ### Nodes -/

/-- What a node comes to: an expression to its value, a statement to its flow. -/
inductive Result where
  | value (value : Value)
  | flow (flow : Flow)
  deriving DecidableEq

/-- The value that a node yields. A statement yields that of the return it executes, if any. -/
def Result.yielded : Result → Option Value
  | .value result => some result
  | .flow .normal => none
  | .flow (.returned result) => result

def evaluate (fuel : Nat) (invoke : Invoke S) (env : FrameId) : Node → EvalM S Result
  | .stmt root => do
    let flow ← execStmt fuel invoke env root
    pure (.flow flow)
  | .expr root => do
    let value ← evalExpr invoke env root
    pure (.value value)

/-- The value that a node yields in a frame. -/
def evalNode (limit fuel : Nat) (env : FrameId) (node : Node) : EvalM S (Option Value) := do
  let result ← evaluate fuel (calls limit fuel) env node
  pure result.yielded

theorem evalNode_apply (limit fuel : Nat) (env : FrameId) (node : Node) (state : State S) :
    evalNode limit fuel env node state =
      ((evaluate fuel (calls limit fuel) env node state).1.map Result.yielded,
        (evaluate fuel (calls limit fuel) env node state).2) :=
  bind_pure_apply _ _ state

end Treewalk
