import Treewalk.Proofs.Eval.Writing
import Treewalk.Proofs.Simulation.Judgement
import Treewalk.Proofs.Syntax.Blocks
import Treewalk.Proofs.Syntax.Parts

/-!
# Simulations along the syntax

The evaluator touches the state in a few computations, each of them at nodes of one kind. A
`Dialect` says which expressions and which statements are evaluated. It has the operands of what it
has, and the blocks that its statements run. The body of a function is not run by its declaration,
so a dialect need not have it.

A simulation is sound for a dialect if it holds of the computations that touch the state at the
nodes of the dialect, and if the errors that these nodes raise by themselves are ways in which the
second run may stop (`Simulation.IsSoundFor`). Then it holds of every evaluation in the dialect, of
an expression at a site and of a statement at a home, as long as it holds of the calls that the
dialect has. Which functions those calls may run is left open (`callable`), and may depend on the
name that is called.

The second run may be that of a program whose blocks are rewritten by a rule, provided that what the
rule makes of a block matches whatever the block matches. Its prints may also write in a way of
their own.

The proofs follow the syntax once and for all. What is particular to a simulation is in its
soundness.
-/

set_option autoImplicit false
set_option relaxedAutoImplicit false

namespace Treewalk

/-! ### Errors that nodes raise -/

/-- The errors that an expression raises for the values of its operands. -/
inductive Expr.Raises : Expr → RuntimeError → Prop
  | unary {operator : UnaryOp} {right : Expr} {line : Line} {value : Value} {fault : Fault}
    (h : operator.apply value = .error fault) : Raises (.unary operator right line) ⟨fault, line⟩
  | binary {left right : Expr} {operator : BinaryOp} {line : Line} {first second : Value}
    {fault : Fault} (h : operator.apply first second = .error fault) :
    Raises (.binary left operator right line) ⟨fault, line⟩
  | missing {name : String} {arguments : List Expr} {line : Line} :
    Raises (.call name arguments line) ⟨.missingReturnValue name, line⟩

/-- The errors that a statement raises for the values of its operands. -/
inductive Stmt.Raises : Stmt → RuntimeError → Prop
  | ifThen {condition : Expr} {body : List Stmt} {line : Line} {kind : Kind}
    (h : kind ≠ .boolean) :
    Raises (.ifThen condition body line) ⟨.nonBooleanCondition .ifStatement kind, line⟩
  | ifElse {condition : Expr} {body fallback : List Stmt} {line : Line} {kind : Kind}
    (h : kind ≠ .boolean) :
    Raises (.ifElse condition body fallback line) ⟨.nonBooleanCondition .ifStatement kind, line⟩
  | whileLoop {condition : Expr} {body : List Stmt} {line : Line} {kind : Kind}
    (h : kind ≠ .boolean) :
    Raises (.whileLoop condition body line) ⟨.nonBooleanCondition .whileLoop kind, line⟩
  | start {counter : String} {start stop : Expr} {step : Option Expr} {body : List Stmt}
    {line : Line} {kind : Kind} (h : kind ≠ .number) :
    Raises (.forLoop counter start stop step body line) ⟨.nonNumericBound .start kind, start.line⟩
  | stop {counter : String} {start stop : Expr} {step : Option Expr} {body : List Stmt}
    {line : Line} {kind : Kind} (h : kind ≠ .number) :
    Raises (.forLoop counter start stop step body line) ⟨.nonNumericBound .stop kind, stop.line⟩
  | step {counter : String} {start stop step : Expr} {body : List Stmt} {line : Line}
    {kind : Kind} (h : kind ≠ .number) :
    Raises (.forLoop counter start stop (some step) body line)
      ⟨.nonNumericBound .step kind, step.line⟩

/-! ### Dialects -/

/-- Which expressions and which statements are evaluated. -/
structure Dialect where
  expr : Expr → Prop
  stmt : Stmt → Prop
  expr_operand : ∀ {root operand}, expr root → operand ∈ root.operands → expr operand
  stmt_operand : ∀ {root operand}, stmt root → operand ∈ root.operands → expr operand
  stmt_block : ∀ {root body}, stmt root → body ∈ root.runs → ∀ inner ∈ body, stmt inner

namespace Dialect

def HasBlock (dialect : Dialect) (body : List Stmt) : Prop :=
  ∀ stmt ∈ body, dialect.stmt stmt

/-- A call may stand as an expression, as a statement, or in a return that forwards it. -/
def HasCall (dialect : Dialect) (name : String) (arguments : List Expr) (line : Line) : Prop :=
  dialect.expr (.call name arguments line) ∨ dialect.stmt (.call name arguments line) ∨
    ∃ line', dialect.stmt (.ret (some (.call name arguments line)) line')

def HasNode (dialect : Dialect) : Node → Prop
  | .stmt root => dialect.stmt root
  | .expr root => dialect.expr root

end Dialect

/-! ### Soundness for a dialect -/

namespace Simulation

variable {S T : Type}

/-- What calls of a name may run, in the first run and in the second, from a stage on. -/
abbrev Callables : Type :=
  String → Nat → Closure → Closure → Prop

/-- Two ways to run the calls of a dialect that match. -/
def InvokesFor (σ : Simulation S T) (dialect : Dialect) (callable : Callables)
    (invoke : Invoke S) (invoke' : Invoke T) : Prop :=
  ∀ stage closure closure' name arguments values line, dialect.HasCall name arguments line →
    callable name stage closure closure' →
      σ.Agrees stage (invoke closure values line) (invoke' closure' values line)

variable [Scopes S] [Scopes T]

/-- The simulation holds of each computation that touches the state at a node of the dialect, the
second run having its blocks rewritten and writing in this way. -/
structure IsSoundFor (σ : Simulation S T) (dialect : Dialect) (callable : Callables)
    (rule : List Stmt → List Stmt) (put : Put T) : Prop where
  rewrites : ∀ {stage fuel env body} {invoke : Invoke T} {first : EvalM S Flow},
    σ.Agrees stage first (execBlockWith put fuel invoke env body) →
      σ.Agrees stage first (execBlockWith put fuel invoke env (rule body))
  site_mono : ∀ {stage later env env'}, stage ≤ later → σ.site stage env env' →
    σ.site later env env'
  home_mono : ∀ {stage later env env'}, stage ≤ later → σ.home stage env env' →
    σ.home later env env'
  site_of_home : ∀ {stage env env'}, σ.home stage env env' → σ.site stage env env'
  callable_mono : ∀ {name stage later closure closure'}, stage ≤ later →
    callable name stage closure closure' → callable name later closure closure'
  read : ∀ {stage env env' name line}, dialect.expr (.identifier name line) →
    σ.site stage env env' →
      σ.Agrees stage (EvalM.read env name line) (EvalM.read env' name line)
  resolve : ∀ {stage env env' name arguments line}, dialect.HasCall name arguments line →
    σ.site stage env env' →
      σ.Matches stage (callable name) (EvalM.resolve env name arguments.length line)
        (EvalM.resolve env' name arguments.length line)
  openFrame : ∀ {stage env env'}, σ.site stage env env' →
    σ.Matches stage σ.home (EvalM.openFrame env) (EvalM.openFrame env')
  assign : ∀ {stage env env'} name value, σ.home stage env env' →
    σ.Agrees stage (EvalM.assign env name value) (EvalM.assign env' name value)
  declare : ∀ {stage env env'} name value, σ.home stage env env' →
    σ.Agrees stage (EvalM.declare env name (.set value)) (EvalM.declare env' name (.set value))
  declareUnset : ∀ {stage env env' name line}, dialect.stmt (.declare name none line) →
    σ.home stage env env' →
      σ.Agrees stage (EvalM.declare env name .unset) (EvalM.declare env' name .unset)
  declareFunction : ∀ {stage env env' function}, dialect.stmt function.declaration →
    σ.home stage env env' →
      σ.Agrees stage (EvalM.declareFunction env function)
        (EvalM.declareFunction env' (function.mapBlocks rule))
  write : ∀ {stage value ending line} text, dialect.stmt (.print value ending line) →
    σ.Agrees stage (EvalM.write line text) (put line text)
  expr_raises : ∀ {expr error}, dialect.expr expr → expr.Raises error → σ.ends (.error error)
  stmt_raises : ∀ {stmt error}, dialect.stmt stmt → stmt.Raises error → σ.ends (.error error)
  loop : ∀ {stmt}, dialect.stmt stmt → stmt.isLoop → σ.ends .outOfFuel

namespace IsSoundFor

variable {σ : Simulation S T} {dialect : Dialect} {callable : Callables}
  {rule : List Stmt → List Stmt} {put : Put T} {fuel fuel' stage : Nat} {env env' : FrameId}
  {invoke : Invoke S} {invoke' : Invoke T}

/-! ### Expressions -/

/-- A call matches if its arguments do. -/
theorem agrees_call (hsound : σ.IsSoundFor dialect callable rule put)
    (hinvoke : σ.InvokesFor dialect callable invoke invoke') {name : String} {arguments : List Expr}
    {line : Line} (hcall : dialect.HasCall name arguments line)
    (harguments : ∀ {later : Nat}, σ.site later env env' →
      σ.Agrees later (evalArguments invoke env arguments) (evalArguments invoke' env' arguments))
    (hsite : σ.site stage env env') :
    σ.Agrees stage (evalCall invoke env name arguments line)
      (evalCall invoke' env' name arguments line) := by
  unfold evalCall
  refine (hsound.resolve hcall hsite).bind ?_
  intro later hlater closure closure' hcallable
  refine (harguments (hsound.site_mono hlater hsite)).bind_agrees ?_
  intro last hlast values
  exact hinvoke last closure closure' name arguments values line hcall
    (hsound.callable_mono hlast hcallable)

theorem agrees_demand (hsound : σ.IsSoundFor dialect callable rule put) {name : String}
    {arguments : List Expr} {line : Line} (hcall : dialect.expr (.call name arguments line))
    (result : Option Value) :
    σ.Agrees stage (demand name line result) (demand name line result) := by
  cases result with
  | none => exact .fail (hsound.expr_raises hcall .missing)
  | some value => exact .pure rfl

mutual

theorem agrees_evalExpr (hsound : σ.IsSoundFor dialect callable rule put)
    (hinvoke : σ.InvokesFor dialect callable invoke invoke') :
    ∀ (expr : Expr) {stage : Nat} {env env' : FrameId}, dialect.expr expr →
      σ.site stage env env' →
      σ.Agrees stage (evalExpr invoke env expr) (evalExpr invoke' env' expr)
  | .int _ _, _, _, _, _, _ | .float _ _, _, _, _, _, _ | .bool _ _, _, _, _, _, _
  | .str _ _, _, _, _, _, _ => by
    unfold evalExpr
    exact .pure rfl
  | .identifier name line, _, _, _, hexpr, hsite => by
    unfold evalExpr
    exact hsound.read hexpr hsite
  | .grouping inner _, _, _, _, hexpr, hsite => by
    unfold evalExpr
    exact agrees_evalExpr hsound hinvoke inner (dialect.expr_operand hexpr List.mem_cons_self) hsite
  | .unary operator right line, _, _, _, hexpr, hsite => by
    unfold evalExpr
    have hright : dialect.expr right := dialect.expr_operand hexpr List.mem_cons_self
    refine (agrees_evalExpr hsound hinvoke right hright hsite).bind_agrees ?_
    intro _ _ value
    exact .ofExcept fun fault hfault ↦ hsound.expr_raises hexpr (.unary hfault)
  | .binary left operator right line, _, _, _, hexpr, hsite => by
    unfold evalExpr
    have hleft : dialect.expr left := dialect.expr_operand hexpr List.mem_cons_self
    have hright : dialect.expr right :=
      dialect.expr_operand hexpr (List.mem_cons_of_mem _ List.mem_cons_self)
    refine (agrees_evalExpr hsound hinvoke left hleft hsite).bind_agrees ?_
    intro _ hlater first
    have hsite := hsound.site_mono hlater hsite
    refine (agrees_evalExpr hsound hinvoke right hright hsite).bind_agrees ?_
    intro _ _ second
    exact .ofExcept fun fault hfault ↦ hsound.expr_raises hexpr (.binary hfault)
  | .logical left operator right _, _, _, _, hexpr, hsite => by
    unfold evalExpr
    have hleft : dialect.expr left := dialect.expr_operand hexpr List.mem_cons_self
    have hright : dialect.expr right :=
      dialect.expr_operand hexpr (List.mem_cons_of_mem _ List.mem_cons_self)
    refine (agrees_evalExpr hsound hinvoke left hleft hsite).bind_agrees ?_
    intro _ hlater first
    by_cases hdecided : operator.decidedBy first = true
    · rw [if_pos hdecided, if_pos hdecided]
      exact .pure rfl
    · rw [if_neg hdecided, if_neg hdecided]
      exact agrees_evalExpr hsound hinvoke right hright (hsound.site_mono hlater hsite)
  | .call name arguments line, _, _, _, hexpr, hsite => by
    rw [evalExpr_call, evalExpr_call]
    have harguments : ∀ argument ∈ arguments, dialect.expr argument :=
      fun argument hargument ↦ dialect.expr_operand hexpr hargument
    refine (hsound.agrees_call hinvoke (.inl hexpr)
      (agrees_evalArguments hsound hinvoke arguments harguments) hsite).bind_agrees ?_
    exact fun _ _ result ↦ hsound.agrees_demand hexpr result

theorem agrees_evalArguments (hsound : σ.IsSoundFor dialect callable rule put)
    (hinvoke : σ.InvokesFor dialect callable invoke invoke') :
    ∀ (arguments : List Expr), (∀ argument ∈ arguments, dialect.expr argument) →
      ∀ {stage : Nat} {env env' : FrameId}, σ.site stage env env' →
      σ.Agrees stage (evalArguments invoke env arguments) (evalArguments invoke' env' arguments)
  | [], _, _, _, _, _ => by
    unfold evalArguments
    exact .pure rfl
  | argument :: rest, hexprs, _, _, _, hsite => by
    unfold evalArguments
    have hargument := hexprs argument List.mem_cons_self
    have hrest := fun other hother ↦ hexprs other (List.mem_cons_of_mem _ hother)
    refine (agrees_evalExpr hsound hinvoke argument hargument hsite).bind_agrees ?_
    intro _ hlater value
    have hsite := hsound.site_mono hlater hsite
    exact (agrees_evalArguments hsound hinvoke rest hrest hsite).bind_agrees
      fun _ _ values ↦ .pure rfl

end

theorem agrees_evalCall (hsound : σ.IsSoundFor dialect callable rule put)
    (hinvoke : σ.InvokesFor dialect callable invoke invoke') {name : String} {arguments : List Expr}
    {line : Line} (hcall : dialect.HasCall name arguments line)
    (harguments : ∀ argument ∈ arguments, dialect.expr argument)
    (hsite : σ.site stage env env') :
    σ.Agrees stage (evalCall invoke env name arguments line)
      (evalCall invoke' env' name arguments line) :=
  hsound.agrees_call hinvoke hcall (hsound.agrees_evalArguments hinvoke arguments harguments) hsite

theorem agrees_evalCondition (hsound : σ.IsSoundFor dialect callable rule put)
    (hinvoke : σ.InvokesFor dialect callable invoke invoke') {construct : Construct}
    {condition : Expr} {line : Line} (hcondition : dialect.expr condition)
    (hends : ∀ kind, kind ≠ .boolean → σ.ends (.error ⟨.nonBooleanCondition construct kind, line⟩))
    (hsite : σ.site stage env env') :
    σ.Agrees stage (evalCondition invoke env construct condition line)
      (evalCondition invoke' env' construct condition line) := by
  unfold evalCondition
  refine (hsound.agrees_evalExpr hinvoke condition hcondition hsite).bind_agrees ?_
  intro _ _ value
  cases value with
  | boolean holds => exact .pure rfl
  | number x => exact .fail (hends .number nofun)
  | string s => exact .fail (hends .string nofun)

theorem agrees_evalBound (hsound : σ.IsSoundFor dialect callable rule put)
    (hinvoke : σ.InvokesFor dialect callable invoke invoke') {bound : Bound} {expr : Expr}
    (hexpr : dialect.expr expr)
    (hends : ∀ kind, kind ≠ .number → σ.ends (.error ⟨.nonNumericBound bound kind, expr.line⟩))
    (hsite : σ.site stage env env') :
    σ.Agrees stage (evalBound invoke env bound expr) (evalBound invoke' env' bound expr) := by
  unfold evalBound
  refine (hsound.agrees_evalExpr hinvoke expr hexpr hsite).bind_agrees ?_
  intro _ _ value
  cases value with
  | number x => exact .pure rfl
  | boolean b => exact .fail (hends .boolean nofun)
  | string s => exact .fail (hends .string nofun)

theorem agrees_evalProgression (hsound : σ.IsSoundFor dialect callable rule put)
    (hinvoke : σ.InvokesFor dialect callable invoke invoke') {counter : String} {start stop : Expr}
    {step : Option Expr} {body : List Stmt} {line : Line}
    (hloop : dialect.stmt (.forLoop counter start stop step body line))
    (hsite : σ.site stage env env') :
    σ.Agrees stage (evalProgression invoke env start stop step)
      (evalProgression invoke' env' start stop step) := by
  unfold evalProgression
  have hstart : dialect.expr start := dialect.stmt_operand hloop List.mem_cons_self
  have hstop : dialect.expr stop :=
    dialect.stmt_operand hloop (List.mem_cons_of_mem _ List.mem_cons_self)
  refine (hsound.agrees_evalBound hinvoke hstart
    (fun _ hkind ↦ hsound.stmt_raises hloop (.start hkind)) hsite).bind_agrees ?_
  intro next hnext first
  have hsite := hsound.site_mono hnext hsite
  refine (hsound.agrees_evalBound hinvoke hstop
    (fun _ hkind ↦ hsound.stmt_raises hloop (.stop hkind)) hsite).bind_agrees ?_
  intro last hlast final
  have hsite := hsound.site_mono hlast hsite
  cases step with
  | none => exact .pure rfl
  | some expr =>
    have hexpr : dialect.expr expr := dialect.stmt_operand hloop
      (List.mem_cons_of_mem _ (List.mem_cons_of_mem _ List.mem_cons_self))
    exact (hsound.agrees_evalBound hinvoke hexpr
      (fun _ hkind ↦ hsound.stmt_raises hloop (.step hkind)) hsite).bind_agrees
        fun _ _ stride ↦ .pure rfl

theorem agrees_evalResult (hsound : σ.IsSoundFor dialect callable rule put)
    (hinvoke : σ.InvokesFor dialect callable invoke invoke') {value : Option Expr} {line : Line}
    (hret : dialect.stmt (.ret value line)) (hsite : σ.site stage env env') :
    σ.Agrees stage (evalResult invoke env value) (evalResult invoke' env' value) := by
  unfold evalResult
  split
  · exact .pure rfl
  · -- A call that is forwarded is not itself an operand of the return, but its arguments are.
    exact hsound.agrees_evalCall hinvoke (.inr (.inr ⟨line, hret⟩))
      (fun argument hargument ↦ dialect.stmt_operand hret hargument) hsite
  · rename_i expr hdirect
    have hexpr : dialect.expr expr := dialect.stmt_operand hret (by
      cases expr with
      | call name arguments line' => exact absurd rfl (hdirect name arguments line')
      | _ => exact List.mem_cons_self)
    exact (hsound.agrees_evalExpr hinvoke expr hexpr hsite).bind_agrees
      fun _ _ result ↦ .pure rfl

/-! ### Statements -/

/-- A body in a frame that is opened for it. -/
theorem agrees_inFrame (hsound : σ.IsSoundFor dialect callable rule put)
    {body : FrameId → EvalM S Flow} {body' : FrameId → EvalM T Flow}
    (hbody : ∀ later inner inner', stage ≤ later → σ.home later inner inner' →
      σ.Agrees later (body inner) (body' inner'))
    (hhome : σ.home stage env env') :
    σ.Agrees stage (EvalM.openFrame env >>= body) (EvalM.openFrame env' >>= body') :=
  (hsound.openFrame (hsound.site_of_home hhome)).bind
    fun later hlater inner inner' hinner ↦ hbody later inner inner' hlater hinner

mutual

theorem agrees_execStmtWith (hsound : σ.IsSoundFor dialect callable rule put)
    (hinvoke : σ.InvokesFor dialect callable invoke invoke') (hfuels : σ.Fuels fuel fuel') :
    ∀ (stmt : Stmt) {stage : Nat} {env env' : FrameId}, dialect.stmt stmt →
      σ.home stage env env' →
      σ.Agrees stage (execStmt fuel invoke env stmt)
        (execStmtWith put fuel' invoke' env' (stmt.mapBlocks rule))
  | .block body _, _, _, _, hstmt, hhome => by
    unfold Stmt.mapBlocks execStmtWith execStmt
    have hbody : dialect.HasBlock body := dialect.stmt_block hstmt List.mem_cons_self
    exact hsound.rewrites (agrees_execBlockWith hsound hinvoke hfuels body hbody hhome)
  | .print value ending line, _, _, _, hstmt, hhome => by
    unfold Stmt.mapBlocks execStmtWith execStmt
    have hvalue : dialect.expr value := dialect.stmt_operand hstmt List.mem_cons_self
    refine (hsound.agrees_evalExpr hinvoke value hvalue
      (hsound.site_of_home hhome)).bind_agrees ?_
    intro later _ shown
    exact (hsound.write _ hstmt).bind_agrees fun _ _ _ ↦ .pure rfl
  | .ifThen condition body line, _, _, _, hstmt, hhome => by
    unfold Stmt.mapBlocks execStmtWith execStmt
    have hbody : dialect.HasBlock body := dialect.stmt_block hstmt List.mem_cons_self
    refine (hsound.agrees_evalCondition hinvoke (dialect.stmt_operand hstmt List.mem_cons_self)
      (fun _ hkind ↦ hsound.stmt_raises hstmt (.ifThen hkind))
      (hsound.site_of_home hhome)).bind_agrees ?_
    intro later hlater holds
    cases holds with
    | false => exact .pure rfl
    | true =>
      refine hsound.agrees_inFrame (fun _ _ _ _ hinner ↦ ?_) (hsound.home_mono hlater hhome)
      exact hsound.rewrites (agrees_execBlockWith hsound hinvoke hfuels body hbody hinner)
  | .ifElse condition body fallback line, _, _, _, hstmt, hhome => by
    unfold Stmt.mapBlocks execStmtWith execStmt
    have hbody : dialect.HasBlock body := dialect.stmt_block hstmt List.mem_cons_self
    have hfallback : dialect.HasBlock fallback :=
      dialect.stmt_block hstmt (List.mem_cons_of_mem _ List.mem_cons_self)
    refine (hsound.agrees_evalCondition hinvoke (dialect.stmt_operand hstmt List.mem_cons_self)
      (fun _ hkind ↦ hsound.stmt_raises hstmt (.ifElse hkind))
      (hsound.site_of_home hhome)).bind_agrees ?_
    intro later hlater holds
    refine hsound.agrees_inFrame (fun _ _ _ _ hinner ↦ ?_) (hsound.home_mono hlater hhome)
    cases holds with
    | false =>
      exact hsound.rewrites (agrees_execBlockWith hsound hinvoke hfuels fallback hfallback hinner)
    | true => exact hsound.rewrites (agrees_execBlockWith hsound hinvoke hfuels body hbody hinner)
  | .whileLoop condition body line, _, env, env', hstmt, hhome => by
    unfold Stmt.mapBlocks execStmtWith execStmt
    refine hsound.agrees_inFrame (fun later inner inner' hlater hinner ↦ ?_) hhome
    have htest : ∀ last, later ≤ last →
        σ.Agrees last (evalCondition invoke env .whileLoop condition line)
          (evalCondition invoke' env' .whileLoop condition line) := fun last hlast ↦
      hsound.agrees_evalCondition hinvoke (dialect.stmt_operand hstmt List.mem_cons_self)
        (fun _ hkind ↦ hsound.stmt_raises hstmt (.whileLoop hkind))
        (hsound.site_of_home (hsound.home_mono (Nat.le_trans hlater hlast) hhome))
    have hbody : ∀ last, later ≤ last →
        σ.Agrees last (execBlock fuel invoke inner body)
          (execBlockWith put fuel' invoke' inner' (rule (Stmt.mapBlocksOfAll rule body))) :=
      fun last hlast ↦ hsound.rewrites (agrees_execBlockWith hsound hinvoke hfuels body
        (dialect.stmt_block hstmt List.mem_cons_self) (hsound.home_mono hlast hinner))
    exact Matches.whileLoop (hsound.loop hstmt rfl) htest hbody hfuels later
      (Nat.le_refl later)
  | .forLoop counter start stop step body _, _, env, env', hstmt, hhome => by
    unfold Stmt.mapBlocks execStmtWith execStmt
    refine (hsound.agrees_evalProgression hinvoke hstmt
      (hsound.site_of_home hhome)).bind_agrees ?_
    intro next hnext progression
    have hhome := hsound.home_mono hnext hhome
    refine hsound.agrees_inFrame (fun later inner inner' hlater hinner ↦ ?_) hhome
    have hset : ∀ last, later ≤ last → ∀ current,
        σ.Agrees last (EvalM.assign env counter (.number (.float current)))
          (EvalM.assign env' counter (.number (.float current))) := fun last hlast current ↦
      hsound.assign counter _ (hsound.home_mono (Nat.le_trans hlater hlast) hhome)
    have hbody : ∀ last, later ≤ last →
        σ.Agrees last (execBlock fuel invoke inner body)
          (execBlockWith put fuel' invoke' inner' (rule (Stmt.mapBlocksOfAll rule body))) :=
      fun last hlast ↦ hsound.rewrites (agrees_execBlockWith hsound hinvoke hfuels body
        (dialect.stmt_block hstmt List.mem_cons_self) (hsound.home_mono hlast hinner))
    exact Matches.forLoop progression (hsound.loop hstmt rfl) hset hbody hfuels later
      (Nat.le_refl later) progression.start
  | .assign name value _, _, _, _, hstmt, hhome => by
    unfold Stmt.mapBlocks execStmtWith execStmt
    have hvalue : dialect.expr value := dialect.stmt_operand hstmt List.mem_cons_self
    refine (hsound.agrees_evalExpr hinvoke value hvalue
      (hsound.site_of_home hhome)).bind_agrees ?_
    intro later hlater result
    exact (hsound.assign name result (hsound.home_mono hlater hhome)).bind_agrees
      fun _ _ _ ↦ .pure rfl
  | .declare name none _, _, _, _, hstmt, hhome => by
    unfold Stmt.mapBlocks execStmtWith execStmt
    exact (hsound.declareUnset hstmt hhome).bind_agrees fun _ _ _ ↦ .pure rfl
  | .declare name (some value) _, _, _, _, hstmt, hhome => by
    unfold Stmt.mapBlocks execStmtWith execStmt
    have hvalue : dialect.expr value := dialect.stmt_operand hstmt List.mem_cons_self
    refine (hsound.agrees_evalExpr hinvoke value hvalue
      (hsound.site_of_home hhome)).bind_agrees ?_
    intro later hlater result
    exact (hsound.declare name result (hsound.home_mono hlater hhome)).bind_agrees
      fun _ _ _ ↦ .pure rfl
  | .function name parameters body line, _, _, _, hstmt, hhome => by
    unfold Stmt.mapBlocks execStmtWith execStmt
    let function : Function := ⟨name, parameters, body, line⟩
    have hdeclaration : dialect.stmt function.declaration := hstmt
    exact (hsound.declareFunction hdeclaration hhome).bind_agrees fun _ _ _ ↦ .pure rfl
  | .call name arguments line, _, _, _, hstmt, hhome => by
    unfold Stmt.mapBlocks execStmtWith execStmt
    exact (hsound.agrees_evalCall hinvoke (.inr (.inl hstmt))
      (fun argument hargument ↦ dialect.stmt_operand hstmt hargument)
      (hsound.site_of_home hhome)).bind_agrees fun _ _ _ ↦ .pure rfl
  | .ret value line, _, _, _, hstmt, hhome => by
    unfold Stmt.mapBlocks execStmtWith execStmt
    exact (hsound.agrees_evalResult hinvoke hstmt
      (hsound.site_of_home hhome)).bind_agrees fun _ _ _ ↦ .pure rfl

/-- Statements in turn. What the rule makes of them matches as well. -/
theorem agrees_execBlockWith (hsound : σ.IsSoundFor dialect callable rule put)
    (hinvoke : σ.InvokesFor dialect callable invoke invoke') (hfuels : σ.Fuels fuel fuel') :
    ∀ (body : List Stmt) {stage : Nat} {env env' : FrameId}, dialect.HasBlock body →
      σ.home stage env env' →
      σ.Agrees stage (execBlock fuel invoke env body)
        (execBlockWith put fuel' invoke' env' (Stmt.mapBlocksOfAll rule body))
  | [], _, _, _, _, _ => by
    unfold Stmt.mapBlocksOfAll execBlockWith execBlock
    exact .pure rfl
  | stmt :: rest, _, _, _, hbody, hhome => by
    unfold Stmt.mapBlocksOfAll execBlockWith execBlock
    have hstmt := hbody stmt List.mem_cons_self
    have hrest : dialect.HasBlock rest := fun other hother ↦
      hbody other (List.mem_cons_of_mem _ hother)
    refine Matches.andThen (agrees_execStmtWith hsound hinvoke hfuels stmt hstmt hhome) ?_
    intro later hlater
    exact agrees_execBlockWith hsound hinvoke hfuels rest hrest (hsound.home_mono hlater hhome)

end

theorem agrees_execBlock (hsound : σ.IsSoundFor dialect callable rule EvalM.write)
    (hinvoke : σ.InvokesFor dialect callable invoke invoke') (hfuels : σ.Fuels fuel fuel')
    {body : List Stmt} (hbody : dialect.HasBlock body) (hhome : σ.home stage env env') :
    σ.Agrees stage (execBlock fuel invoke env body)
      (execBlock fuel' invoke' env' (Stmt.mapBlocksOfAll rule body)) := by
  have hagrees := hsound.agrees_execBlockWith hinvoke hfuels body hbody hhome
  rwa [execBlockWith_write] at hagrees

/-! ### Calls -/

theorem agrees_bindParameters (hsound : σ.IsSoundFor dialect callable rule put)
    (bindings : List (String × Value)) (hhome : σ.home stage env env') :
    σ.Agrees stage (bindParameters env bindings : EvalM S Unit)
      (bindParameters env' bindings : EvalM T Unit) := by
  induction bindings generalizing stage with
  | nil => exact .pure rfl
  | cons binding rest ih =>
    exact (hsound.declare binding.1 binding.2 hhome).bind_agrees
      fun later hlater _ ↦ ih (hsound.home_mono hlater hhome)

/-- A function and the function rewritten, their bodies run in ways that match. -/
theorem agrees_runFunction (hsound : σ.IsSoundFor dialect callable rule put)
    {run : FrameId → List Stmt → EvalM S Flow} {run' : FrameId → List Stmt → EvalM T Flow}
    {closure closure' : Closure} (values : List Value)
    (hfunction : closure'.function = closure.function.mapBlocks rule)
    (hframe : σ.site stage closure.frame closure'.frame)
    (hrun : ∀ later inner inner', σ.home later inner inner' →
      σ.Agrees later (run inner closure.function.body) (run' inner' closure'.function.body)) :
    σ.Agrees stage (runFunction run closure values) (runFunction run' closure' values) := by
  unfold runFunction
  have hparameters : closure'.function.parameters = closure.function.parameters := by
    rw [hfunction]
    rfl
  rw [hparameters]
  refine (hsound.openFrame hframe).bind ?_
  intro next _ inner inner' hinner
  refine (hsound.agrees_bindParameters _ hinner).bind_agrees ?_
  intro later hlater _
  refine (hrun later inner inner' (hsound.home_mono hlater hinner)).bind_agrees ?_
  intro _ _ flow
  cases flow with
  | normal => exact .pure rfl
  | returned value => exact .pure rfl

/-! ### Nodes -/

/-- A statement needs a home, an expression no more than a site. -/
theorem agrees_evaluateWith (hsound : σ.IsSoundFor dialect callable rule put)
    (hinvoke : σ.InvokesFor dialect callable invoke invoke') (hfuels : σ.Fuels fuel fuel')
    {node : Node} (hnode : dialect.HasNode node) (hsite : σ.site stage env env')
    (hhome : ∀ root, node = .stmt root → σ.home stage env env') :
    σ.Agrees stage (evaluate fuel invoke env node)
      (evaluateWith put fuel' invoke' env' (node.mapBlocks rule)) := by
  cases node with
  | stmt root =>
    exact (hsound.agrees_execStmtWith hinvoke hfuels root hnode (hhome root rfl)).bind_agrees
      fun _ _ flow ↦ .pure rfl
  | expr root =>
    exact (hsound.agrees_evalExpr hinvoke root hnode hsite).bind_agrees
      fun _ _ value ↦ .pure rfl

theorem agrees_evaluate (hsound : σ.IsSoundFor dialect callable rule EvalM.write)
    (hinvoke : σ.InvokesFor dialect callable invoke invoke') (hfuels : σ.Fuels fuel fuel')
    {node : Node} (hnode : dialect.HasNode node) (hsite : σ.site stage env env')
    (hhome : ∀ root, node = .stmt root → σ.home stage env env') :
    σ.Agrees stage (evaluate fuel invoke env node)
      (evaluate fuel' invoke' env' (node.mapBlocks rule)) := by
  have hagrees := hsound.agrees_evaluateWith hinvoke hfuels hnode hsite hhome
  rwa [evaluateWith_write] at hagrees

end IsSoundFor

end Simulation

end Treewalk
