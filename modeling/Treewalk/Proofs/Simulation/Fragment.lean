import Treewalk.Proofs.Simulation.Dialect

/-!
# Simulations over the programs of a fragment

The nodes of a fragment are a dialect that also has the bodies of the functions that it declares. A
simulation that is sound in a fragment (`Simulation.IsSoundIn`), and whose two runs enter their
calls in ways that keep it, holds of every evaluation of a program of the fragment, calls included
(`Simulation.IsSoundIn.agrees_evaluate`). The functions in the scopes of the second run have their
blocks rewritten, too.
-/

set_option autoImplicit false
set_option relaxedAutoImplicit false

namespace Treewalk

/-! ### Fragments as dialects -/

namespace Fragment

variable {fragment : Fragment}

/-- The expressions and statements of which all parts are in the fragment. -/
def dialect (fragment : Fragment) : Dialect where
  expr := fragment.HasExpr
  stmt := fragment.HasStmt
  expr_operand := HasExpr.operand
  stmt_operand := HasStmt.operand
  stmt_block hstmt hbody := hstmt.block (Stmt.mem_blocks_of_mem_runs hbody)

theorem hasCall_of_dialect {name : String} {arguments : List Expr} {line : Line}
    (h : fragment.dialect.HasCall name arguments line) : fragment.HasCall name arguments line := by
  rcases h with hexpr | hstmt | ⟨line', hstmt⟩
  · exact .inl (HasExpr.self hexpr)
  · exact .inr (.inl (HasStmt.self hstmt))
  · exact .inr (.inr ⟨line', HasStmt.self hstmt⟩)

theorem HasNode.dialect {node : Node} (h : fragment.HasNode node) :
    fragment.dialect.HasNode node := by
  cases node with
  | stmt root => exact h.hasStmt
  | expr root => exact h.hasExpr

end Fragment

/-! ### Soundness in a fragment -/

namespace Simulation

variable {S T : Type}

/-- Closures of a function of the fragment and of that function rewritten, whose frames are
sites. -/
structure CallableIn (σ : Simulation S T) (fragment : Fragment) (rule : List Stmt → List Stmt)
    (stage : Nat) (closure closure' : Closure) : Prop where
  function : closure'.function = closure.function.mapBlocks rule
  body : fragment.HasBlock closure.function.body
  frame : σ.site stage closure.frame closure'.frame

/-- Two ways to run the calls of a fragment that match. -/
def InvokesIn (σ : Simulation S T) (fragment : Fragment) (rule : List Stmt → List Stmt)
    (invoke : Invoke S) (invoke' : Invoke T) : Prop :=
  ∀ stage closure closure' name arguments values line, fragment.HasCall name arguments line →
    σ.CallableIn fragment rule stage closure closure' →
      σ.Agrees stage (invoke closure values line) (invoke' closure' values line)

variable [Scopes S] [Scopes T]

/-- The simulation holds of each computation that touches the state at a node of the fragment, the
second run having its blocks rewritten and the two runs entering their calls in these ways. -/
structure IsSoundIn (σ : Simulation S T) (fragment : Fragment) (rule : List Stmt → List Stmt)
    (enter : Enter S) (enter' : Enter T) : Prop where
  rewrites : ∀ {stage fuel env body} {invoke : Invoke T} {first : EvalM S Flow},
    σ.Agrees stage first (execBlock fuel invoke env body) →
      σ.Agrees stage first (execBlock fuel invoke env (rule body))
  site_mono : ∀ {stage later env env'}, stage ≤ later → σ.site stage env env' →
    σ.site later env env'
  home_mono : ∀ {stage later env env'}, stage ≤ later → σ.home stage env env' →
    σ.home later env env'
  site_of_home : ∀ {stage env env'}, σ.home stage env env' → σ.site stage env env'
  read : ∀ {stage env env' name line}, fragment.expr (.identifier name line) →
    σ.site stage env env' →
      σ.Agrees stage (EvalM.read env name line) (EvalM.read env' name line)
  resolve : ∀ {stage env env' name arguments line}, fragment.HasCall name arguments line →
    σ.site stage env env' →
      σ.Matches stage (σ.CallableIn fragment rule) (EvalM.resolve env name arguments.length line)
        (EvalM.resolve env' name arguments.length line)
  openFrame : ∀ {stage env env'}, σ.site stage env env' →
    σ.Matches stage σ.home (EvalM.openFrame env) (EvalM.openFrame env')
  assign : ∀ {stage env env'} name value, σ.home stage env env' →
    σ.Agrees stage (EvalM.assign env name value) (EvalM.assign env' name value)
  declare : ∀ {stage env env'} name value, σ.home stage env env' →
    σ.Agrees stage (EvalM.declare env name (.set value)) (EvalM.declare env' name (.set value))
  declareUnset : ∀ {stage env env' name line}, fragment.stmt (.declare name none line) →
    σ.home stage env env' →
      σ.Agrees stage (EvalM.declare env name .unset) (EvalM.declare env' name .unset)
  declareFunction : ∀ {stage env env' function}, fragment.HasStmt function.declaration →
    σ.home stage env env' →
      σ.Agrees stage (EvalM.declareFunction env function)
        (EvalM.declareFunction env' (function.mapBlocks rule))
  write : ∀ {stage value ending line} text, fragment.stmt (.print value ending line) →
    σ.Agrees stage (EvalM.write line text) (EvalM.write line text)
  entered : ∀ {stage name arguments line} {first : EvalM S (Option Value)}
    {second : EvalM T (Option Value)}, fragment.HasCall name arguments line →
      σ.Agrees stage first second → σ.Agrees stage (enter line first) (enter' line second)
  expr_raises : ∀ {expr error}, fragment.expr expr → expr.Raises error → σ.ends (.error error)
  stmt_raises : ∀ {stmt error}, fragment.stmt stmt → stmt.Raises error → σ.ends (.error error)
  loop : ∀ {stmt}, fragment.stmt stmt → stmt.isLoop → σ.ends .outOfFuel

variable {σ : Simulation S T} {fragment : Fragment} {rule : List Stmt → List Stmt}
  {enter : Enter S} {enter' : Enter T} {fuel fuel' stage : Nat} {env env' : FrameId}
  {invoke : Invoke S} {invoke' : Invoke T}

omit [Scopes S] [Scopes T] in
theorem InvokesIn.invokesFor (h : σ.InvokesIn fragment rule invoke invoke') :
    σ.InvokesFor fragment.dialect (fun _ ↦ σ.CallableIn fragment rule) invoke invoke' :=
  fun stage closure closure' name arguments values line hcall ↦
    h stage closure closure' name arguments values line (Fragment.hasCall_of_dialect hcall)

namespace IsSoundIn

theorem isSoundFor (hsound : σ.IsSoundIn fragment rule enter enter') :
    σ.IsSoundFor fragment.dialect (fun _ ↦ σ.CallableIn fragment rule) rule EvalM.write where
  rewrites hbody := by
    rw [execBlockWith_write] at hbody ⊢
    exact hsound.rewrites hbody
  site_mono := hsound.site_mono
  home_mono := hsound.home_mono
  site_of_home := hsound.site_of_home
  callable_mono hlater hcallable :=
    ⟨hcallable.function, hcallable.body, hsound.site_mono hlater hcallable.frame⟩
  read hexpr := hsound.read (Fragment.HasExpr.self hexpr)
  resolve hcall := hsound.resolve (Fragment.hasCall_of_dialect hcall)
  openFrame := hsound.openFrame
  assign := hsound.assign
  declare := hsound.declare
  declareUnset hstmt := hsound.declareUnset (Fragment.HasStmt.self hstmt)
  declareFunction := hsound.declareFunction
  write text hstmt := hsound.write text (Fragment.HasStmt.self hstmt)
  expr_raises hexpr := hsound.expr_raises (Fragment.HasExpr.self hexpr)
  stmt_raises hstmt := hsound.stmt_raises (Fragment.HasStmt.self hstmt)
  loop hstmt := hsound.loop (Fragment.HasStmt.self hstmt)

theorem agrees_evalArguments (hsound : σ.IsSoundIn fragment rule enter enter')
    (hinvoke : σ.InvokesIn fragment rule invoke invoke') (arguments : List Expr)
    (harguments : ∀ argument ∈ arguments, fragment.HasExpr argument)
    (hsite : σ.site stage env env') :
    σ.Agrees stage (evalArguments invoke env arguments) (evalArguments invoke' env' arguments) :=
  hsound.isSoundFor.agrees_evalArguments hinvoke.invokesFor arguments harguments hsite

theorem agrees_execBlock (hsound : σ.IsSoundIn fragment rule enter enter')
    (hinvoke : σ.InvokesIn fragment rule invoke invoke') (hfuels : σ.Fuels fuel fuel')
    (body : List Stmt) (hbody : fragment.HasBlock body) (hhome : σ.home stage env env') :
    σ.Agrees stage (execBlock fuel invoke env body)
      (execBlock fuel' invoke' env' (Stmt.mapBlocksOfAll rule body)) :=
  hsound.isSoundFor.agrees_execBlock hinvoke.invokesFor hfuels hbody hhome

/-! ### Calls -/

theorem agrees_runFunction (hsound : σ.IsSoundIn fragment rule enter enter')
    {run : FrameId → List Stmt → EvalM S Flow} {run' : FrameId → List Stmt → EvalM T Flow}
    (hrun : ∀ stage env env' body, fragment.HasBlock body → σ.home stage env env' →
      σ.Agrees stage (run env body) (run' env' (rule (Stmt.mapBlocksOfAll rule body))))
    {closure closure' : Closure} (values : List Value)
    (hcallable : σ.CallableIn fragment rule stage closure closure') :
    σ.Agrees stage (runFunction run closure values) (runFunction run' closure' values) := by
  refine hsound.isSoundFor.agrees_runFunction values hcallable.function hcallable.frame ?_
  intro later inner inner' hinner
  rw [hcallable.function]
  exact hrun later inner inner' closure.function.body hcallable.body hinner

theorem invokesIn_invoke (hsound : σ.IsSoundIn fragment rule enter enter')
    {run : FrameId → List Stmt → EvalM S Flow} {run' : FrameId → List Stmt → EvalM T Flow}
    (hrun : ∀ stage env env' body, fragment.HasBlock body → σ.home stage env env' →
      σ.Agrees stage (run env body) (run' env' (rule (Stmt.mapBlocksOfAll rule body)))) :
    σ.InvokesIn fragment rule (Treewalk.invoke enter run) (Treewalk.invoke enter' run') :=
  fun _ _ _ _ _ values _ hcall hcallable ↦
    hsound.entered hcall (hsound.agrees_runFunction hrun values hcallable)

theorem agrees_runBody (hsound : σ.IsSoundIn fragment rule enter enter')
    (hends : σ.ends .outOfFuel) (hfuels : σ.Fuels fuel fuel') :
    ∀ stage env env' body, fragment.HasBlock body → σ.home stage env env' →
      σ.Agrees stage (runBody enter fuel env body)
        (runBody enter' fuel' env' (rule (Stmt.mapBlocksOfAll rule body))) := by
  refine hfuels.induction ?zero ?succ ?exhausted
  case zero => exact fun _ _ _ _ _ _ ↦ .outOfFuel hends
  case succ =>
    intro fuel fuel' hfuels ih stage env env' body hbody hhome
    unfold runBody
    exact hsound.rewrites
      (hsound.agrees_execBlock (hsound.invokesIn_invoke ih) hfuels body hbody hhome)
  case exhausted =>
    intro fuel hinterruptible ih stage env env' body hbody hhome
    exact (ih stage env env' body hbody hhome).exhausted hinterruptible

theorem invokesIn_calls (hsound : σ.IsSoundIn fragment rule enter enter')
    (hends : σ.ends .outOfFuel) (hfuels : σ.Fuels fuel fuel') :
    σ.InvokesIn fragment rule (callsBy enter fuel) (callsBy enter' fuel') :=
  hsound.invokesIn_invoke (hsound.agrees_runBody hends hfuels)

/-! ### Nodes -/

/-- A statement needs a home, an expression no more than a site. -/
theorem agrees_evaluate (hsound : σ.IsSoundIn fragment rule enter enter')
    (hinvoke : σ.InvokesIn fragment rule invoke invoke') (hfuels : σ.Fuels fuel fuel')
    {node : Node} (hnode : fragment.HasNode node) (hsite : σ.site stage env env')
    (hhome : ∀ root, node = .stmt root → σ.home stage env env') :
    σ.Agrees stage (evaluate fuel invoke env node)
      (evaluate fuel' invoke' env' (node.mapBlocks rule)) :=
  hsound.isSoundFor.agrees_evaluate hinvoke.invokesFor hfuels hnode.dialect hsite hhome

end IsSoundIn

end Simulation

end Treewalk
