import Treewalk.Proofs.Simulation.Fragment

/-!
# Simulations of the evaluator

A simulation is sound if it holds of the few computations that touch the state, whatever the nodes
that they belong to. Then it is sound in the whole language with no block rewritten, and holds of
every evaluation: of an expression at a site, of a statement at a home, and of a whole node. The
second run may write in a way of its own (`Simulation.IsSoundWith`).
-/

set_option autoImplicit false
set_option relaxedAutoImplicit false

namespace Treewalk

/-! ### Faults of values -/

/-- Whether a fault lies in the values that were met, and not in the state. -/
def Fault.isOfValues : Fault → Bool
  | .unsupportedUnary _ _ | .unsupportedBinary _ _ _ | .divisionByZero | .nonBooleanCondition _ _
  | .nonNumericBound _ _ | .missingReturnValue _ => true
  | _ => false

theorem UnaryOp.isOfValues_of_apply {op : UnaryOp} {right : Value} {fault : Fault}
    (h : op.apply right = .error fault) : fault.isOfValues := by
  unfold UnaryOp.apply at h
  split at h
  · cases h
  · cases h
    rfl

theorem BinaryOp.isOfValues_of_apply {op : BinaryOp} {left right : Value} {fault : Fault}
    (h : op.apply left right = .error fault) : fault.isOfValues := by
  unfold BinaryOp.apply at h
  split at h
  · cases h
    rfl
  · split at h
    · cases h
    · cases h
      rfl

theorem Expr.Raises.isOfValues {expr : Expr} {error : RuntimeError} (h : expr.Raises error) :
    error.fault.isOfValues := by
  cases h with
  | unary hfault => exact UnaryOp.isOfValues_of_apply hfault
  | binary hfault => exact BinaryOp.isOfValues_of_apply hfault
  | missing => rfl

theorem Stmt.Raises.isOfValues {stmt : Stmt} {error : RuntimeError} (h : stmt.Raises error) :
    error.fault.isOfValues := by
  cases h <;> rfl

namespace Simulation

variable {S T α β : Type} [Scopes S] [Scopes T]

/-- Closures of one function whose frames are sites. -/
def Callable (σ : Simulation S T) (stage : Nat) (closure closure' : Closure) : Prop :=
  closure'.function = closure.function ∧ σ.site stage closure.frame closure'.frame

/-- The simulation holds of each computation that touches the state, the two runs entering their
calls in these ways and the second writing in this one. -/
structure IsSoundWith (σ : Simulation S T) (enter : Enter S) (enter' : Enter T) (put : Put T) :
    Prop where
  site_mono : ∀ {stage later env env'}, stage ≤ later → σ.site stage env env' →
    σ.site later env env'
  home_mono : ∀ {stage later env env'}, stage ≤ later → σ.home stage env env' →
    σ.home later env env'
  site_of_home : ∀ {stage env env'}, σ.home stage env env' → σ.site stage env env'
  read : ∀ {stage env env'} name line, σ.site stage env env' →
    σ.Agrees stage (EvalM.read env name line) (EvalM.read env' name line)
  resolve : ∀ {stage env env'} name count line, σ.site stage env env' →
    σ.Matches stage σ.Callable (EvalM.resolve env name count line)
      (EvalM.resolve env' name count line)
  openFrame : ∀ {stage env env'}, σ.site stage env env' →
    σ.Matches stage σ.home (EvalM.openFrame env) (EvalM.openFrame env')
  assign : ∀ {stage env env'} name value, σ.home stage env env' →
    σ.Agrees stage (EvalM.assign env name value) (EvalM.assign env' name value)
  declare : ∀ {stage env env'} name binding, σ.home stage env env' →
    σ.Agrees stage (EvalM.declare env name binding) (EvalM.declare env' name binding)
  declareFunction : ∀ {stage env env'} function, σ.home stage env env' →
    σ.Agrees stage (EvalM.declareFunction env function) (EvalM.declareFunction env' function)
  write : ∀ stage line text, σ.Agrees stage (EvalM.write line text) (put line text)
  entered : ∀ {stage} {first : EvalM S (Option Value)} {second : EvalM T (Option Value)} line,
    σ.Agrees stage first second → σ.Agrees stage (enter line first) (enter' line second)
  fault : ∀ fault line, fault.isOfValues → σ.ends (.error ⟨fault, line⟩)
  outOfFuel : σ.ends .outOfFuel

/-- Sound, with both runs writing to their sinks. -/
abbrev IsSound (σ : Simulation S T) (enter : Enter S) (enter' : Enter T) : Prop :=
  σ.IsSoundWith enter enter' EvalM.write

/-- Two ways to run calls that match. -/
def Invokes (σ : Simulation S T) (invoke : Invoke S) (invoke' : Invoke T) : Prop :=
  ∀ stage closure closure' values line, σ.Callable stage closure closure' →
    σ.Agrees stage (invoke closure values line) (invoke' closure' values line)

variable {σ : Simulation S T} {enter : Enter S} {enter' : Enter T} {fuel fuel' stage : Nat}
  {env env' : FrameId} {invoke : Invoke S} {invoke' : Invoke T}

omit [Scopes S] [Scopes T] in
theorem callableIn_everything {closure closure' : Closure} :
    σ.CallableIn .everything id stage closure closure' ↔ σ.Callable stage closure closure' := by
  refine ⟨fun h ↦ ⟨?_, h.frame⟩, fun h ↦ ⟨?_, fun stmt _ ↦ Fragment.hasStmt_everything stmt, h.2⟩⟩
  · exact h.function.trans closure.function.mapBlocks_id
  · exact h.1.trans closure.function.mapBlocks_id.symm

omit [Scopes S] [Scopes T] in
theorem invokesIn_everything :
    σ.InvokesIn .everything id invoke invoke' ↔ σ.Invokes invoke invoke' := by
  constructor
  · intro h stage closure closure' values line hcallable
    exact h stage closure closure' "" [] values line (.inl trivial)
      (callableIn_everything.mpr hcallable)
  · intro h stage closure closure' name arguments values line _ hcallable
    exact h stage closure closure' values line (callableIn_everything.mp hcallable)

namespace IsSound

theorem isSoundIn (hsound : σ.IsSound enter enter') :
    σ.IsSoundIn .everything id enter enter' where
  rewrites hbody := hbody
  site_mono := hsound.site_mono
  home_mono := hsound.home_mono
  site_of_home := hsound.site_of_home
  read _ hsite := hsound.read _ _ hsite
  resolve _ hsite :=
    (hsound.resolve _ _ _ hsite).mono fun _ _ _ hcallable ↦ callableIn_everything.mpr hcallable
  openFrame := hsound.openFrame
  assign := hsound.assign
  declare name value hhome := hsound.declare name (.set value) hhome
  declareUnset _ hhome := hsound.declare _ .unset hhome
  declareFunction _ hhome := by
    rw [Function.mapBlocks_id]
    exact hsound.declareFunction _ hhome
  write text _ := hsound.write _ _ text
  entered _ hbody := hsound.entered _ hbody
  expr_raises _ hraises := hsound.fault _ _ hraises.isOfValues
  stmt_raises _ hraises := hsound.fault _ _ hraises.isOfValues
  loop _ _ := hsound.outOfFuel

theorem agrees_evalArguments (hsound : σ.IsSound enter enter')
    (hinvoke : σ.Invokes invoke invoke') (arguments : List Expr) (hsite : σ.site stage env env') :
    σ.Agrees stage (evalArguments invoke env arguments) (evalArguments invoke' env' arguments) :=
  hsound.isSoundIn.agrees_evalArguments (invokesIn_everything.mpr hinvoke) arguments
    (fun _ _ _ _ ↦ trivial) hsite

theorem invokes_calls (hsound : σ.IsSound enter enter') (hfuels : σ.Fuels fuel fuel') :
    σ.Invokes (callsBy enter fuel) (callsBy enter' fuel') :=
  invokesIn_everything.mp (hsound.isSoundIn.invokesIn_calls hsound.outOfFuel hfuels)

/-- A statement needs a home, an expression no more than a site. -/
theorem agrees_evaluate (hsound : σ.IsSound enter enter') (hinvoke : σ.Invokes invoke invoke')
    (hfuels : σ.Fuels fuel fuel') (node : Node) (hsite : σ.site stage env env')
    (hhome : ∀ root, node = .stmt root → σ.home stage env env') :
    σ.Agrees stage (evaluate fuel invoke env node) (evaluate fuel' invoke' env' node) := by
  have hagrees := hsound.isSoundIn.agrees_evaluate (invokesIn_everything.mpr hinvoke) hfuels
    (Fragment.hasNode_everything node) hsite hhome
  rwa [node.mapBlocks_id] at hagrees

end IsSound

/-! ### Runs that write in a way of their own -/

namespace IsSoundWith

variable {put : Put T}

theorem isSoundFor (hsound : σ.IsSoundWith enter enter' put) :
    σ.IsSoundFor Fragment.everything.dialect (fun _ ↦ σ.Callable) id put where
  rewrites hbody := hbody
  site_mono := hsound.site_mono
  home_mono := hsound.home_mono
  site_of_home := hsound.site_of_home
  callable_mono hlater hcallable := ⟨hcallable.1, hsound.site_mono hlater hcallable.2⟩
  read _ hsite := hsound.read _ _ hsite
  resolve _ hsite := hsound.resolve _ _ _ hsite
  openFrame := hsound.openFrame
  assign := hsound.assign
  declare name value hhome := hsound.declare name (.set value) hhome
  declareUnset _ hhome := hsound.declare _ .unset hhome
  declareFunction _ hhome := by
    rw [Function.mapBlocks_id]
    exact hsound.declareFunction _ hhome
  write text _ := hsound.write _ _ text
  expr_raises _ hraises := hsound.fault _ _ hraises.isOfValues
  stmt_raises _ hraises := hsound.fault _ _ hraises.isOfValues
  loop _ _ := hsound.outOfFuel

theorem invokesFor_invoke (hsound : σ.IsSoundWith enter enter' put)
    {run : FrameId → List Stmt → EvalM S Flow} {run' : FrameId → List Stmt → EvalM T Flow}
    (hrun : ∀ stage env env' body, σ.home stage env env' →
      σ.Agrees stage (run env body) (run' env' body)) :
    σ.InvokesFor Fragment.everything.dialect (fun _ ↦ σ.Callable) (Treewalk.invoke enter run)
      (Treewalk.invoke enter' run') := by
  rintro stage closure closure' _ _ values line - ⟨hfunction, hframe⟩
  have hrewritten := hfunction.trans closure.function.mapBlocks_id.symm
  refine hsound.entered line (hsound.isSoundFor.agrees_runFunction values hrewritten hframe ?_)
  intro later inner inner' hinner
  rw [hfunction]
  exact hrun later inner inner' closure.function.body hinner

theorem agrees_runBody (hsound : σ.IsSoundWith enter enter' put) (fuel : Nat) :
    ∀ stage env env' body, σ.home stage env env' →
      σ.Agrees stage (runBody enter fuel env body) (runBodyWith put enter' fuel env' body) := by
  induction fuel with
  | zero => exact fun _ _ _ _ _ ↦ .outOfFuel hsound.outOfFuel
  | succ fuel ih =>
    intro stage env env' body hhome
    have hagrees := hsound.isSoundFor.agrees_execBlockWith (hsound.invokesFor_invoke ih)
      (.refl fuel) body (fun stmt _ ↦ Fragment.hasStmt_everything stmt) hhome
    rwa [Stmt.mapBlocksOfAll_id] at hagrees

/-- A statement needs a home, an expression no more than a site. -/
theorem agrees_evaluateWith (hsound : σ.IsSoundWith enter enter' put) (fuel : Nat) (node : Node)
    (hsite : σ.site stage env env') (hhome : ∀ root, node = .stmt root → σ.home stage env env') :
    σ.Agrees stage (evaluate fuel (callsBy enter fuel) env node)
      (evaluateWith put fuel (callsWith put enter' fuel) env' node) := by
  have hagrees := hsound.isSoundFor.agrees_evaluateWith
    (hsound.invokesFor_invoke (hsound.agrees_runBody fuel)) (.refl fuel)
    (Fragment.hasNode_everything node).dialect hsite hhome
  rwa [node.mapBlocks_id] at hagrees

end IsSoundWith

end Simulation

end Treewalk
