import Treewalk.Proofs.Error.Provenance
import Treewalk.Proofs.Syntax.Calls

/-!
# Programs without recursion

If no function of a program calls itself, not even through others, and the limit on open calls is
not below the number of functions, then no call is ever refused (`run_never_overflows`). As many
calls are open as `Node.IsCallStack` lists, and each that is made is one that the innermost function
of the list has in its body. The calls in the arguments of a call are closed before it is opened, so
they do not add to it.
-/

set_option autoImplicit false
set_option relaxedAutoImplicit false

namespace Treewalk

/-- Not a refused call. -/
def Stop.NoOverflow (stop : Stop) : Prop :=
  ∀ bound line, stop ≠ .error ⟨.stackOverflow bound, line⟩

theorem noOverflow_of_isOfValues {fault : Fault} {line : Line} (h : fault.isOfValues) :
    Stop.NoOverflow (.error ⟨fault, line⟩) := by
  rintro bound line' hoverflow
  cases hoverflow
  cases h

namespace Node

variable (program : Node)

/-- What may be called while these calls are open, the innermost first: by a function what it calls,
and by the program itself anything. -/
def MayCall (active : List String) (name : String) : Prop :=
  ∀ caller ∈ active.head?, program.Calls caller name

/-- What may be evaluated while these calls are open. -/
def activeDialect (active : List String) : Dialect where
  expr root := ∀ name ∈ root.callees, program.MayCall active name
  stmt root := program.fragment.HasStmt root ∧ ∀ name ∈ root.callees, program.MayCall active name
  expr_operand hroot hoperand name hname :=
    hroot name (Expr.mem_callees_of_operand hoperand hname)
  stmt_operand hroot hoperand name hname :=
    hroot.2 name (Stmt.mem_callees_of_operand hoperand hname)
  stmt_block hroot hbody inner hinner :=
    ⟨hroot.1.block (Stmt.mem_blocks_of_mem_runs hbody) inner hinner,
      fun name hname ↦ hroot.2 name (Stmt.mem_callees_of_runs hbody hinner hname)⟩

variable {program} {active : List String} {name : String}

theorem mayCall_of_hasCall {arguments : List Expr} {line : Line}
    (h : (program.activeDialect active).HasCall name arguments line) :
    program.MayCall active name := by
  rcases h with hexpr | hstmt | ⟨_, hstmt⟩
  · exact hexpr name List.mem_cons_self
  · exact hstmt.2 name List.mem_cons_self
  · exact hstmt.2 name (List.mem_append_left _ List.mem_cons_self)

/-- The body of a function, run in the innermost call. -/
theorem hasBlock_body {function : Function} (h : program.Declares name function) :
    (program.activeDialect (name :: active)).HasBlock function.body := by
  obtain ⟨rfl, hdeclaration⟩ := h
  intro stmt hstmt
  refine ⟨hdeclaration.block List.mem_cons_self stmt hstmt, fun callee hcallee caller hcaller ↦ ?_⟩
  obtain rfl : function.name = caller := Option.mem_some_iff.mp hcaller
  exact ⟨function, hdeclaration.self, rfl, Stmt.mem_calleesOfAll.mpr ⟨stmt, hstmt, hcallee⟩⟩

end Node

namespace Simulation

variable {program : Node} {active : List String} {limit : Nat}

/-- A run alone, with these calls open and among functions that the program declares. -/
abbrev stacked (program : Node) (active : List String) : Simulation Store Store :=
  among (fun _ ↦ True) program.Declares (fun _ t ↦ t.depth = active.length) Stop.NoOverflow

/-- What a call of a name runs: a function that the program declares by it. -/
def declaredBy (program : Node) : Callables :=
  fun name _ closure closure' ↦ closure' = closure ∧ program.Declares name closure.function

theorem stacked_isSoundFor (program : Node) (active : List String) :
    (stacked program active).IsSoundFor (program.activeDialect active) (declaredBy program) id
      EvalM.write where
  rewrites hbody := hbody
  site_mono _ hsite := hsite
  home_mono _ hhome := hhome
  site_of_home hhome := hhome
  callable_mono _ hcallable := hcallable
  read _ _ := among_read nofun nofun
  resolve _ hsite :=
    (among_resolve hsite nofun fun _ _ _ ↦ nofun).mono
      fun _ _ _ hfound ↦ ⟨hfound.1, hfound.2.2⟩
  openFrame hsite := among_openFrame (fun _ hdepth ↦ hdepth) hsite
  assign name value _ := among_assign (fun _ hdepth ↦ hdepth) name value
  declare name value _ := among_declare (fun _ hdepth ↦ hdepth) name (.set value)
  declareUnset _ _ := among_declare (fun _ hdepth ↦ hdepth) _ .unset
  declareFunction hdeclaration _ := by
    rw [Function.mapBlocks_id]
    exact among_declareFunction (fun _ hdepth ↦ hdepth) ⟨rfl, hdeclaration.1⟩
  write text _ := among_write (fun _ hdepth ↦ hdepth) fun _ ↦ nofun
  expr_raises _ hraises := noOverflow_of_isOfValues hraises.isOfValues
  stmt_raises _ hraises := noOverflow_of_isOfValues hraises.isOfValues
  loop _ _ := nofun

/-- A call finds room under the limit and leaves the calls that are open as they were. -/
theorem stacked_invokesFor (hstack : program.IsCallStack active)
    (hlimit : ∀ deeper, program.IsCallStack deeper → deeper.length ≤ limit)
    {run : FrameId → List Stmt → EvalM Store Flow}
    (hrun : ∀ stage env env' name function, program.IsCallStack (name :: active) →
      program.Declares name function →
      (stacked program (name :: active)).Agrees stage (run env function.body)
        (run env' function.body)) :
    (stacked program active).InvokesFor (program.activeDialect active) (declaredBy program)
      (invoke (EvalM.deeper limit) run) (invoke (EvalM.deeper limit) run) := by
  rintro stage _ closure name arguments values line hcall ⟨rfl, hdeclared⟩
  have hdeeper : program.IsCallStack (name :: active) := by
    have hname := Node.mem_functionNames hdeclared.2.self
    rw [hdeclared.1] at hname
    exact hstack.push hname (Node.mayCall_of_hasCall hcall)
  -- The depth is the length of the stack, so what fits with this call on it has room for it.
  have hroom : active.length < limit := hlimit _ hdeeper
  have hbody : (stacked program (name :: active)).Agrees stage (runFunction run closure values)
      (runFunction run closure values) :=
    (stacked_isSoundFor program (name :: active)).agrees_runFunction values
      closure.function.mapBlocks_id.symm trivial
      fun later inner inner' _ ↦ hrun later inner inner' name closure.function hdeeper hdeclared
  refine solo_agrees ((keeps_of_solo stage hbody).deeper (fun s t hkeeps _ ↦ ?_)
    (fun s t after _ hafter ↦ ?_) fun s t hkeeps hfull ↦ ?_)
  · exact ⟨congrArg (· + 1) hkeeps.1, hkeeps.2⟩
  · exact ⟨congrArg (· - 1) hafter.1, hafter.2⟩
  · exact absurd (hkeeps.1 ▸ hroom) hfull

/-- The body of the innermost function, by induction on the fuel with whatever calls are open. -/
theorem stacked_runBody (hlimit : ∀ deeper, program.IsCallStack deeper → deeper.length ≤ limit)
    (fuel : Nat) (active : List String) (stage : Nat) (env env' : FrameId) (name : String)
    (function : Function) (hstack : program.IsCallStack (name :: active))
    (hdeclared : program.Declares name function) :
    (stacked program (name :: active)).Agrees stage
      (runBody (EvalM.deeper limit) fuel env function.body)
      (runBody (EvalM.deeper limit) fuel env' function.body) := by
  induction fuel generalizing active stage env env' name function with
  | zero => exact .outOfFuel nofun
  | succ fuel ih =>
    have hinvoke := stacked_invokesFor hstack hlimit (ih (name :: active))
    have hblock : (stacked program (name :: active)).Agrees stage
        (execBlock fuel (calls limit fuel) env function.body)
        (execBlock fuel (calls limit fuel) env' (Stmt.mapBlocksOfAll id function.body)) :=
      (stacked_isSoundFor program (name :: active)).agrees_execBlock hinvoke (.refl fuel)
        (Node.hasBlock_body hdeclared) trivial
    rwa [Stmt.mapBlocksOfAll_id] at hblock

end Simulation

open Simulation

/-- A program in which no function calls itself, directly or through others, is never refused a call
under a limit that is at least the number of its functions. Only the nesting of calls in bodies
counts: loops may make any number of calls, and so may the arguments of calls. -/
theorem run_never_overflows {program : Node} {limit : Nat}
    (hacyclic : ∀ name, ¬ Relation.TransGen program.Calls name name)
    (hnames : program.functionNames.toFinset.card ≤ limit) (sink : Sink) (fuel : Nat) :
    ∀ bound line, (Evaluator.run fuel { limit, sink } program).outcome ≠
      .error (.error ⟨.stackOverflow bound, line⟩) := by
  have hlimit : ∀ active, program.IsCallStack active → active.length ≤ limit :=
    fun active hstack ↦ Nat.le_trans (hstack.length_le hacyclic) hnames
  have hinvoke : (stacked program []).InvokesFor (program.activeDialect []) (declaredBy program)
      (calls limit fuel) (calls limit fuel) :=
    stacked_invokesFor Node.isCallStack_nil hlimit (stacked_runBody hlimit fuel [])
  have hprogram : (program.activeDialect []).HasNode program := by
    have hnode := program.hasNode_fragment
    cases program with
    | stmt root => exact ⟨hnode.hasStmt, fun _ _ _ ↦ nofun⟩
    | expr root => exact fun _ _ _ ↦ nofun
  have hagrees : (stacked program []).Agrees 0 (evaluate fuel (calls limit fuel) 0 program)
      (evaluate fuel (calls limit fuel) 0 (program.mapBlocks id)) :=
    (stacked_isSoundFor program []).agrees_evaluate hinvoke (.refl fuel) hprogram trivial
      fun _ _ ↦ trivial
  rw [program.mapBlocks_id] at hagrees
  intro bound line hoverflow
  rw [Evaluator.run_eq] at hoverflow
  rcases Evaluator.stop_of_concluded hoverflow with hstop | ⟨_, _, hflush⟩
  · let start := Evaluator.initial 0 sink
    exact (keeps_of_solo 0 hagrees).stop start start _
      ⟨rfl, declares_initial program.Declares 0 sink⟩ hstop bound line rfl
  · cases hflush

/-- A function that returns its argument, and one that applies it twice. -/
def appliedTwice : Node :=
  .stmt (.block [.function "same" ["x"] [.ret (some (.identifier "x" 1)) 1] 1,
    .function "twice" ["x"] [.ret (some (.call "same" [.call "same" [.identifier "x" 2] 2] 2)) 2] 2,
    .print (.call "twice" [.call "twice" [.bool true 3] 3] 3) .newline 3] 1)

theorem calls_appliedTwice {caller callee : String} (h : appliedTwice.Calls caller callee) :
    caller = "twice" ∧ callee = "same" := by
  obtain ⟨⟨name, parameters, body, line⟩, hdeclaration, rfl, hcallee⟩ := h
  simp only [appliedTwice, Node.stmts, Stmt.parts, Stmt.partsOfAll, Function.declaration,
    List.append_nil, List.cons_append, List.nil_append, List.mem_cons, List.not_mem_nil, or_false,
    reduceCtorEq, false_or, Stmt.function.injEq] at hdeclaration
  rcases hdeclaration with ⟨rfl, rfl, rfl, rfl⟩ | ⟨rfl, rfl, rfl, rfl⟩
  · simp [Stmt.calleesOfAll, Stmt.callees, Expr.calleesOfAll, Expr.callees] at hcallee
  · refine ⟨rfl, ?_⟩
    simpa [Stmt.calleesOfAll, Stmt.callees, Expr.calleesOfAll, Expr.callees] using hcallee

/-- It makes six calls, with no more than two open at once, and a limit of two is enough. -/
theorem run_never_overflows_appliedTwice :
    (∀ name, ¬ Relation.TransGen appliedTwice.Calls name name) ∧
      appliedTwice.functionNames.toFinset.card ≤ 2 ∧
      ∀ fuel bound line, (Evaluator.run fuel { limit := 2 } appliedTwice).outcome ≠
        .error (.error ⟨.stackOverflow bound, line⟩) := by
  have hcalls : ∀ caller callee, Relation.TransGen appliedTwice.Calls caller callee →
      caller = "twice" ∧ callee = "same" := by
    intro caller callee hreached
    induction hreached with
    | single hcall => exact calls_appliedTwice hcall
    | tail _ hcall ih => exact ⟨ih.1, (calls_appliedTwice hcall).2⟩
  have hacyclic : ∀ name, ¬ Relation.TransGen appliedTwice.Calls name name := by
    intro name hreached
    obtain ⟨rfl, hsame⟩ := hcalls name name hreached
    exact absurd hsame (by decide)
  have hnames : appliedTwice.functionNames.toFinset.card ≤ 2 := by decide
  exact ⟨hacyclic, hnames, run_never_overflows hacyclic hnames {}⟩

end Treewalk
