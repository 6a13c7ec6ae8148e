import Treewalk.Evaluator
import Treewalk.Proofs.Operation.Kinds
import Treewalk.Proofs.Simulation.Declared

/-!
# Where errors come from

Every error that ends a run is accounted for by a node of the program (`error_provenance`): by one
of its kind, with the names that the error mentions, at the line that the error names. What the
error says besides is true of the node, so that the arguments it counts are those of the call, and
the parameters those of a declaration of the function that the program has. Only an error of the
last flush is charged to the program as a whole.
-/

set_option autoImplicit false
set_option relaxedAutoImplicit false

namespace Treewalk

/-! ### Nodes that account for errors -/

namespace Stmt

/-- The construct that a statement with a condition is. -/
def construct? : Stmt → Option Construct
  | ifThen _ _ _ | ifElse _ _ _ _ => some .ifStatement
  | whileLoop _ _ _ => some .whileLoop
  | _ => none

/-- The expressions for the three numbers of a `for` loop. -/
def bound? : Stmt → Bound → Option Expr
  | forLoop _ start _ _ _ _, .start => some start
  | forLoop _ _ stop _ _ _, .stop => some stop
  | forLoop _ _ _ step _ _, .step => step
  | _, _ => none

end Stmt

namespace Node

/-- What stands in a program. -/
def fragment (program : Node) : Fragment :=
  ⟨(· ∈ program.exprs), (· ∈ program.stmts)⟩

theorem hasNode_fragment (program : Node) : program.fragment.HasNode program :=
  ⟨fun _ hexpr ↦ hexpr, fun _ hstmt ↦ hstmt⟩

/-- A function that the program declares, under the name that it declares it by. -/
def Declares (program : Node) (name : String) (function : Function) : Prop :=
  function.name = name ∧ program.fragment.HasStmt function.declaration

/-- What a program has at a line to account for a fault of a run under this limit and with this
sink. A call without a value is one whose value is asked for, and neither a statement nor what a
return forwards. -/
def Justifies (program : Node) (limit : Nat) (sink : Sink) (line : Line) : Fault → Prop
  | .undeclaredIdentifier name | .uninitializedIdentifier name =>
    .identifier name line ∈ program.exprs
  | .undeclaredFunction name => ∃ arguments, program.fragment.HasCall name arguments line
  | .arityMismatch name expected got =>
    expected ≠ got ∧
      (∃ arguments, program.fragment.HasCall name arguments line ∧ arguments.length = got) ∧
      ∃ function : Function, function.declaration ∈ program.stmts ∧ function.name = name ∧
        function.parameters.length = expected
  | .unsupportedUnary operator operand =>
    operator.supports operand = false ∧ ∃ right, .unary operator right line ∈ program.exprs
  | .unsupportedBinary operator left right =>
    operator.supports left right = false ∧
      ∃ first second, .binary first operator second line ∈ program.exprs
  | .divisionByZero => ∃ first second, .binary first .divide second line ∈ program.exprs
  | .nonBooleanCondition construct got =>
    got ≠ .boolean ∧
      ∃ stmt ∈ program.stmts, stmt.construct? = some construct ∧ stmt.line = line
  | .nonNumericBound bound got =>
    got ≠ .number ∧ ∃ stmt ∈ program.stmts, ∃ expr, stmt.bound? bound = some expr ∧
      expr.line = line
  | .missingReturnValue name => ∃ arguments, .call name arguments line ∈ program.exprs
  | .stackOverflow bound =>
    bound = limit ∧ ∃ name arguments, program.fragment.HasCall name arguments line
  | .output content =>
    (content = sink.refusal.message ∧
      ∃ value ending, .print value ending line ∈ program.stmts) ∨
    sink.flushFailure = some content ∧ line = program.line

end Node

variable {program : Node} {limit : Nat} {sink : Sink}

theorem Expr.Raises.justifies {expr : Expr} {error : RuntimeError} (h : expr.Raises error)
    (hexpr : expr ∈ program.exprs) : program.Justifies limit sink error.line error.fault := by
  cases h with
  | unary hfault =>
    obtain ⟨hsupports, rfl⟩ := UnaryOp.apply_eq_error hfault
    exact ⟨hsupports, _, hexpr⟩
  | binary hfault =>
    rcases BinaryOp.apply_eq_error hfault with ⟨rfl, rfl⟩ | ⟨hsupports, rfl⟩
    · exact ⟨_, _, hexpr⟩
    · exact ⟨hsupports, _, _, hexpr⟩
  | missing => exact ⟨_, hexpr⟩

theorem Stmt.Raises.justifies {stmt : Stmt} {error : RuntimeError} (h : stmt.Raises error)
    (hstmt : stmt ∈ program.stmts) : program.Justifies limit sink error.line error.fault := by
  cases h with
  | ifThen hkind | ifElse hkind | whileLoop hkind => exact ⟨hkind, _, hstmt, rfl, rfl⟩
  | start hkind | stop hkind | step hkind => exact ⟨hkind, _, hstmt, _, rfl, rfl⟩

/-! ### Runs -/

/-- If this is an error, the program accounts for it. -/
def Stop.IsJustified (program : Node) (limit : Nat) (sink : Sink) (stop : Stop) : Prop :=
  ∀ error, stop = .error error → program.Justifies limit sink error.line error.fault

theorem isJustified_error {fault : Fault} {line : Line}
    (h : program.Justifies limit sink line fault) :
    Stop.IsJustified program limit sink (.error ⟨fault, line⟩) := by
  intro error herror
  cases herror
  exact h

/-- All functions that are called are declared in the program, under the names that they are called
by. -/
theorem justified_isSteady (program : Node) (limit : Nat) (sink : Sink) :
    IsSteady program.fragment limit program.Declares
      (fun _ t ↦ t.sink.refusal = sink.refusal ∧ t.sink.flushFailure = sink.flushFailure)
      (Stop.IsJustified program limit sink) where
  declared hdeclaration := ⟨rfl, hdeclaration⟩
  body hholds := hholds.2.block List.mem_cons_self
  scopes _ hsteady := hsteady
  write _ _ hsteady := hsteady
  opened hsteady := hsteady
  closed _ hafter := hafter
  undeclared hidentifier := isJustified_error hidentifier
  uninitialized hidentifier := isJustified_error hidentifier
  unresolved hcall := isJustified_error ⟨_, hcall⟩
  arity hcall hholds harity := by
    obtain ⟨rfl, hdeclaration⟩ := hholds
    exact isJustified_error ⟨harity, ⟨_, hcall, rfl⟩, _, hdeclaration.self, rfl, rfl⟩
  refused hcall := isJustified_error ⟨rfl, _, _, hcall⟩
  unwritten hprint hsteady := by
    rw [hsteady.1]
    exact isJustified_error (.inl ⟨rfl, _, _, hprint⟩)
  expr_raises hexpr hraises := isJustified_error (hraises.justifies hexpr)
  stmt_raises hstmt hraises := isJustified_error (hraises.justifies hstmt)
  loop _ _ := nofun

open Simulation

/-- The frame that a run starts in holds no function. -/
theorem declares_initial (holds : String → Function → Prop) (depth : Nat) (sink : Sink) :
    (Evaluator.initial depth sink).scopes.Declares (fun _ ↦ True) holds where
  enclosed := ⟨fun _ _ _ _ ↦ trivial, fun _ _ ↦ trivial⟩
  functions := (Store.allFunctions_empty _ holds).openFrame none

/-- A run keeps what its errors are justified by. -/
theorem justified_evaluate (program : Node) (limit fuel : Nat) (sink : Sink) :
    Keeps
      (fun _ t : State Store ↦
        (t.sink.refusal = sink.refusal ∧ t.sink.flushFailure = sink.flushFailure) ∧
        t.scopes.Declares (fun _ ↦ True) program.Declares)
      (Stop.IsJustified program limit sink) (evaluate fuel (calls limit fuel) 0 program) := by
  have hsteady := justified_isSteady program limit sink
  exact hsteady.evaluate (hsteady.isSoundIn.invokesIn_calls nofun (.refl fuel)) fuel trivial
    program.hasNode_fragment

/-- Every error that ends a run is accounted for by the program. -/
theorem error_provenance (fuel : Nat) (evaluator : Evaluator) (program : Node)
    {error : RuntimeError} (herror : (evaluator.run fuel program).outcome = .error (.error error)) :
    program.Justifies evaluator.limit evaluator.sink error.line error.fault := by
  let start := Evaluator.initial evaluator.depth evaluator.sink
  have hkeeps := justified_evaluate program evaluator.limit fuel evaluator.sink
  have hstart := declares_initial program.Declares evaluator.depth evaluator.sink
  rw [Evaluator.run_eq] at herror
  rcases Evaluator.stop_of_concluded herror with hstop | ⟨content, hflush, hstop⟩
  · exact hkeeps.stop start start _ ⟨⟨rfl, rfl⟩, hstart⟩ hstop error rfl
  · obtain ⟨⟨-, hsame⟩, -⟩ := hkeeps.state start start ⟨⟨rfl, rfl⟩, hstart⟩
    cases hstop
    exact .inr ⟨hsame.symm.trans hflush, rfl⟩

/-- A program in which the call of one function leads to a call of another that lacks an
argument. -/
def lacksArgument : Node :=
  .stmt (.block [.function "f" ["x"] [] 1, .function "g" [] [.call "f" [] 3] 2,
    .call "g" [] 4] 1)

/-- The error stands at the call inside the first function, and counts the parameters of the
second. -/
theorem error_provenance_lacksArgument :
    (Evaluator.run 2 {} lacksArgument).outcome =
        .error (.error ⟨.arityMismatch "f" 1 0, 3⟩) ∧
      lacksArgument.Justifies 100 {} 3 (.arityMismatch "f" 1 0) := by
  have herror : (Evaluator.run 2 {} lacksArgument).outcome =
      .error (.error ⟨.arityMismatch "f" 1 0, 3⟩) := by rfl
  exact ⟨herror, error_provenance 2 {} lacksArgument herror⟩

end Treewalk
