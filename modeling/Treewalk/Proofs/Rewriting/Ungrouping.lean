import Treewalk.Proofs.Error.Provenance
import Treewalk.Proofs.Rewriting.Blocks
import Treewalk.Proofs.Rewriting.Renaming
import Treewalk.Proofs.Syntax.Grouping

/-!
# Programs without parentheses

An expression has the value that it has without its groupings (`evalExpr_ungrouped`), and yet they
show in two ways. A number that a `for` loop asks for, if it is none, is charged to the line of the
parenthesis, and so is a failing flush to that of the program. And a return of a call in parentheses
asks for a value, where a return of the call itself does not.

`Stmt.ungroupBlock` is a rule that may be applied to any block: it erases groupings that stand in
the line of what is in them, and those of a return around a call only if the call has a mark. It is
neutral except where such a call has no value (`isNeutralUnless_ungroupBlock`). For any program,
what remains of its places is a program on which the rule erases everything, so that only lines are
left to compare. They are read off the run of the program with its places, which is the run of the
program in other respects (`run_placed`) and by the provenance of its error tells where they differ
(`places_of_run`). The result is `erased_groupings`.
-/

set_option autoImplicit false
set_option relaxedAutoImplicit false

namespace Treewalk

open EvalM

/-! ### Computations that are the same unless one is lost -/

namespace SameUnless

variable {S α β : Type} {lost : Stop → Prop} {state : State S}

theorem map {first second : EvalM S α} (change : α → β) (h : SameUnless lost first second state) :
    SameUnless lost (first >>= fun result ↦ pure (change result))
      (second >>= fun result ↦ pure (change result)) state := by
  rcases h with hsame | ⟨stop, result, after, hlost, hstops, hresult⟩
  · exact .inl (by rw [bind_apply, bind_apply, hsame])
  · refine .inr ⟨stop, change result, after, hlost, ?_, ?_⟩
    · rw [bind_apply, hstops]
    · rw [bind_apply, hresult]
      rfl

theorem andThen {first rest rest' : EvalM S Flow}
    (h : ∀ state, SameUnless lost rest rest' state) (state : State S) :
    SameUnless lost (EvalM.andThen first rest) (EvalM.andThen first rest') state := by
  unfold SameUnless EvalM.andThen
  rw [bind_apply, bind_apply]
  rcases first state with ⟨stop | flow, after⟩
  · exact .inl rfl
  · cases flow with
    | normal => exact h after
    | returned value => exact .inl rfl

end SameUnless

/-! ### Expressions -/

section Expressions

variable {S : Type} [Scopes S] {fuel : Nat} {invoke : Invoke S} {env : FrameId}

mutual

theorem evalExpr_ungrouped : ∀ expr : Expr,
    evalExpr invoke env expr.ungrouped = evalExpr invoke env expr
  | .grouping inner _ => by
    rw [Expr.ungrouped, evalExpr, evalExpr_ungrouped inner]
  | .unary _ right _ => by
    rw [Expr.ungrouped, evalExpr, evalExpr, evalExpr_ungrouped right]
  | .binary left _ right _ => by
    rw [Expr.ungrouped, evalExpr, evalExpr, evalExpr_ungrouped left, evalExpr_ungrouped right]
  | .logical left _ right _ => by
    rw [Expr.ungrouped, evalExpr, evalExpr, evalExpr_ungrouped left, evalExpr_ungrouped right]
  | .call _ arguments _ => by
    rw [Expr.ungrouped, evalExpr, evalExpr, evalArguments_ungroupedAll arguments,
      Expr.length_ungroupedAll]
  | .int _ _ | .float _ _ | .bool _ _ | .str _ _ | .identifier _ _ => rfl

theorem evalArguments_ungroupedAll : ∀ arguments : List Expr,
    evalArguments invoke env (Expr.ungroupedAll arguments) = evalArguments invoke env arguments
  | [] => rfl
  | argument :: rest => by
    rw [Expr.ungroupedAll, evalArguments, evalArguments, evalExpr_ungrouped argument,
      evalArguments_ungroupedAll rest]

end

theorem evalCall_ungroupedAll (name : String) (arguments : List Expr) (line : Line) :
    evalCall invoke env name (Expr.ungroupedAll arguments) line =
      evalCall invoke env name arguments line := by
  rw [evalCall, evalCall, evalArguments_ungroupedAll, Expr.length_ungroupedAll]

theorem evalResult_of_isCall_eq_false {expr : Expr} (h : expr.isCall = false) :
    evalResult invoke env (some expr) =
      evalExpr invoke env expr >>= fun value ↦ pure (some value) := by
  cases expr with
  | call name arguments line => cases h
  | _ => rfl

end Expressions

/-! ### A rule for blocks -/

/-- The expression without groupings, unless that moves it to another line. -/
def Expr.ungroupedInLine (expr : Expr) : Expr :=
  if expr.ungrouped.line = expr.line then expr.ungrouped else expr

/-- What is returned without groupings, unless it is a call without the mark of one that is
returned. -/
def Expr.ungroupedReturn (expr : Expr) : Expr :=
  if expr.unwrapped.isCall && !expr.unwrapped.line.bodd then expr else expr.ungrouped

/-- To erase the groupings that may be erased in any block. -/
def Recast.guarded : Recast where
  operand := Expr.ungroupedInLine
  returned := Expr.ungroupedReturn

/-- The statements without the groupings that may be erased. -/
def Stmt.ungroupBlock (body : List Stmt) : List Stmt :=
  body.map (recastSelf .guarded)

/-- A call with the mark had no value. -/
def Stop.IsMarked (stop : Stop) : Prop :=
  ∃ name line, stop = .error ⟨.missingReturnValue name, line⟩ ∧ line.bodd = true

section Rule

variable {S : Type} [Scopes S] {fuel : Nat} {invoke : Invoke S} {env : FrameId}

theorem Expr.line_ungroupedInLine (expr : Expr) : expr.ungroupedInLine.line = expr.line := by
  unfold ungroupedInLine
  split
  · assumption
  · rfl

theorem evalExpr_ungroupedInLine (expr : Expr) :
    evalExpr invoke env expr.ungroupedInLine = evalExpr invoke env expr := by
  unfold Expr.ungroupedInLine
  split
  · exact evalExpr_ungrouped expr
  · rfl

theorem evalArguments_ungroupedInLine (arguments : List Expr) :
    evalArguments invoke env (arguments.map Expr.ungroupedInLine) =
      evalArguments invoke env arguments := by
  induction arguments with
  | nil => rfl
  | cons argument rest ih =>
    rw [List.map_cons, evalArguments, evalArguments, evalExpr_ungroupedInLine, ih]

theorem evalCondition_ungroupedInLine (construct : Construct) (condition : Expr) (line : Line) :
    evalCondition invoke env construct condition.ungroupedInLine line =
      evalCondition invoke env construct condition line := by
  rw [evalCondition, evalCondition, evalExpr_ungroupedInLine]

theorem evalBound_ungroupedInLine (bound : Bound) (expr : Expr) :
    evalBound invoke env bound expr.ungroupedInLine = evalBound invoke env bound expr := by
  rw [evalBound, evalBound, evalExpr_ungroupedInLine, Expr.line_ungroupedInLine]

theorem evalProgression_ungroupedInLine (start stop : Expr) (step : Option Expr) :
    evalProgression invoke env start.ungroupedInLine stop.ungroupedInLine
        (step.map Expr.ungroupedInLine) =
      evalProgression invoke env start stop step := by
  cases step with
  | none =>
    rw [evalProgression, evalProgression, evalBound_ungroupedInLine, evalBound_ungroupedInLine]
    rfl
  | some expr =>
    rw [Option.map_some, evalProgression, evalProgression]
    simp only [evalBound_ungroupedInLine]

theorem evalCall_ungroupedInLine (name : String) (arguments : List Expr) (line : Line) :
    evalCall invoke env name (arguments.map Expr.ungroupedInLine) line =
      evalCall invoke env name arguments line := by
  rw [evalCall, evalCall, evalArguments_ungroupedInLine, List.length_map]

/-- A call in the groupings of a return fails where it has no value, and the return of the call
itself does not. -/
theorem evalResult_ungrouped {expr : Expr} (hcall : expr.unwrapped.isCall = true)
    (hmarked : expr.unwrapped.line.bodd = true) (state : State S) :
    SameUnless Stop.IsMarked (evalResult invoke env (some expr))
      (evalResult invoke env (some expr.ungrouped)) state := by
  cases hexpr : expr.unwrapped with
  | call name arguments line =>
    rw [hexpr] at hmarked
    have hungrouped : expr.ungrouped = .call name (Expr.ungroupedAll arguments) line := by
      rw [← expr.ungrouped_unwrapped, hexpr, Expr.ungrouped]
    have hdirect : evalResult invoke env (some expr.ungrouped) =
        evalCall invoke env name arguments line := by
      rw [hungrouped, evalResult, evalCall_ungroupedAll]
    rw [hdirect]
    by_cases hself : expr.isCall = true
    · have hsame : expr = .call name arguments line := by
        cases expr with
        | call _ _ _ => exact hexpr
        | _ => cases hself
      exact .inl (by rw [hsame, evalResult])
    · have hvalue : evalResult invoke env (some expr) =
          evalCall invoke env name arguments line >>= demand name line >>=
            fun value ↦ pure (some value) := by
        rw [evalResult_of_isCall_eq_false (Bool.eq_false_of_not_eq_true hself),
          ← evalExpr_ungrouped, hungrouped, evalExpr_call, evalCall_ungroupedAll]
      rw [hvalue]
      rcases hresult : evalCall invoke env name arguments line state with ⟨stop | _ | value, after⟩
      · exact .inl (by rw [bind_apply, bind_apply, hresult])
      · refine .inr ⟨_, none, after, ⟨name, line, rfl, hmarked⟩, ?_, hresult⟩
        rw [bind_apply, bind_apply, hresult]
        rfl
      · refine .inl ?_
        rw [bind_apply, bind_apply, hresult]
        rfl
  | _ =>
    rw [hexpr] at hcall
    cases hcall

/-- A return without its groupings does the same, except that it may return the want of a value. -/
theorem evalResult_ungroupedReturn (value : Option Expr) (state : State S) :
    SameUnless Stop.IsMarked (evalResult invoke env value)
      (evalResult invoke env (value.map Expr.ungroupedReturn)) state := by
  rcases value with _ | expr
  · exact .inl rfl
  rw [Option.map_some, Expr.ungroupedReturn]
  cases hcall : expr.unwrapped.isCall with
  | false =>
    have hself : expr.isCall = false := by
      cases expr with
      | call _ _ _ => cases hcall
      | _ => rfl
    have hungrouped : expr.ungrouped.isCall = false := expr.isCall_ungrouped.trans hcall
    exact .inl (by rw [Bool.false_and, if_neg Bool.false_ne_true,
      evalResult_of_isCall_eq_false hself, evalResult_of_isCall_eq_false hungrouped,
      evalExpr_ungrouped])
  | true =>
    cases hmarked : expr.unwrapped.line.bodd with
    | false => exact .inl rfl
    | true => exact evalResult_ungrouped hcall hmarked state

variable (fuel invoke env) in
theorem execStmt_recastSelf (stmt : Stmt) :
    execStmt fuel invoke env (stmt.recastSelf .guarded) = execStmt fuel invoke env stmt ∨
      ∃ value line, stmt = .ret value line := by
  cases stmt with
  | ret value line => exact .inr ⟨value, line, rfl⟩
  | declare name value line =>
    cases value with
    | none => exact .inl rfl
    | some value =>
      exact .inl (by simp only [Stmt.recastSelf, Recast.guarded, Option.map_some, execStmt,
        evalExpr_ungroupedInLine])
  | _ =>
    exact .inl (by simp only [Stmt.recastSelf, Recast.guarded, id, execStmt,
      evalExpr_ungroupedInLine, evalCondition_ungroupedInLine, evalProgression_ungroupedInLine,
      evalCall_ungroupedInLine])

theorem sameUnless_execStmt (stmt : Stmt) (state : State S) :
    SameUnless Stop.IsMarked (execStmt fuel invoke env stmt)
      (execStmt fuel invoke env (stmt.recastSelf .guarded)) state := by
  rcases execStmt_recastSelf fuel invoke env stmt with hsame | ⟨value, line, rfl⟩
  · exact .inl (congrFun hsame state)
  · rw [Stmt.recastSelf, execStmt, execStmt]
    exact (evalResult_ungroupedReturn value state).map Flow.returned

/-- What stands behind a return is not run. -/
theorem execStmt_ret_andThen (value : Option Expr) (line : Line) (rest : EvalM S Flow) :
    andThen (execStmt fuel invoke env (.ret value line)) rest =
      execStmt fuel invoke env (.ret value line) := by
  rw [execStmt, andThen, bind_assoc]
  rfl

theorem isNeutralUnless_ungroupBlock (S : Type) [Scopes S] :
    IsNeutralUnless Stop.IsMarked S Stmt.ungroupBlock := by
  intro fuel invoke env body
  induction body with
  | nil => exact fun _ ↦ .inl rfl
  | cons stmt rest ih =>
    intro state
    rw [Stmt.ungroupBlock, List.map_cons, execBlock, execBlock]
    rcases execStmt_recastSelf fuel invoke env stmt with hsame | ⟨value, line, rfl⟩
    · rw [hsame]
      exact SameUnless.andThen ih state
    · rw [Stmt.recastSelf, execStmt_ret_andThen, execStmt_ret_andThen]
      exact sameUnless_execStmt (.ret value line) state

end Rule

/-! ### Runs of a program with marks -/

section Runs

variable {fuel : Nat} {evaluator : Evaluator} {program : Node}

theorem sameUnless_evaluate {S : Type} [Scopes S] (fuel : Nat) (invoke : Invoke S) (env : FrameId)
    (node : Node) (state : State S) :
    SameUnless Stop.IsMarked (evaluate fuel invoke env (node.mapBlocks Stmt.ungroupBlock))
      (evaluate fuel invoke env (node.recast .guarded)) state := by
  cases node with
  | stmt root =>
    exact (sameUnless_execStmt (root.mapBlocks Stmt.ungroupBlock) state).map Result.flow
  | expr root =>
    refine .inl (congrFun ?_ state)
    exact congrArg (fun value ↦ value >>= fun result ↦ pure (Result.value result))
      (evalExpr_ungroupedInLine root)

theorem line_recast_guarded (node : Node) : (node.recast .guarded).line = node.line := by
  cases node with
  | stmt root => exact root.line_recast _
  | expr root => exact root.line_ungroupedInLine

/-- The rule may be applied to a whole program, as long as no call with the mark wants a value. -/
theorem run_recast_guarded
    (h : ∀ stop : Stop, stop.IsMarked → (evaluator.run fuel program).outcome ≠ .error stop) :
    (evaluator.run fuel (program.recast .guarded)).outcome = (evaluator.run fuel program).outcome ∧
      (evaluator.run fuel (program.recast .guarded)).evaluator =
        (evaluator.run fuel program).evaluator := by
  let start := Evaluator.initial evaluator.depth evaluator.sink
  have hstops : ∀ stop : Stop, stop.IsMarked →
      (evaluate fuel (calls evaluator.limit fuel) 0 program start).1 ≠ .error stop :=
    fun stop hmarked hstop ↦ h stop hmarked (by
      rw [Evaluator.run_eq]
      exact Evaluator.concluded_stop hstop)
  have hblocks := evaluate_mapBlocks_unless (isNeutralUnless_ungroupBlock Store) evaluator.limit
    fuel 0 program start
  have hroot := sameUnless_evaluate fuel (calls evaluator.limit fuel) 0 program start
  rw [initial_mapBlocks] at hblocks
  rw [Evaluator.run_eq, Evaluator.run_eq, line_recast_guarded]
  rcases hblocks with hblocks | ⟨stop, hmarked, hstop⟩
  · rcases hroot with hroot | ⟨stop, _, _, hmarked, hstop, -⟩
    · rw [hroot, hblocks]
      exact ⟨rfl, rfl⟩
    · rw [hblocks] at hstop
      exact absurd (congrArg Prod.fst hstop) (hstops stop hmarked)
  · exact absurd hstop (hstops stop hmarked)

end Runs

/-! ### Runs of a program with its places -/

/-- Where there is nothing on a node but what remains of its place, a grouping has the line of what
stands in it. -/
theorem Expr.ungroupedInLine_relabel (expr : Expr) :
    (expr.relabel Place.remains false).ungroupedInLine =
      (expr.relabel Place.remains false).ungrouped := by
  refine if_pos ?_
  rw [line_ungrouped, unwrapped_relabel, line_relabel, line_relabel, Place.remains, Place.remains,
    place, place, unwrapped_unwrapped]

theorem Expr.ungroupedReturn_relabel (expr : Expr) :
    (expr.relabel Place.remains true).ungroupedReturn =
      (expr.relabel Place.remains true).ungrouped := by
  refine if_neg ?_
  rw [unwrapped_relabel, line_relabel, Place.remains, place, Nat.bodd_bit, Bool.not_true,
    Bool.and_false]
  exact Bool.false_ne_true

theorem ungrouped_relabel_remains (program : Node) :
    (program.relabel Place.remains).ungrouped =
      (program.relabel Place.remains).recast .guarded := by
  have hcomp : Recast.ungrouping.comp (.relabelling Place.remains) =
      Recast.guarded.comp (.relabelling Place.remains) :=
    Recast.ext rfl (funext fun expr ↦ expr.ungroupedInLine_relabel.symm)
      (funext fun expr ↦ expr.ungroupedReturn_relabel.symm)
  rw [Node.ungrouped, Node.relabel, Node.recast_recast, Node.recast_recast, hcomp]

/-- The run fails because a call has no value that stands directly in the groupings of a return. (A
call that a return has without groupings is returned as well, but its value is not asked for.) -/
def Node.FailsInReturn (program : Node) (fuel : Nat) (evaluator : Evaluator) : Prop :=
  ∃ name code, (evaluator.run fuel program.placed).outcome =
      .error (.error ⟨.missingReturnValue name, code⟩) ∧
    (Place.decode code).returned = true

theorem Stop.rename_ofLines (move : Line → Line) (fault : Fault) (line : Line) :
    (Stop.error ⟨fault, line⟩).rename (.ofLines move) = .error ⟨fault, move line⟩ := by
  cases fault <;> rfl

section Places

variable (fuel : Nat) (evaluator : Evaluator) (program : Node)

/-- What is on the nodes of a program may be read off its places. -/
theorem run_relabel (code : Place → Line) (move : Line → Line)
    (hmove : ∀ place : Place, move place.encode = code place) :
    (evaluator.run fuel (program.relabel code)).outcome =
        (evaluator.run fuel program.placed).outcome.mapError (Stop.rename (.ofLines move)) ∧
      (evaluator.run fuel (program.relabel code)).evaluator.sink.output =
        (evaluator.run fuel program.placed).evaluator.sink.output := by
  have hrelabel : program.relabel code = program.placed.rename (.ofLines move) := by
    rw [Node.placed, Node.rename_relabel, ← funext hmove]
    rfl
  rw [hrelabel]
  exact run_rename_of_fuel (.ofLines move) evaluator program.placed fuel

/-- The line is part of the place. -/
theorem run_placed :
    (evaluator.run fuel program).outcome =
        (evaluator.run fuel program.placed).outcome.mapError
          (Stop.rename (.ofLines fun code ↦ (Place.decode code).line)) ∧
      (evaluator.run fuel program).evaluator.sink.output =
        (evaluator.run fuel program.placed).evaluator.sink.output := by
  have hplaced := run_relabel fuel evaluator program Place.line
    (fun code ↦ (Place.decode code).line) fun place ↦ by rw [Place.decode_encode]
  rwa [program.relabel_line] at hplaced

variable {fuel evaluator program}

theorem run_ungrouped (h : ¬ program.FailsInReturn fuel evaluator) :
    (evaluator.run fuel program.ungrouped).outcome =
        (evaluator.run fuel program.placed).outcome.mapError
          (Stop.rename (.ofLines fun code ↦ (Place.decode code).bare)) ∧
      (evaluator.run fuel program.ungrouped).evaluator.sink.output =
        (evaluator.run fuel program.placed).evaluator.sink.output := by
  obtain ⟨hremains, houtput⟩ := run_relabel fuel evaluator program Place.remains
    (fun code ↦ code.unpair.2) fun place ↦ by rw [Place.encode, Nat.unpair_pair]
  have hmarked : ∀ stop : Stop, stop.IsMarked →
      (evaluator.run fuel (program.relabel Place.remains)).outcome ≠ .error stop := by
    rintro _ ⟨name, line, rfl, hline⟩ hstop
    rw [hremains] at hstop
    rcases hplaced : (evaluator.run fuel program.placed).outcome with (⟨fault, code⟩ | _) | _
    · rw [hplaced, Except.mapError, Stop.rename_ofLines] at hstop
      cases hstop
      exact h ⟨name, code, hplaced, hline⟩
    · rw [hplaced] at hstop
      cases hstop
    · rw [hplaced] at hstop
      cases hstop
  obtain ⟨hsame, hevaluator⟩ := run_recast_guarded hmarked
  rw [← ungrouped_relabel_remains] at hsame hevaluator
  obtain ⟨hungrouped, houtput'⟩ := run_rename_of_fuel (.ofLines Nat.div2) evaluator
    (program.relabel Place.remains).ungrouped fuel
  rw [Node.rename_ungrouped_relabel Place.remains fun line returned ↦ Nat.div2_bit returned line]
    at hungrouped houtput'
  refine ⟨?_, houtput'.trans ((congrArg (·.sink.output) hevaluator).trans houtput)⟩
  rw [hungrouped, hsame, hremains]
  rcases (evaluator.run fuel program.placed).outcome with (⟨fault, code⟩ | _) | _
  · simp only [Except.mapError, Stop.rename_ofLines]
    rfl
  · rfl
  · rfl

end Places

/-! ### Lines of errors -/

/-- An error of a node without its groupings has the line of the node, unless the evaluation charges
it to the line of an expression as such. -/
def Node.Places (program : Node) (place : Place) : Fault → Prop
  | .nonNumericBound bound _ => ∃ stmt ∈ program.stmts, ∃ expr, stmt.bound? bound = some expr ∧
    place.line = expr.line ∧ place.bare = expr.ungrouped.line
  | .output _ => place.bare = place.line ∨
    ∃ root, program = .expr root ∧ place.line = root.line ∧ place.bare = root.ungrouped.line
  | _ => place.bare = place.line

variable {program : Node}

theorem bound?_recast (recasting : Recast) (stmt : Stmt) (bound : Bound) :
    (stmt.recast recasting).bound? bound = (stmt.bound? bound).map recasting.operand := by
  cases stmt <;> cases bound <;> rfl

theorem bare_of_isGrouping_eq_false {expr : Expr} {returned : Bool}
    (h : (expr.relabel Place.encode returned).isGrouping = false) :
    (Place.decode (expr.relabel Place.encode returned).line).bare =
      (Place.decode (expr.relabel Place.encode returned).line).line := by
  rw [Expr.line_relabel, Place.decode_encode]
  cases expr with
  | grouping _ _ => cases h
  | _ => rfl

theorem bare_of_mem_exprs {expr : Expr} (h : expr ∈ program.placed.exprs)
    (hexpr : expr.isGrouping = false) :
    (Place.decode expr.line).bare = (Place.decode expr.line).line := by
  obtain ⟨original, returned, rfl, -⟩ := Node.mem_exprs_relabel h
  exact bare_of_isGrouping_eq_false hexpr

theorem bare_of_mem_stmts {stmt : Stmt} (h : stmt ∈ program.placed.stmts) :
    (Place.decode stmt.line).bare = (Place.decode stmt.line).line := by
  obtain ⟨original, -, rfl⟩ := Node.mem_stmts_relabel h
  rw [Stmt.line_recast, Recast.relabelling, Place.decode_encode]

theorem bare_of_hasCall {name : String} {arguments : List Expr} {line : Line}
    (h : program.placed.fragment.HasCall name arguments line) :
    (Place.decode line).bare = (Place.decode line).line := by
  rcases h with hexpr | hstmt | ⟨line', hret⟩
  · exact bare_of_mem_exprs hexpr rfl
  · exact bare_of_mem_stmts hstmt
  · have hmem : .ret (some (.call name arguments line)) line' ∈ program.placed.stmts := hret
    obtain ⟨stmt, -, hstmt⟩ := Node.mem_stmts_relabel hmem
    cases stmt with
    | ret value line'' =>
      rcases value with _ | expr
      · cases hstmt
      · have hcall : expr.relabel Place.encode true = .call name arguments line :=
          Option.some.inj (Stmt.ret.inj hstmt).1
        have hline : line = (expr.relabel Place.encode true).line := by rw [hcall, Expr.line]
        rw [hline]
        refine bare_of_isGrouping_eq_false ?_
        rw [hcall]
        rfl
    | _ => cases hstmt

/-- The place of the node that accounts for an error. -/
theorem places_of_run {fuel : Nat} {evaluator : Evaluator} {error : RuntimeError}
    (h : (evaluator.run fuel program.placed).outcome = .error (.error error)) :
    program.Places (Place.decode error.line) error.fault := by
  have hjustifies := error_provenance fuel evaluator program.placed h
  obtain ⟨fault, line⟩ := error
  cases fault with
  | undeclaredIdentifier name | uninitializedIdentifier name =>
    exact bare_of_mem_exprs hjustifies rfl
  | undeclaredFunction name =>
    obtain ⟨_, hcall⟩ := hjustifies
    exact bare_of_hasCall hcall
  | arityMismatch name expected got =>
    obtain ⟨-, ⟨_, hcall, -⟩, -⟩ := hjustifies
    exact bare_of_hasCall hcall
  | unsupportedUnary operator operand =>
    obtain ⟨-, _, hexpr⟩ := hjustifies
    exact bare_of_mem_exprs hexpr rfl
  | unsupportedBinary operator left right =>
    obtain ⟨-, _, _, hexpr⟩ := hjustifies
    exact bare_of_mem_exprs hexpr rfl
  | divisionByZero =>
    obtain ⟨_, _, hexpr⟩ := hjustifies
    exact bare_of_mem_exprs hexpr rfl
  | nonBooleanCondition construct got =>
    obtain ⟨-, _, hstmt, -, rfl⟩ := hjustifies
    exact bare_of_mem_stmts hstmt
  | nonNumericBound bound got =>
    obtain ⟨-, _, hmapped, _, hbound, rfl⟩ := hjustifies
    obtain ⟨stmt, hstmt, rfl⟩ := Node.mem_stmts_relabel hmapped
    rw [bound?_recast] at hbound
    obtain ⟨expr, hexpr, rfl⟩ := Option.map_eq_some_iff.mp hbound
    refine ⟨stmt, hstmt, expr, hexpr, ?_⟩
    rw [Recast.relabelling, Expr.line_relabel, Place.decode_encode, Expr.line_ungrouped]
    exact ⟨rfl, rfl⟩
  | missingReturnValue name =>
    obtain ⟨_, hexpr⟩ := hjustifies
    exact bare_of_mem_exprs hexpr rfl
  | stackOverflow limit =>
    obtain ⟨-, _, _, hcall⟩ := hjustifies
    exact bare_of_hasCall hcall
  | output content =>
    rcases hjustifies with ⟨-, _, _, hstmt⟩ | ⟨-, rfl⟩
    · exact .inl (bare_of_mem_stmts hstmt)
    · cases program with
      | stmt root =>
        have hroot : root.recast (.relabelling Place.encode) ∈ (Node.stmt root).placed.stmts := by
          rw [Node.placed, Node.relabel, Node.recast, Node.stmts, Stmt.parts_eq]
          exact List.mem_cons_self
        exact .inl (bare_of_mem_stmts hroot)
      | expr root =>
        refine .inr ⟨root, rfl, ?_⟩
        rw [Node.placed, Node.relabel, Node.recast, Node.line, Recast.relabelling,
          Expr.line_relabel, Place.decode_encode, Expr.line_ungrouped]
        exact ⟨rfl, rfl⟩

/-! ### The result -/

/-- The ends of three runs, that of a program with its places, that of the program and that of the
program without its groupings: they are the same but for the line of an error. -/
inductive Node.Ungroups (program : Node) :
    Except Stop Unit → Except Stop Unit → Except Stop Unit → Prop
  | finished : Ungroups program (.ok ()) (.ok ()) (.ok ())
  | outOfFuel : Ungroups program (.error .outOfFuel) (.error .outOfFuel) (.error .outOfFuel)
  | failed {fault : Fault} {place : Place} (h : program.Places place fault) :
    Ungroups program (.error (.error ⟨fault, place.encode⟩)) (.error (.error ⟨fault, place.line⟩))
      (.error (.error ⟨fault, place.bare⟩))

/-- The program comes to the same without its groupings. -/
structure Node.SameUngrouped (program : Node) (fuel : Nat) (evaluator : Evaluator) : Prop where
  outcome : program.Ungroups (evaluator.run fuel program.placed).outcome
    (evaluator.run fuel program).outcome (evaluator.run fuel program.ungrouped).outcome
  output : (evaluator.run fuel program.ungrouped).evaluator.sink.output =
    (evaluator.run fuel program).evaluator.sink.output

theorem not_failsInReturn {program : Node}
    (h : ∀ stmt ∈ program.stmts, stmt.returnsGroupedCall = false) (fuel : Nat)
    (evaluator : Evaluator) : ¬ program.FailsInReturn fuel evaluator := by
  rintro ⟨name, code, hfails, hreturned⟩
  obtain ⟨arguments, hcall⟩ := error_provenance fuel evaluator program.placed hfails
  obtain ⟨expr, returned, hrelabel, hreturns⟩ := Node.mem_exprs_relabel hcall
  have hcode : code = (expr.place returned).encode := by
    rw [← Expr.line_relabel Place.encode, ← hrelabel]
    rfl
  have hexpr : expr.isCall := by
    rw [← Expr.isCall_relabel Place.encode returned, ← hrelabel]
    rfl
  rw [hcode, Place.decode_encode] at hreturned
  obtain ⟨stmt, hstmt, hgrouped⟩ := hreturns hreturned hexpr
  rw [h stmt hstmt] at hgrouped
  cases hgrouped

theorem sameUngrouped {program : Node} {fuel : Nat} {evaluator : Evaluator}
    (h : ¬ program.FailsInReturn fuel evaluator) : program.SameUngrouped fuel evaluator := by
  obtain ⟨houtcome, houtput⟩ := run_placed fuel evaluator program
  obtain ⟨hungrouped, houtput'⟩ := run_ungrouped h
  refine ⟨?_, houtput'.trans houtput.symm⟩
  rw [houtcome, hungrouped]
  rcases hplaced : (evaluator.run fuel program.placed).outcome with (⟨fault, code⟩ | _) | _
  · have hfailed := Node.Ungroups.failed (places_of_run hplaced)
    rw [Place.encode_decode] at hfailed
    simp only [Except.mapError, Stop.rename_ofLines]
    exact hfailed
  · exact .outOfFuel
  · exact .finished

/-- Parentheses do not change what a program means. If no return is of a call in parentheses, then
all groupings may be erased, in the bodies of functions too: the runs come to the same and write the
same, with the same fuel, up to the line of an error that is charged to an expression as such. If
there are such returns, the same is true of every run that does not fail for want of a value of a
call there. Where a run fails is told by the run of the program with its places, which is the same
run with more in the stead of a line. -/
theorem erased_groupings (program : Node) :
    ((∀ stmt ∈ program.stmts, stmt.returnsGroupedCall = false) →
      ∀ fuel evaluator, program.SameUngrouped fuel evaluator) ∧
    (∀ fuel evaluator, ¬ program.FailsInReturn fuel evaluator →
      program.SameUngrouped fuel evaluator) ∧
    ∀ (fuel : Nat) (evaluator : Evaluator),
      (evaluator.run fuel program).outcome =
        (evaluator.run fuel program.placed).outcome.mapError
          (Stop.rename (.ofLines fun code ↦ (Place.decode code).line)) :=
  ⟨fun h fuel evaluator ↦ sameUngrouped (not_failsInReturn h fuel evaluator),
    fun _ _ h ↦ sameUngrouped h, fun fuel evaluator ↦ (run_placed fuel evaluator program).1⟩

/-- A loop whose last number is a boolean in parentheses that begin a line above it. -/
def groupedBound : Stmt :=
  .forLoop "i" (.grouping (.int 1 3) 3) (.grouping (.bool true 5) 4) none [] 3

/-- The same loop in a function that is called in parentheses by a return. -/
def groupedReturn : Node :=
  .stmt (.block [.function "f" [] [groupedBound] 2,
    .function "g" [] [.ret (some (.grouping (.call "f" [] 6) 6)) 6] 6, .call "g" [] 7] 1)

/-- The error is at the parenthesis, and without it at the boolean. -/
theorem erased_groupings_groupedReturn :
    (∀ stmt ∈ (Node.stmt groupedBound).stmts, stmt.returnsGroupedCall = false) ∧
      (Node.stmt groupedBound).SameUngrouped 1 {} ∧
      ¬ groupedReturn.FailsInReturn 3 {} ∧ groupedReturn.SameUngrouped 3 {} ∧
      (Evaluator.run 3 {} groupedReturn).outcome =
        .error (.error ⟨.nonNumericBound .stop .boolean, 4⟩) ∧
      (Evaluator.run 3 {} groupedReturn.ungrouped).outcome =
        .error (.error ⟨.nonNumericBound .stop .boolean, 5⟩) := by
  have hplain : ∀ stmt ∈ (Node.stmt groupedBound).stmts, stmt.returnsGroupedCall = false :=
    List.forall_mem_singleton.mpr rfl
  have hfails : ¬ groupedReturn.FailsInReturn 3 {} := by
    rintro ⟨name, code, hstop, -⟩
    cases hstop
  refine ⟨hplain, (erased_groupings _).1 hplain 1 {}, hfails,
    (erased_groupings groupedReturn).2.1 3 {} hfails, by rfl, by rfl⟩

/-- A call without a value in the groupings of a return: erasing them makes a program of one that
fails that does not. -/
example :
    let program : Node := .stmt (.block [.function "f" [] [] 1,
      .function "g" [] [.ret (some (.grouping (.call "f" [] 2) 2)) 2] 2, .call "g" [] 3] 1)
    (Evaluator.run 3 {} program).outcome = .error (.error ⟨.missingReturnValue "f", 2⟩) ∧
      (Evaluator.run 3 {} program.ungrouped).outcome = .ok () := by
  exact ⟨by rfl, by rfl⟩

end Treewalk
