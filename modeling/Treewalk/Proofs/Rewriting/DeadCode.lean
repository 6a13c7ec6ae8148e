import Treewalk.Proofs.Eval.Counting
import Treewalk.Proofs.Rewriting.Blocks

/-!
# Dead code

A statement is never normal if its shape shows that the statement after it is not reached: a return,
a loop without end, a counting loop that goes through its first round, and what leads to one of
these in any case. Whatever else such a statement comes to, it does not complete
(`neverNormal_execStmt`), and so all blocks of a program may be cut after their first statement of
this kind (`cut_after_never_normal`).
-/

set_option autoImplicit false
set_option relaxedAutoImplicit false

namespace Treewalk

/-! ### Statements that never complete -/

namespace Expr

/-- The number that a numeric literal denotes. -/
def literal? : Expr → Option Number
  | int value _ => some (Number.ofInt64 value)
  | float value _ => some value
  | _ => none

/-- Whether an expression is a numeric literal other than NaN. -/
def isProperNumber (expr : Expr) : Bool :=
  expr.literal?.any fun value ↦ !value.toFloat.isNaN

theorem isProperNumber_int (value : Int64) (line : Line) : (int value line).isProperNumber := by
  rw [isProperNumber, literal?, Option.any_some, Number.isNaN_ofInt64, Bool.not_false]

theorem literal?_of_isProperNumber {expr : Expr} (h : expr.isProperNumber) :
    ∃ value, expr.literal? = some value ∧ value.toFloat.isNaN = false := by
  obtain ⟨value, hvalue, hproper⟩ := (Option.any_eq_true _ _).mp h
  exact ⟨value, hvalue, by simpa using hproper⟩

end Expr

namespace Stmt

mutual

/-- Whether the shape of a statement shows that it does not complete. -/
def isNeverNormal : Stmt → Bool
  | ret _ _ => true
  | block body _ => anyNeverNormal body
  | ifElse _ body fallback _ => anyNeverNormal body && anyNeverNormal fallback
  | whileLoop (.bool true _) _ _ => true
  | forLoop _ start stop step body _ =>
    start.isProperNumber && stop.isProperNumber && step.all (·.literal?.isSome) &&
      anyNeverNormal body
  | _ => false

def anyNeverNormal : List Stmt → Bool
  | [] => false
  | stmt :: rest => stmt.isNeverNormal || anyNeverNormal rest

end

/-- A block up to its first statement that never completes. -/
def cutBlock : List Stmt → List Stmt
  | [] => []
  | stmt :: rest => if stmt.isNeverNormal then [stmt] else stmt :: cutBlock rest

end Stmt

/-! ### Computations that never complete -/

variable {S α : Type}

/-- A computation that comes to no normal flow. -/
def NeverNormal (computation : EvalM S Flow) : Prop :=
  ∀ state, (computation state).1 ≠ .ok .normal

namespace NeverNormal

variable {first second body : EvalM S Flow}

theorem bind {first : EvalM S α} {next : α → EvalM S Flow} (h : ∀ a, NeverNormal (next a)) :
    NeverNormal (first >>= next) := by
  intro state
  rw [EvalM.bind_apply]
  rcases first state with ⟨stop | a, after⟩
  · nofun
  · exact h a after

/-- Nothing that stands after such a computation is reached. -/
theorem andThen_eq (h : NeverNormal first) (second : EvalM S Flow) :
    EvalM.andThen first second = first := by
  funext state
  rw [EvalM.andThen, EvalM.bind_apply]
  rcases hfirst : first state with ⟨stop | flow, after⟩
  · rfl
  · cases flow with
    | normal => exact absurd (congrArg Prod.fst hfirst) (h state)
    | returned value => rfl

theorem andThen_first (h : NeverNormal first) (second : EvalM S Flow) :
    NeverNormal (EvalM.andThen first second) := by
  rwa [h.andThen_eq second]

theorem andThen_second (h : NeverNormal second) (first : EvalM S Flow) :
    NeverNormal (EvalM.andThen first second) := by
  refine .bind fun flow ↦ ?_
  cases flow with
  | normal => exact h
  | returned value => nofun

/-- A loop whose test never fails ends with a return or not at all. -/
theorem whileLoop (body : EvalM S Flow) (fuel : Nat) :
    NeverNormal (EvalM.whileLoop (pure true) body fuel) := by
  induction fuel with
  | zero => nofun
  | succ fuel ih => exact ih.andThen_second body

/-- A counting loop that goes on with its first number does not get beyond a body that never
completes. -/
theorem forLoop (h : NeverNormal body) {progression : Progression} {first : Float}
    (hfirst : progression.includes first) (setCounter : Float → EvalM S Unit) (fuel : Nat) :
    NeverNormal (EvalM.forLoop progression setCounter body fuel first) := by
  cases fuel with
  | zero => nofun
  | succ fuel =>
    unfold EvalM.forLoop
    rw [if_pos hfirst]
    exact .bind fun _ ↦ h.andThen_first _

end NeverNormal

/-! ### Evaluation -/

variable [Scopes S] {invoke : Invoke S} {env : FrameId}

theorem evalBound_literal {expr : Expr} {value : Number} (h : expr.literal? = some value)
    (bound : Bound) : evalBound invoke env bound expr = pure value.toFloat := by
  unfold evalBound
  cases expr with
  | int _ _ | float _ _ =>
    cases h
    rw [evalExpr, pure_bind]
  | _ => cases h

/-- The numbers of a counting loop between literals are known, and the first of them is one that
the loop goes on with. -/
theorem evalProgression_literal (invoke : Invoke S) (env : FrameId) {start stop : Expr}
    {step : Option Expr}
    (hstart : start.isProperNumber) (hstop : stop.isProperNumber)
    (hstep : step.all (·.literal?.isSome)) :
    ∃ progression : Progression, progression.includes progression.start ∧
      evalProgression invoke env start stop step = pure progression := by
  obtain ⟨first, hfirst, hproper⟩ := Expr.literal?_of_isProperNumber hstart
  obtain ⟨last, hlast, hproper'⟩ := Expr.literal?_of_isProperNumber hstop
  unfold evalProgression
  rw [evalBound_literal hfirst, evalBound_literal hlast, pure_bind, pure_bind]
  cases step with
  | none => exact ⟨_, Progression.includes_start hproper hproper' _, rfl⟩
  | some expr =>
    obtain ⟨stride, hstride⟩ := Option.isSome_iff_exists.mp hstep
    dsimp only
    rw [evalBound_literal hstride, pure_bind]
    exact ⟨_, Progression.includes_start hproper hproper' _, rfl⟩

mutual

/-- A statement that is never normal does not complete: it returns, fails or does not finish. -/
theorem neverNormal_execStmt : ∀ (stmt : Stmt), stmt.isNeverNormal → ∀ (fuel : Nat)
    (invoke : Invoke S) (env : FrameId), NeverNormal (execStmt fuel invoke env stmt)
  | .ret value _, _, fuel, invoke, env => by
    unfold execStmt
    exact .bind fun result ↦ nofun
  | .block body _, h, fuel, invoke, env => by
    unfold Stmt.isNeverNormal at h
    unfold execStmt
    exact neverNormal_execBlock body h fuel invoke env
  | .ifElse condition body fallback _, h, fuel, invoke, env => by
    unfold Stmt.isNeverNormal at h
    obtain ⟨hbody, hfallback⟩ := Bool.and_eq_true_iff.mp h
    unfold execStmt
    refine .bind fun holds ↦ .bind fun inner ↦ ?_
    cases holds with
    | false => exact neverNormal_execBlock fallback hfallback fuel invoke inner
    | true => exact neverNormal_execBlock body hbody fuel invoke inner
  | .whileLoop (.bool true _) body line, _, fuel, invoke, env => by
    have htest : ∀ line', evalCondition invoke env .whileLoop (.bool true line') line =
        pure true := by
      intro line'
      rw [evalCondition, evalExpr, pure_bind]
    unfold execStmt
    rw [htest]
    exact .bind fun inner ↦ .whileLoop _ fuel
  | .forLoop counter start stop step body _, h, fuel, invoke, env => by
    unfold Stmt.isNeverNormal at h
    simp only [Bool.and_eq_true] at h
    obtain ⟨⟨⟨hstart, hstop⟩, hstep⟩, hbody⟩ := h
    obtain ⟨progression, hfirst, hprogression⟩ :=
      evalProgression_literal invoke env hstart hstop hstep
    unfold execStmt
    rw [hprogression, pure_bind]
    exact .bind fun inner ↦ .forLoop (neverNormal_execBlock body hbody fuel invoke inner) hfirst _ _

theorem neverNormal_execBlock : ∀ (body : List Stmt), Stmt.anyNeverNormal body → ∀ (fuel : Nat)
    (invoke : Invoke S) (env : FrameId), NeverNormal (execBlock fuel invoke env body)
  | stmt :: rest, h, fuel, invoke, env => by
    unfold Stmt.anyNeverNormal at h
    unfold execBlock
    rcases Bool.or_eq_true_iff.mp h with hstmt | hrest
    · exact (neverNormal_execStmt stmt hstmt fuel invoke env).andThen_first _
    · exact (neverNormal_execBlock rest hrest fuel invoke env).andThen_second _

end

/-! ### Blocks cut short -/

namespace Stmt

theorem anyNeverNormal_cutBlock (body : List Stmt) :
    anyNeverNormal (cutBlock body) = anyNeverNormal body := by
  induction body with
  | nil => rfl
  | cons stmt rest ih =>
    unfold cutBlock
    by_cases hstmt : stmt.isNeverNormal
    · simp [hstmt, anyNeverNormal]
    · simp [hstmt, anyNeverNormal, ih]

mutual

/-- A statement is never normal after its blocks were cut just if it was before. -/
theorem isNeverNormal_mapBlocks : ∀ stmt : Stmt,
    (stmt.mapBlocks cutBlock).isNeverNormal = stmt.isNeverNormal
  | block body _ => by
    rw [mapBlocks, isNeverNormal, isNeverNormal, anyNeverNormal_cutBlock,
      anyNeverNormal_mapBlocksOfAll body]
  | ifElse _ body fallback _ => by
    rw [mapBlocks, isNeverNormal, isNeverNormal, anyNeverNormal_cutBlock, anyNeverNormal_cutBlock,
      anyNeverNormal_mapBlocksOfAll body, anyNeverNormal_mapBlocksOfAll fallback]
  | forLoop _ _ _ _ body _ => by
    rw [mapBlocks, isNeverNormal, isNeverNormal, anyNeverNormal_cutBlock,
      anyNeverNormal_mapBlocksOfAll body]
  | whileLoop condition body _ => by
    cases condition with
    | bool value _ => cases value <;> rfl
    | _ => rfl
  | ifThen _ _ _ | function _ _ _ _ | print _ _ _ | assign _ _ _ | declare _ _ _ | call _ _ _
  | ret _ _ => rfl

theorem anyNeverNormal_mapBlocksOfAll : ∀ body : List Stmt,
    anyNeverNormal (mapBlocksOfAll cutBlock body) = anyNeverNormal body
  | [] => rfl
  | stmt :: rest => by
    rw [mapBlocksOfAll, anyNeverNormal, anyNeverNormal, isNeverNormal_mapBlocks stmt,
      anyNeverNormal_mapBlocksOfAll rest]

end

/-- Cutting the blocks inside does not move the place where a block is cut. -/
theorem cutBlock_mapBlocksOfAll (body : List Stmt) :
    cutBlock (mapBlocksOfAll cutBlock body) = mapBlocksOfAll cutBlock (cutBlock body) := by
  induction body with
  | nil => rfl
  | cons stmt rest ih =>
    rw [mapBlocksOfAll, cutBlock, cutBlock, isNeverNormal_mapBlocks]
    by_cases hstmt : stmt.isNeverNormal
    · simp [hstmt, mapBlocksOfAll]
    · simp [hstmt, mapBlocksOfAll, ih]

end Stmt

/-- A block does as it does up to its first statement that is never normal. -/
theorem isNeutral_cutBlock (S : Type) [Scopes S] : IsNeutral S Stmt.cutBlock := by
  intro fuel invoke env body
  induction body with
  | nil => rfl
  | cons stmt rest ih =>
    unfold Stmt.cutBlock
    by_cases hstmt : stmt.isNeverNormal
    · have hnever := neverNormal_execStmt stmt hstmt fuel invoke env
      rw [if_pos hstmt, execBlock, hnever.andThen_eq, execBlock, hnever.andThen_eq]
    · rw [if_neg hstmt, execBlock, execBlock, ih]

/-- What stands after a statement that is never normal is dead. Such a statement completes in no
frame and in no state. A program whose blocks are all cut after their first such statement, where it
makes no difference whether a block or the blocks inside are cut first, does and writes what the
program does and writes. -/
theorem cut_after_never_normal :
    (∀ (S : Type) [Scopes S] (fuel : Nat) (invoke : Invoke S) (env : FrameId) (stmt : Stmt)
      (state : State S), stmt.isNeverNormal →
        (execStmt fuel invoke env stmt state).1 ≠ .ok .normal) ∧
    (∀ body, Stmt.cutBlock (Stmt.mapBlocksOfAll Stmt.cutBlock body) =
      Stmt.mapBlocksOfAll Stmt.cutBlock (Stmt.cutBlock body)) ∧
    ∀ (fuel : Nat) (evaluator : Evaluator) (root : Node),
      let original := evaluator.run fuel root
      let cut := evaluator.run fuel (root.mapBlocks Stmt.cutBlock)
      cut.outcome = original.outcome ∧ cut.evaluator.sink = original.evaluator.sink := by
  refine ⟨fun S _ fuel invoke env stmt state hstmt ↦ ?_, Stmt.cutBlock_mapBlocksOfAll,
    fun fuel evaluator root ↦ ?_⟩
  · exact neverNormal_execStmt stmt hstmt fuel invoke env state
  · obtain ⟨houtcome, hevaluator⟩ :=
      run_mapBlocks (isNeutral_cutBlock Store) fuel evaluator root
    exact ⟨houtcome, congrArg Evaluator.sink hevaluator⟩

/-- A function that counts to three and returns in the first round, with a print behind the loop and
another behind its call in the condition of a loop without end. -/
def printsBehind : Node :=
  .stmt (.block [.function "f" [] [.forLoop "i" (.int 1 2) (.int 3 2) none [.ret none 3] 2,
      .print (.bool true 4) .newline 4] 1,
    .whileLoop (.bool true 5) [.call "f" [] 5, .ret none 6, .print (.bool true 7) .newline 7] 5,
    .print (.bool true 8) .newline 8] 1)

/-- All three prints are cut, and the run comes to the same. -/
theorem cut_after_never_normal_printsBehind :
    printsBehind.mapBlocks Stmt.cutBlock =
        .stmt (.block [.function "f" [] [.forLoop "i" (.int 1 2) (.int 3 2) none [.ret none 3] 2] 1,
          .whileLoop (.bool true 5) [.call "f" [] 5, .ret none 6] 5] 1) ∧
      (Evaluator.run 2 {} (printsBehind.mapBlocks Stmt.cutBlock)).outcome =
        (Evaluator.run 2 {} printsBehind).outcome ∧
      (execStmt 2 (calls 100 2) 0 (.whileLoop (.bool true 1) [] 1)
        (Evaluator.initial 0 {})).1 ≠ .ok .normal := by
  obtain ⟨hnever, -, hcut⟩ := cut_after_never_normal
  refine ⟨?_, (hcut 2 {} printsBehind).1, hnever Store 2 (calls 100 2) 0 _ _ rfl⟩
  simp [printsBehind, Node.mapBlocks, Stmt.mapBlocks, Stmt.mapBlocksOfAll, Stmt.cutBlock,
    Stmt.isNeverNormal, Stmt.anyNeverNormal, Expr.isProperNumber_int]

end Treewalk
