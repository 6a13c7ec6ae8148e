import Treewalk.Evaluator
import Treewalk.Proofs.Eval.Sequence

/-!
# Programs in pieces

A program may be fed to an evaluator in pieces, each a block that is evaluated in the same frame,
as long as the pieces complete. That leaves the same frames, output and depth as the block of all
their statements, and comes to the same flow or error (`feed_eq_whole`). Nothing is opened, kept or
reset at the boundary of a block, so it does not matter where a program is cut.
-/

set_option autoImplicit false
set_option relaxedAutoImplicit false

namespace Treewalk

/-- Statements that are fed to an evaluator as one block. -/
structure Piece where
  body : List Stmt
  line : Line

def Piece.block (piece : Piece) : Stmt :=
  .block piece.body piece.line

namespace Evaluator

variable {S : Type} [Scopes S]

/-- The flow that a statement comes to, of which `eval` shows the value alone. -/
def flow (fuel : Nat) (evaluator : Evaluator) (scopes : S) (env : FrameId) (stmt : Stmt) :
    Except Stop Flow :=
  (execStmt fuel (calls evaluator.limit fuel) env stmt
    ⟨scopes, evaluator.depth, evaluator.sink⟩).1

/-- Evaluates pieces one after another in one frame, up to the first that returns or fails. -/
def feed (fuel : Nat) (env : FrameId) (evaluator : Evaluator) (scopes : S) :
    List Piece → Evaluation S Flow
  | [] => ⟨.ok .normal, scopes, evaluator⟩
  | piece :: rest =>
    let result := evaluator.eval fuel scopes env (.stmt piece.block)
    match evaluator.flow fuel scopes env piece.block with
    | .ok .normal => feed fuel env result.evaluator result.scopes rest
    | ended => { result with outcome := ended }

theorem eval_stmt (fuel : Nat) (evaluator : Evaluator) (scopes : S) (env : FrameId) (stmt : Stmt) :
    evaluator.eval fuel scopes env (.stmt stmt) =
      let result := execStmt fuel (calls evaluator.limit fuel) env stmt
        ⟨scopes, evaluator.depth, evaluator.sink⟩
      ⟨(evaluator.flow fuel scopes env stmt).map fun flow ↦ (Result.flow flow).yielded,
        result.2.scopes, { evaluator with depth := result.2.depth, sink := result.2.sink }⟩ := by
  rw [eval_eq, evaluate, EvalM.bind_pure_apply, flow]
  dsimp only
  cases (execStmt fuel (calls evaluator.limit fuel) env stmt
    ⟨scopes, evaluator.depth, evaluator.sink⟩).1 <;> rfl

/-- Pieces come to what their statements come to in a row. -/
theorem feed_eq (fuel : Nat) (env : FrameId) (evaluator : Evaluator) (scopes : S)
    (pieces : List Piece) :
    evaluator.feed fuel env scopes pieces =
      let result := execBlock fuel (calls evaluator.limit fuel) env (pieces.flatMap Piece.body)
        ⟨scopes, evaluator.depth, evaluator.sink⟩
      ⟨result.1, result.2.scopes,
        { evaluator with depth := result.2.depth, sink := result.2.sink }⟩ := by
  induction pieces generalizing evaluator scopes with
  | nil => rfl
  | cons piece rest ih =>
    rw [feed, eval_stmt, flow, Piece.block, execStmt, List.flatMap_cons, execBlock_append,
      EvalM.andThen, EvalM.bind_apply]
    rcases execBlock fuel (calls evaluator.limit fuel) env piece.body
      ⟨scopes, evaluator.depth, evaluator.sink⟩ with ⟨stop | _ | value, after⟩
    · rfl
    · exact ih _ _
    · rfl

/-- A program comes to the same in pieces and as a whole, however it is cut: to one flow or error,
and with it to one value, in the same frames and with the same output and depth. -/
theorem feed_eq_whole (fuel : Nat) (env : FrameId) (evaluator : Evaluator) (scopes : S)
    (pieces : List Piece) (line : Line) :
    let whole : Stmt := .block (pieces.flatMap Piece.body) line
    let inPieces := evaluator.feed fuel env scopes pieces
    let atOnce := evaluator.eval fuel scopes env (.stmt whole)
    inPieces.outcome = evaluator.flow fuel scopes env whole ∧
      atOnce.outcome = inPieces.outcome.map (fun flow ↦ (Result.flow flow).yielded) ∧
      inPieces.scopes = atOnce.scopes ∧ inPieces.evaluator = atOnce.evaluator := by
  dsimp only
  rw [eval_stmt, feed_eq, flow, execStmt]
  exact ⟨rfl, rfl, rfl, rfl⟩

end Evaluator

end Treewalk
