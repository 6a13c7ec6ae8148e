import Treewalk.Proofs.Syntax.Blocks
import Treewalk.Proofs.Syntax.Parts
import Treewalk.Proofs.Syntax.Renaming

/-!
# Programs with other expressions

A `Recast` says what becomes of the lines of the statements of a program and of their expressions.
What a return returns is treated apart, as it is by the evaluation. To recast a program twice is to
recast it once (`Node.recast_recast`), to move its lines is a way to recast it
(`Node.rename_ofLines`), and the statements of a program recast are its statements, each of them
recast (`Node.stmts_recast`).
-/

set_option autoImplicit false
set_option relaxedAutoImplicit false

namespace Treewalk

/-- What becomes of the line of a statement, of what it returns and of its other expressions. -/
@[ext]
structure Recast where
  line : Line → Line := id
  operand : Expr → Expr := id
  returned : Expr → Expr := id

namespace Recast

/-- One after the other. -/
def comp (second first : Recast) : Recast where
  line := second.line ∘ first.line
  operand := second.operand ∘ first.operand
  returned := second.returned ∘ first.returned

end Recast

/-- The renaming that moves lines and leaves all names. -/
def Renaming.ofLines (move : Line → Line) : Renaming :=
  ⟨id, id, move, Function.injective_id, Function.injective_id⟩

/-- To move the lines of a program. -/
def Recast.ofLines (move : Line → Line) : Recast :=
  ⟨move, Expr.rename (.ofLines move), Expr.rename (.ofLines move)⟩

/-! ### Statements -/

namespace Stmt

/-- A statement recast, but not those in its blocks. -/
def recastSelf (recasting : Recast) : Stmt → Stmt
  | block body line => block body (recasting.line line)
  | print value ending line => print (recasting.operand value) ending (recasting.line line)
  | ifThen condition body line =>
    ifThen (recasting.operand condition) body (recasting.line line)
  | ifElse condition body fallback line =>
    ifElse (recasting.operand condition) body fallback (recasting.line line)
  | whileLoop condition body line =>
    whileLoop (recasting.operand condition) body (recasting.line line)
  | forLoop counter start stop step body line =>
    forLoop counter (recasting.operand start) (recasting.operand stop)
      (step.map recasting.operand) body (recasting.line line)
  | assign name value line => assign name (recasting.operand value) (recasting.line line)
  | declare name value line => declare name (value.map recasting.operand) (recasting.line line)
  | function name parameters body line => function name parameters body (recasting.line line)
  | call name arguments line =>
    call name (arguments.map recasting.operand) (recasting.line line)
  | ret value line => ret (value.map recasting.returned) (recasting.line line)

/-- A statement and all statements inside it recast. -/
def recast (recasting : Recast) (stmt : Stmt) : Stmt :=
  (stmt.mapBlocks (List.map (recastSelf recasting))).recastSelf recasting

variable (recasting second first : Recast)

theorem mapBlocks_recastSelf (rule : List Stmt → List Stmt) (stmt : Stmt) :
    (stmt.recastSelf recasting).mapBlocks rule = (stmt.mapBlocks rule).recastSelf recasting := by
  cases stmt <;> rfl

theorem recastSelf_recastSelf (stmt : Stmt) :
    (stmt.recastSelf first).recastSelf second = stmt.recastSelf (second.comp first) := by
  cases stmt <;> simp [recastSelf, Recast.comp]

theorem recastSelf_id (stmt : Stmt) : stmt.recastSelf {} = stmt := by
  cases stmt <;> simp [recastSelf]

theorem recast_id (stmt : Stmt) : stmt.recast {} = stmt := by
  have hself : List.map (recastSelf {}) = id := by
    rw [funext recastSelf_id]
    exact funext fun body ↦ body.map_id
  rw [recast, hself, mapBlocks_id, recastSelf_id]

mutual

theorem mapBlocks_mapBlocks : ∀ stmt : Stmt,
    (stmt.mapBlocks (List.map (recastSelf first))).mapBlocks (List.map (recastSelf second)) =
      stmt.mapBlocks (List.map (recastSelf (second.comp first)))
  | block body _ | ifThen _ body _ | whileLoop _ body _ | forLoop _ _ _ _ body _
  | function _ _ body _ => by
    simp only [mapBlocks, map_mapBlocksOfAll body]
  | ifElse _ body fallback _ => by
    simp only [mapBlocks, map_mapBlocksOfAll body, map_mapBlocksOfAll fallback]
  | print _ _ _ | assign _ _ _ | declare _ _ _ | call _ _ _ | ret _ _ => rfl

theorem map_mapBlocksOfAll : ∀ body : List Stmt,
    (mapBlocksOfAll (List.map (recastSelf second))
        ((mapBlocksOfAll (List.map (recastSelf first)) body).map (recastSelf first))).map
          (recastSelf second) =
      (mapBlocksOfAll (List.map (recastSelf (second.comp first))) body).map
        (recastSelf (second.comp first))
  | [] => rfl
  | stmt :: rest => by
    simp only [mapBlocksOfAll, List.map_cons, mapBlocks_recastSelf, recastSelf_recastSelf,
      mapBlocks_mapBlocks stmt, map_mapBlocksOfAll rest]

end

theorem recast_recast (stmt : Stmt) :
    (stmt.recast first).recast second = stmt.recast (second.comp first) := by
  unfold recast
  rw [mapBlocks_recastSelf, recastSelf_recastSelf, mapBlocks_mapBlocks]

/-! ### Moved lines -/

mutual

theorem rename_ofLines (move : Line → Line) : ∀ stmt : Stmt,
    stmt.rename (.ofLines move) = stmt.recast (.ofLines move)
  | block body _ | ifThen _ body _ | whileLoop _ body _ | forLoop _ _ _ _ body _ => by
    rw [rename, renameAll_ofLines move body]
    rfl
  | ifElse _ body fallback _ => by
    rw [rename, renameAll_ofLines move body, renameAll_ofLines move fallback]
    rfl
  | function _ parameters body _ => by
    rw [rename, renameAll_ofLines move body, show (Renaming.ofLines move).ofVariable = id from rfl,
      List.map_id]
    rfl
  | call _ arguments _ => by
    rw [rename, Expr.renameAll_eq_map]
    rfl
  | print _ _ _ | assign _ _ _ | declare _ _ _ | ret _ _ => rfl

theorem renameAll_ofLines (move : Line → Line) : ∀ body : List Stmt,
    renameAll (.ofLines move) body =
      (mapBlocksOfAll (List.map (recastSelf (.ofLines move))) body).map
        (recastSelf (.ofLines move))
  | [] => rfl
  | stmt :: rest => by
    rw [renameAll, mapBlocksOfAll, List.map_cons, rename_ofLines move stmt,
      renameAll_ofLines move rest]
    rfl

end

/-! ### Parts -/

mutual

theorem parts_recast : ∀ stmt : Stmt,
    (stmt.recast recasting).parts = stmt.parts.map (recast recasting)
  | block body _ | ifThen _ body _ | whileLoop _ body _ | forLoop _ _ _ _ body _
  | function _ _ body _ => by
    simp only [recast, mapBlocks, recastSelf, parts, partsOfAll_recast body, List.map_cons]
  | ifElse _ body fallback _ => by
    simp only [recast, mapBlocks, recastSelf, parts, partsOfAll_recast body,
      partsOfAll_recast fallback, List.map_cons, List.map_append]
  | print _ _ _ | assign _ _ _ | declare _ _ _ | call _ _ _ | ret _ _ => rfl

theorem partsOfAll_recast : ∀ body : List Stmt,
    partsOfAll ((mapBlocksOfAll (List.map (recastSelf recasting)) body).map
      (recastSelf recasting)) = (partsOfAll body).map (recast recasting)
  | [] => rfl
  | stmt :: rest => by
    rw [mapBlocksOfAll, List.map_cons, partsOfAll, partsOfAll, List.map_append,
      partsOfAll_recast rest, ← parts_recast stmt]
    rfl

end

theorem line_recast (stmt : Stmt) : (stmt.recast recasting).line = recasting.line stmt.line := by
  cases stmt <;> rfl

end Stmt

/-! ### Nodes -/

namespace Node

def recast (recasting : Recast) : Node → Node
  | stmt root => stmt (root.recast recasting)
  | expr root => expr (recasting.operand root)

theorem recast_recast (second first : Recast) (node : Node) :
    (node.recast first).recast second = node.recast (second.comp first) := by
  cases node with
  | stmt root => exact congrArg stmt (root.recast_recast second first)
  | expr root => rfl

theorem recast_id (node : Node) : node.recast {} = node := by
  cases node with
  | stmt root => exact congrArg stmt root.recast_id
  | expr root => rfl

theorem rename_ofLines (move : Line → Line) (node : Node) :
    node.rename (.ofLines move) = node.recast (.ofLines move) := by
  cases node with
  | stmt root => exact congrArg stmt (root.rename_ofLines move)
  | expr root => rfl

theorem stmts_recast (recasting : Recast) (node : Node) :
    (node.recast recasting).stmts = node.stmts.map (Stmt.recast recasting) := by
  cases node with
  | stmt root => exact root.parts_recast recasting
  | expr root => rfl

end Node

end Treewalk
