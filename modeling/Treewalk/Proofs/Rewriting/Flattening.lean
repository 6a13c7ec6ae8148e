import Treewalk.Proofs.Eval.Sequence
import Treewalk.Proofs.Rewriting.Blocks

/-!
# Blocks in blocks

A block opens no frame and catches neither a return nor an error. So a block that stands in another
may be replaced by its statements, and this may be done to all of them at once, which leaves a
program where no block stands directly in another (`flattened_blocks`).
-/

set_option autoImplicit false
set_option relaxedAutoImplicit false

namespace Treewalk

namespace Stmt

/-! ### Flat statements -/

def isBlock : Stmt → Bool
  | block _ _ => true
  | _ => false

/-- Statements in turn, with the statements of a block in the place of the block. -/
def flattenBlock : List Stmt → List Stmt
  | [] => []
  | block body _ :: rest => body ++ flattenBlock rest
  | stmt :: rest => stmt :: flattenBlock rest

/-- At no depth does a block stand directly in another. -/
def IsFlat (stmt : Stmt) : Prop :=
  ∀ part ∈ stmt.parts, ∀ body ∈ part.blocks, ∀ inner ∈ body, inner.isBlock = false

theorem isFlat_iff {stmt : Stmt} :
    stmt.IsFlat ↔ ∀ body ∈ stmt.blocks, ∀ inner ∈ body, inner.isBlock = false ∧ inner.IsFlat := by
  unfold IsFlat
  rw [parts_eq, List.forall_mem_cons]
  constructor
  · rintro ⟨hself, hinside⟩ body hbody inner hinner
    refine ⟨hself body hbody inner hinner, fun part hpart ↦ hinside part ?_⟩
    exact List.mem_flatMap.mpr ⟨body, hbody, mem_partsOfAll.mpr ⟨inner, hinner, hpart⟩⟩
  · intro h
    refine ⟨fun body hbody inner hinner ↦ (h body hbody inner hinner).1, fun part hpart ↦ ?_⟩
    obtain ⟨body, hbody, hpart⟩ := List.mem_flatMap.mp hpart
    obtain ⟨inner, hinner, hpart⟩ := mem_partsOfAll.mp hpart
    exact (h body hbody inner hinner).2 part hpart

/-- A block of flat statements is flattened to flat statements, none of them a block. -/
theorem isFlat_flattenBlock {body : List Stmt} (hbody : ∀ stmt ∈ body, stmt.IsFlat) :
    ∀ inner ∈ flattenBlock body, inner.isBlock = false ∧ inner.IsFlat := by
  induction body with
  | nil => nofun
  | cons stmt rest ih =>
    obtain ⟨hstmt, hrest⟩ := List.forall_mem_cons.mp hbody
    cases stmt with
    | block nested _ =>
      rw [flattenBlock, List.forall_mem_append]
      exact ⟨isFlat_iff.mp hstmt nested List.mem_cons_self, ih hrest⟩
    | _ => exact List.forall_mem_cons.mpr ⟨⟨rfl, hstmt⟩, ih hrest⟩

mutual

theorem isFlat_mapBlocks : ∀ stmt : Stmt, (stmt.mapBlocks flattenBlock).IsFlat
  | block body _ | ifThen _ body _ | whileLoop _ body _ | forLoop _ _ _ _ body _
  | function _ _ body _ => by
    rw [mapBlocks, isFlat_iff, blocks, List.forall_mem_singleton]
    exact isFlat_flattenBlock (isFlat_mapBlocksOfAll body)
  | ifElse _ body fallback _ => by
    rw [mapBlocks, isFlat_iff, blocks, List.forall_mem_cons, List.forall_mem_singleton]
    exact ⟨isFlat_flattenBlock (isFlat_mapBlocksOfAll body),
      isFlat_flattenBlock (isFlat_mapBlocksOfAll fallback)⟩
  | print _ _ _ | assign _ _ _ | declare _ _ _ | call _ _ _ | ret _ _ => isFlat_iff.mpr nofun

theorem isFlat_mapBlocksOfAll : ∀ body : List Stmt,
    ∀ stmt ∈ mapBlocksOfAll flattenBlock body, stmt.IsFlat
  | [] => nofun
  | stmt :: rest =>
    List.forall_mem_cons.mpr ⟨isFlat_mapBlocks stmt, isFlat_mapBlocksOfAll rest⟩

end

end Stmt

/-! ### Runs -/

/-- Statements do the same in a block of their own as without it. -/
theorem isNeutral_flattenBlock (S : Type) [Scopes S] : IsNeutral S Stmt.flattenBlock := by
  intro fuel invoke env body
  induction body with
  | nil => rfl
  | cons stmt rest ih =>
    cases stmt with
    | block nested _ =>
      rw [Stmt.flattenBlock, execBlock_append, execBlock, execStmt, ih]
    | _ =>
      change execBlock fuel invoke env (_ :: Stmt.flattenBlock rest) = _
      rw [execBlock, execBlock, ih]

/-- If every block that stands directly in another is replaced by its statements, at any depth and
in the bodies of functions too, then no block stands directly in another, the program has the line
that it had, and its runs come to the same and write the same, with the same fuel. -/
theorem flattened_blocks (root : Node) :
    let flat := root.mapBlocks Stmt.flattenBlock
    (∀ stmt ∈ flat.stmts, ∀ body ∈ stmt.blocks, ∀ inner ∈ body, inner.isBlock = false) ∧
    flat.line = root.line ∧
    ∀ (fuel : Nat) (evaluator : Evaluator),
      (evaluator.run fuel flat).outcome = (evaluator.run fuel root).outcome ∧
        (evaluator.run fuel flat).evaluator.sink = (evaluator.run fuel root).evaluator.sink := by
  refine ⟨?_, root.line_mapBlocks _, fun fuel evaluator ↦ ?_⟩
  · cases root with
    | stmt root => exact root.isFlat_mapBlocks
    | expr root => nofun
  · obtain ⟨houtcome, hevaluator⟩ :=
      run_mapBlocks (isNeutral_flattenBlock Store) fuel evaluator root
    exact ⟨houtcome, congrArg Evaluator.sink hevaluator⟩

/-- Blocks around a declaration of a function, around a return in its body and around that of a
variable. -/
def nestedBlocks : Node :=
  .stmt (.block [.block [.function "f" [] [.block [.block [.ret none 2] 2, .call "f" [] 3] 2] 1,
    .block [.declare "x" none 4] 4] 1, .call "f" [] 5, .print (.identifier "x" 6) .newline 6] 1)

/-- The function and the variable stand in the outermost block, and the run comes to the same. -/
theorem flattened_blocks_nestedBlocks :
    nestedBlocks.mapBlocks Stmt.flattenBlock =
        .stmt (.block [.function "f" [] [.ret none 2, .call "f" [] 3] 1, .declare "x" none 4,
          .call "f" [] 5, .print (.identifier "x" 6) .newline 6] 1) ∧
      (Evaluator.run 2 {} (nestedBlocks.mapBlocks Stmt.flattenBlock)).outcome =
        (Evaluator.run 2 {} nestedBlocks).outcome ∧
      (Stmt.call "f" [] 3).isBlock = false := by
  obtain ⟨hflat, -, hruns⟩ := flattened_blocks nestedBlocks
  refine ⟨by rfl, (hruns 2 {}).1, ?_⟩
  have hfunction : .function "f" [] [.ret none 2, .call "f" [] 3] 1 ∈
      (nestedBlocks.mapBlocks Stmt.flattenBlock).stmts :=
    List.mem_cons_of_mem _ List.mem_cons_self
  exact hflat _ hfunction _ List.mem_cons_self _ (List.mem_cons_of_mem _ List.mem_cons_self)

end Treewalk
