import Treewalk.Syntax.Basic

/-!
# Blocks rewritten

`Stmt.mapBlocks` applies a rule to every block of a statement, the inner blocks first: to bodies of
blocks, branches, loops and functions alike. Everything else of the statement stays.
-/

set_option autoImplicit false
set_option relaxedAutoImplicit false

namespace Treewalk

namespace Stmt

mutual

/-- A statement with a rule applied to all its blocks. -/
def mapBlocks (rule : List Stmt → List Stmt) : Stmt → Stmt
  | block body line => block (rule (mapBlocksOfAll rule body)) line
  | ifThen condition body line => ifThen condition (rule (mapBlocksOfAll rule body)) line
  | ifElse condition body fallback line =>
    ifElse condition (rule (mapBlocksOfAll rule body)) (rule (mapBlocksOfAll rule fallback)) line
  | whileLoop condition body line => whileLoop condition (rule (mapBlocksOfAll rule body)) line
  | forLoop counter start stop step body line =>
    forLoop counter start stop step (rule (mapBlocksOfAll rule body)) line
  | function name parameters body line =>
    function name parameters (rule (mapBlocksOfAll rule body)) line
  | stmt => stmt

/-- Statements in turn with a rule applied to the blocks of each, but not to themselves. -/
def mapBlocksOfAll (rule : List Stmt → List Stmt) : List Stmt → List Stmt
  | [] => []
  | stmt :: rest => stmt.mapBlocks rule :: mapBlocksOfAll rule rest

end

mutual

theorem mapBlocks_id : ∀ stmt : Stmt, stmt.mapBlocks id = stmt
  | block body _ | ifThen _ body _ | whileLoop _ body _ | forLoop _ _ _ _ body _
  | function _ _ body _ => by
    rw [mapBlocks, id, mapBlocksOfAll_id body]
  | ifElse _ body fallback _ => by
    rw [mapBlocks, id, id, mapBlocksOfAll_id body, mapBlocksOfAll_id fallback]
  | print _ _ _ | assign _ _ _ | declare _ _ _ | call _ _ _ | ret _ _ => rfl

theorem mapBlocksOfAll_id : ∀ body : List Stmt, mapBlocksOfAll id body = body
  | [] => rfl
  | stmt :: rest => by
    rw [mapBlocksOfAll, mapBlocks_id stmt, mapBlocksOfAll_id rest]

end

theorem line_mapBlocks (rule : List Stmt → List Stmt) (stmt : Stmt) :
    (stmt.mapBlocks rule).line = stmt.line := by
  cases stmt <;> rfl

end Stmt

def Function.mapBlocks (rule : List Stmt → List Stmt) (function : Function) : Function :=
  { function with body := rule (Stmt.mapBlocksOfAll rule function.body) }

theorem Function.mapBlocks_id (function : Function) : function.mapBlocks id = function := by
  rw [mapBlocks, id, Stmt.mapBlocksOfAll_id]

namespace Node

def mapBlocks (rule : List Stmt → List Stmt) : Node → Node
  | stmt root => stmt (root.mapBlocks rule)
  | expr root => expr root

theorem mapBlocks_id (node : Node) : node.mapBlocks id = node := by
  cases node with
  | stmt root => rw [mapBlocks, Stmt.mapBlocks_id]
  | expr root => rfl

theorem line_mapBlocks (rule : List Stmt → List Stmt) (node : Node) :
    (node.mapBlocks rule).line = node.line := by
  cases node with
  | stmt root => exact root.line_mapBlocks rule
  | expr root => rfl

end Node

end Treewalk
