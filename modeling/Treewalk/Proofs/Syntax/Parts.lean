import Treewalk.Syntax.Basic

/-!
# The parts of a program

`Expr.parts` and `Stmt.parts` list a node with all nodes inside it, at any depth and in the bodies
of functions too. An expression counts as part of a program where its value is asked for, so the
call that a `return` forwards is a part of its statement and not an expression of the program.

A `Fragment` says which expressions and which statements may stand in a program. A program belongs
to it if all its parts do, and then so do the operands and the blocks of each part.
-/

set_option autoImplicit false
set_option relaxedAutoImplicit false

namespace Treewalk

/-! ### Parts -/

namespace Expr

/-- The expressions directly inside an expression. -/
def operands : Expr → List Expr
  | grouping inner _ => [inner]
  | unary _ right _ => [right]
  | binary left _ right _ | logical left _ right _ => [left, right]
  | call _ arguments _ => arguments
  | _ => []

mutual

/-- An expression and all expressions inside it. -/
def parts : Expr → List Expr
  | grouping inner line => grouping inner line :: inner.parts
  | unary operator right line => unary operator right line :: right.parts
  | binary left operator right line =>
    binary left operator right line :: (left.parts ++ right.parts)
  | logical left operator right line =>
    logical left operator right line :: (left.parts ++ right.parts)
  | call name arguments line => call name arguments line :: partsOfAll arguments
  | expr => [expr]

def partsOfAll : List Expr → List Expr
  | [] => []
  | expr :: rest => expr.parts ++ partsOfAll rest

end

theorem parts_eq (expr : Expr) : expr.parts = expr :: partsOfAll expr.operands := by
  cases expr <;> simp [parts, operands, partsOfAll]

theorem mem_partsOfAll {part : Expr} {exprs : List Expr} :
    part ∈ partsOfAll exprs ↔ ∃ expr ∈ exprs, part ∈ expr.parts := by
  induction exprs with
  | nil => simp [partsOfAll]
  | cons expr rest ih => simp [partsOfAll, ih]

theorem sizeOf_lt_of_mem_operands {expr operand : Expr} (h : operand ∈ expr.operands) :
    sizeOf operand < sizeOf expr := by
  cases expr with
  | call name arguments line =>
    have hlt := List.sizeOf_lt_of_mem (show operand ∈ arguments from h)
    simp only [call.sizeOf_spec]
    omega
  | grouping _ _ | unary _ _ _ | binary _ _ _ _ | logical _ _ _ _ =>
    simp only [operands, List.mem_cons, List.not_mem_nil, or_false] at h
    rcases h with rfl | rfl <;> simp +arith
  | _ => cases h

/-- What holds of an expression if it holds of its operands holds of every expression. -/
@[elab_as_elim]
theorem induction_operands {motive : Expr → Prop} (expr : Expr)
    (step : ∀ expr : Expr, (∀ operand ∈ expr.operands, motive operand) → motive expr) :
    motive expr :=
  step expr fun operand hoperand ↦
    have := sizeOf_lt_of_mem_operands hoperand
    induction_operands operand step
termination_by sizeOf expr

end Expr

namespace Stmt

/-- The expressions whose values a statement asks for, apart from those in its blocks. -/
def operands : Stmt → List Expr
  | print value _ _ | assign _ value _ => [value]
  | ifThen condition _ _ | ifElse condition _ _ _ | whileLoop condition _ _ => [condition]
  | forLoop _ start stop step _ _ => start :: stop :: step.toList
  | declare _ value _ => value.toList
  | call _ arguments _ | ret (some (.call _ arguments _)) _ => arguments
  | ret value _ => value.toList
  | block _ _ | function _ _ _ _ => []

/-- The blocks directly inside a statement. -/
def blocks : Stmt → List (List Stmt)
  | block body _ | ifThen _ body _ | whileLoop _ body _ | forLoop _ _ _ _ body _
  | function _ _ body _ => [body]
  | ifElse _ body fallback _ => [body, fallback]
  | _ => []

/-- The blocks that are run when a statement is. The body of a function is not. -/
def runs : Stmt → List (List Stmt)
  | function _ _ _ _ => []
  | stmt => stmt.blocks

theorem mem_blocks_of_mem_runs {stmt : Stmt} {body : List Stmt} (h : body ∈ stmt.runs) :
    body ∈ stmt.blocks := by
  cases stmt with
  | function name parameters inner line => cases h
  | _ => exact h

mutual

/-- A statement and all statements inside it. -/
def parts : Stmt → List Stmt
  | block body line => block body line :: partsOfAll body
  | ifThen condition body line => ifThen condition body line :: partsOfAll body
  | ifElse condition body fallback line =>
    ifElse condition body fallback line :: (partsOfAll body ++ partsOfAll fallback)
  | whileLoop condition body line => whileLoop condition body line :: partsOfAll body
  | forLoop counter start stop step body line =>
    forLoop counter start stop step body line :: partsOfAll body
  | function name parameters body line => function name parameters body line :: partsOfAll body
  | stmt => [stmt]

def partsOfAll : List Stmt → List Stmt
  | [] => []
  | stmt :: rest => stmt.parts ++ partsOfAll rest

end

theorem parts_eq (stmt : Stmt) : stmt.parts = stmt :: stmt.blocks.flatMap partsOfAll := by
  cases stmt <;> simp [parts, blocks]

theorem mem_partsOfAll {part : Stmt} {body : List Stmt} :
    part ∈ partsOfAll body ↔ ∃ stmt ∈ body, part ∈ stmt.parts := by
  induction body with
  | nil => simp [partsOfAll]
  | cons stmt rest ih => simp [partsOfAll, ih]

def isLoop : Stmt → Bool
  | whileLoop _ _ _ | forLoop _ _ _ _ _ _ => true
  | _ => false

end Stmt

namespace Node

/-- All statements of a program. -/
def stmts : Node → List Stmt
  | stmt root => root.parts
  | expr _ => []

/-- All expressions of a program whose values are asked for. -/
def exprs : Node → List Expr
  | stmt root => root.parts.flatMap fun part ↦ Expr.partsOfAll part.operands
  | expr root => root.parts

end Node

/-- The statement that declares a function. -/
def Function.declaration (function : Function) : Stmt :=
  .function function.name function.parameters function.body function.line

/-! ### Fragments -/

/-- Which expressions and which statements may stand in a program. -/
structure Fragment where
  expr : Expr → Prop
  stmt : Stmt → Prop

namespace Fragment

/-- The whole language. -/
def everything : Fragment :=
  ⟨fun _ ↦ True, fun _ ↦ True⟩

def HasExpr (fragment : Fragment) (expr : Expr) : Prop :=
  ∀ part ∈ expr.parts, fragment.expr part

def HasStmt (fragment : Fragment) (stmt : Stmt) : Prop :=
  ∀ part ∈ stmt.parts, fragment.stmt part ∧ ∀ operand ∈ part.operands, fragment.HasExpr operand

def HasBlock (fragment : Fragment) (body : List Stmt) : Prop :=
  ∀ stmt ∈ body, fragment.HasStmt stmt

def HasNode (fragment : Fragment) (node : Node) : Prop :=
  (∀ expr ∈ node.exprs, fragment.expr expr) ∧ ∀ stmt ∈ node.stmts, fragment.stmt stmt

/-- A call may stand as an expression, as a statement, or in a return that forwards it. -/
def HasCall (fragment : Fragment) (name : String) (arguments : List Expr) (line : Line) :
    Prop :=
  fragment.expr (.call name arguments line) ∨ fragment.stmt (.call name arguments line) ∨
    ∃ line', fragment.stmt (.ret (some (.call name arguments line)) line')

variable {fragment : Fragment}

theorem HasExpr.self {expr : Expr} (h : fragment.HasExpr expr) : fragment.expr expr :=
  h expr (expr.parts_eq ▸ List.mem_cons_self)

theorem HasExpr.operand {expr operand : Expr} (h : fragment.HasExpr expr)
    (hoperand : operand ∈ expr.operands) : fragment.HasExpr operand := by
  intro part hpart
  refine h part ?_
  rw [expr.parts_eq]
  exact List.mem_cons_of_mem _ (Expr.mem_partsOfAll.mpr ⟨operand, hoperand, hpart⟩)

theorem HasStmt.self {stmt : Stmt} (h : fragment.HasStmt stmt) : fragment.stmt stmt :=
  (h stmt (stmt.parts_eq ▸ List.mem_cons_self)).1

theorem HasStmt.operand {stmt : Stmt} {operand : Expr} (h : fragment.HasStmt stmt)
    (hoperand : operand ∈ stmt.operands) : fragment.HasExpr operand :=
  (h stmt (stmt.parts_eq ▸ List.mem_cons_self)).2 operand hoperand

theorem HasStmt.block {stmt : Stmt} {body : List Stmt} (h : fragment.HasStmt stmt)
    (hbody : body ∈ stmt.blocks) : fragment.HasBlock body := by
  intro inner hinner part hpart
  refine h part ?_
  rw [stmt.parts_eq]
  refine List.mem_cons_of_mem _ (List.mem_flatMap.mpr ⟨body, hbody, ?_⟩)
  exact Stmt.mem_partsOfAll.mpr ⟨inner, hinner, hpart⟩

theorem HasNode.hasExpr {root : Expr} (h : fragment.HasNode (.expr root)) :
    fragment.HasExpr root :=
  h.1

theorem HasNode.hasStmt {root : Stmt} (h : fragment.HasNode (.stmt root)) :
    fragment.HasStmt root := by
  refine fun part hpart ↦ ⟨h.2 part hpart, fun operand hoperand inner hinner ↦ ?_⟩
  refine h.1 inner (List.mem_flatMap.mpr ⟨part, hpart, ?_⟩)
  exact Expr.mem_partsOfAll.mpr ⟨operand, hoperand, hinner⟩

theorem hasStmt_everything (stmt : Stmt) : everything.HasStmt stmt :=
  fun _ _ ↦ ⟨trivial, fun _ _ _ _ ↦ trivial⟩

theorem hasNode_everything (node : Node) : everything.HasNode node :=
  ⟨fun _ _ ↦ trivial, fun _ _ ↦ trivial⟩

end Fragment

end Treewalk
