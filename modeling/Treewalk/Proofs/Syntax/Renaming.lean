import Mathlib.Logic.Function.Basic
import Treewalk.Error
import Treewalk.Eval.Monad

/-!
# Programs with other names

A `Renaming` gives every variable and every function another name, no two the same one, and moves
every line. Variables and functions are renamed apart from each other, so that a variable and a
function of one name may come to have two, and the other way round. A program is renamed at all its
declarations and uses at once, and an error by the name that it complains about.
-/

set_option autoImplicit false
set_option relaxedAutoImplicit false

namespace Treewalk

/-- New names for variables and for functions, and new lines. -/
structure Renaming where
  ofVariable : String → String
  ofFunction : String → String
  ofLine : Line → Line
  ofVariable_injective : Function.Injective ofVariable
  ofFunction_injective : Function.Injective ofFunction

variable (ρ : Renaming)

/-! ### Programs -/

namespace Expr

mutual

def rename : Expr → Expr
  | int value line => int value (ρ.ofLine line)
  | float value line => float value (ρ.ofLine line)
  | bool value line => bool value (ρ.ofLine line)
  | str value line => str value (ρ.ofLine line)
  | identifier name line => identifier (ρ.ofVariable name) (ρ.ofLine line)
  | grouping inner line => grouping inner.rename (ρ.ofLine line)
  | unary operator right line => unary operator right.rename (ρ.ofLine line)
  | binary left operator right line => binary left.rename operator right.rename (ρ.ofLine line)
  | logical left operator right line => logical left.rename operator right.rename (ρ.ofLine line)
  | call name arguments line => call (ρ.ofFunction name) (renameAll arguments) (ρ.ofLine line)

def renameAll : List Expr → List Expr
  | [] => []
  | expr :: rest => expr.rename :: renameAll rest

end

theorem renameAll_eq_map (exprs : List Expr) : renameAll ρ exprs = exprs.map (rename ρ) := by
  induction exprs with
  | nil => rfl
  | cons expr rest ih => rw [renameAll, ih, List.map_cons]

theorem length_renameAll (exprs : List Expr) : (renameAll ρ exprs).length = exprs.length := by
  rw [renameAll_eq_map, List.length_map]

@[simp] theorem line_rename (expr : Expr) : (expr.rename ρ).line = ρ.ofLine expr.line := by
  cases expr <;> rfl

end Expr

namespace Stmt

mutual

def rename : Stmt → Stmt
  | block body line => block (renameAll body) (ρ.ofLine line)
  | print value ending line => print (value.rename ρ) ending (ρ.ofLine line)
  | ifThen condition body line => ifThen (condition.rename ρ) (renameAll body) (ρ.ofLine line)
  | ifElse condition body fallback line =>
    ifElse (condition.rename ρ) (renameAll body) (renameAll fallback) (ρ.ofLine line)
  | whileLoop condition body line => whileLoop (condition.rename ρ) (renameAll body) (ρ.ofLine line)
  | forLoop counter start stop step body line =>
    forLoop (ρ.ofVariable counter) (start.rename ρ) (stop.rename ρ) (step.map (Expr.rename ρ))
      (renameAll body) (ρ.ofLine line)
  | assign name value line => assign (ρ.ofVariable name) (value.rename ρ) (ρ.ofLine line)
  | declare name value line =>
    declare (ρ.ofVariable name) (value.map (Expr.rename ρ)) (ρ.ofLine line)
  | function name parameters body line =>
    function (ρ.ofFunction name) (parameters.map ρ.ofVariable) (renameAll body) (ρ.ofLine line)
  | call name arguments line =>
    call (ρ.ofFunction name) (Expr.renameAll ρ arguments) (ρ.ofLine line)
  | ret value line => ret (value.map (Expr.rename ρ)) (ρ.ofLine line)

def renameAll : List Stmt → List Stmt
  | [] => []
  | stmt :: rest => stmt.rename :: renameAll rest

end

@[simp] theorem line_rename (stmt : Stmt) : (stmt.rename ρ).line = ρ.ofLine stmt.line := by
  cases stmt <;> rfl

end Stmt

def Function.rename (function : Function) : Function where
  name := ρ.ofFunction function.name
  parameters := function.parameters.map ρ.ofVariable
  body := Stmt.renameAll ρ function.body
  line := ρ.ofLine function.line

@[simp] theorem Function.name_rename (function : Function) :
    (function.rename ρ).name = ρ.ofFunction function.name :=
  rfl

def Closure.rename (closure : Closure) : Closure :=
  { closure with function := closure.function.rename ρ }

namespace Node

def rename : Node → Node
  | stmt root => stmt (root.rename ρ)
  | expr root => expr (root.rename ρ)

@[simp] theorem line_rename (node : Node) : (node.rename ρ).line = ρ.ofLine node.line := by
  cases node with
  | stmt root => exact root.line_rename ρ
  | expr root => exact root.line_rename ρ

end Node

/-! ### Errors -/

/-- The same cause with the name in it renamed, as a variable or as a function. -/
def Fault.rename : Fault → Fault
  | .undeclaredIdentifier name => .undeclaredIdentifier (ρ.ofVariable name)
  | .uninitializedIdentifier name => .uninitializedIdentifier (ρ.ofVariable name)
  | .undeclaredFunction name => .undeclaredFunction (ρ.ofFunction name)
  | .arityMismatch name expected got => .arityMismatch (ρ.ofFunction name) expected got
  | .missingReturnValue name => .missingReturnValue (ρ.ofFunction name)
  | fault => fault

def RuntimeError.rename (error : RuntimeError) : RuntimeError :=
  ⟨error.fault.rename ρ, ρ.ofLine error.line⟩

def Stop.rename : Stop → Stop
  | .error failure => .error (failure.rename ρ)
  | .outOfFuel => .outOfFuel

end Treewalk
