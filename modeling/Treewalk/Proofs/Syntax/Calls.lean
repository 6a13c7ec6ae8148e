import Mathlib.Data.Finset.Card
import Mathlib.Logic.Relation
import Treewalk.Proofs.Syntax.Parts

/-!
# Which function calls which

`Stmt.callees` lists the names that a statement calls, at any depth, in arguments, conditions and
bounds too. A declaration calls nothing, since it does not run its body. One function of a program
calls another if the body of some declaration of its name does (`Node.Calls`), so a name stands for
all functions that are declared by it.

A `Node.IsCallStack` is a row of calls, each made by the one outside it. Where no function calls
itself, not even through others, its names are distinct, and there are no more of them than
functions (`Node.IsCallStack.length_le`).
-/

set_option autoImplicit false
set_option relaxedAutoImplicit false

namespace Treewalk

/-! ### Names that are called -/

namespace Expr

mutual

/-- The names that an expression calls. -/
def callees : Expr → List String
  | grouping inner _ => inner.callees
  | unary _ right _ => right.callees
  | binary left _ right _ | logical left _ right _ => left.callees ++ right.callees
  | call name arguments _ => name :: calleesOfAll arguments
  | _ => []

def calleesOfAll : List Expr → List String
  | [] => []
  | expr :: rest => expr.callees ++ calleesOfAll rest

end

theorem mem_calleesOfAll {name : String} {exprs : List Expr} :
    name ∈ calleesOfAll exprs ↔ ∃ expr ∈ exprs, name ∈ expr.callees := by
  induction exprs with
  | nil => simp [calleesOfAll]
  | cons expr rest ih => simp [calleesOfAll, ih]

theorem calleesOfAll_operands_subset (expr : Expr) :
    calleesOfAll expr.operands ⊆ expr.callees := by
  cases expr <;> simp [callees, operands, calleesOfAll]

theorem mem_callees_of_operand {name : String} {expr operand : Expr}
    (hoperand : operand ∈ expr.operands) (hname : name ∈ operand.callees) :
    name ∈ expr.callees :=
  expr.calleesOfAll_operands_subset (mem_calleesOfAll.mpr ⟨operand, hoperand, hname⟩)

end Expr

namespace Stmt

mutual

/-- The names that a statement calls when it is run. -/
def callees : Stmt → List String
  | block body _ => calleesOfAll body
  | print value _ _ | assign _ value _ => value.callees
  | ifThen condition body _ | whileLoop condition body _ => condition.callees ++ calleesOfAll body
  | ifElse condition body fallback _ =>
    condition.callees ++ (calleesOfAll body ++ calleesOfAll fallback)
  | forLoop _ start stop step body _ =>
    Expr.calleesOfAll (start :: stop :: step.toList) ++ calleesOfAll body
  | declare _ value _ | ret value _ => Expr.calleesOfAll value.toList
  | call name arguments _ => name :: Expr.calleesOfAll arguments
  | function _ _ _ _ => []

def calleesOfAll : List Stmt → List String
  | [] => []
  | stmt :: rest => stmt.callees ++ calleesOfAll rest

end

theorem mem_calleesOfAll {name : String} {body : List Stmt} :
    name ∈ calleesOfAll body ↔ ∃ stmt ∈ body, name ∈ stmt.callees := by
  induction body with
  | nil => simp [calleesOfAll]
  | cons stmt rest ih => simp [calleesOfAll, ih]

theorem calleesOfAll_operands_subset (stmt : Stmt) :
    Expr.calleesOfAll stmt.operands ⊆ stmt.callees := by
  cases stmt with
  | forLoop counter start stop step body line => exact List.subset_append_left _ _
  | ret value line =>
    rcases value with _ | value
    · exact List.nil_subset _
    · cases value <;> simp [callees, operands, Expr.callees, Expr.calleesOfAll]
  | _ => simp [callees, operands, Expr.calleesOfAll]

theorem mem_callees_of_operand {name : String} {stmt : Stmt} {operand : Expr}
    (hoperand : operand ∈ stmt.operands) (hname : name ∈ operand.callees) :
    name ∈ stmt.callees :=
  stmt.calleesOfAll_operands_subset (Expr.mem_calleesOfAll.mpr ⟨operand, hoperand, hname⟩)

theorem mem_callees_of_runs {name : String} {stmt inner : Stmt} {body : List Stmt}
    (hbody : body ∈ stmt.runs) (hinner : inner ∈ body) (hname : name ∈ inner.callees) :
    name ∈ stmt.callees := by
  have hall := mem_calleesOfAll.mpr ⟨inner, hinner, hname⟩
  cases stmt with
  | ifElse condition first second line =>
    rcases List.mem_pair.mp hbody with rfl | rfl <;> simp [callees, hall]
  | block _ _ | ifThen _ _ _ | whileLoop _ _ _ | forLoop _ _ _ _ _ _ =>
    obtain rfl := List.mem_singleton.mp hbody
    simp [callees, hall]
  | _ => cases hbody

/-- The name that a statement declares a function by. -/
def functionName? : Stmt → Option String
  | function name _ _ _ => some name
  | _ => none

end Stmt

/-! ### Calls between functions -/

namespace Node

variable (program : Node)

/-- The names that functions are declared by, anywhere in a program. -/
def functionNames : List String :=
  program.stmts.filterMap Stmt.functionName?

/-- Some function of the first name calls the second name. -/
def Calls (caller callee : String) : Prop :=
  ∃ function : Function, function.declaration ∈ program.stmts ∧ function.name = caller ∧
    callee ∈ Stmt.calleesOfAll function.body

variable {program}

theorem mem_functionNames {function : Function} (h : function.declaration ∈ program.stmts) :
    function.name ∈ program.functionNames :=
  List.mem_filterMap.mpr ⟨function.declaration, h, rfl⟩

/-- Functions of the program, the innermost first, each called on the way from any outside it. -/
structure IsCallStack (program : Node) (active : List String) : Prop where
  declared : active ⊆ program.functionNames
  calls : active.Pairwise fun inner outer ↦ Relation.TransGen program.Calls outer inner

variable {active : List String}

theorem isCallStack_nil : program.IsCallStack [] :=
  ⟨List.nil_subset _, List.Pairwise.nil⟩

/-- One more call, from the innermost function. -/
theorem IsCallStack.push (h : program.IsCallStack active) {name : String}
    (hname : name ∈ program.functionNames)
    (hcalled : ∀ caller ∈ active.head?, program.Calls caller name) :
    program.IsCallStack (name :: active) := by
  refine ⟨List.cons_subset.mpr ⟨hname, h.declared⟩, List.Pairwise.cons ?_ h.calls⟩
  intro outer houter
  rcases active with _ | ⟨caller, rest⟩
  · cases houter
  · have hcall : program.Calls caller name := hcalled caller rfl
    rcases List.mem_cons.mp houter with rfl | hrest
    · exact .single hcall
    · exact (List.rel_of_pairwise_cons h.calls hrest).tail hcall

theorem IsCallStack.length_le (h : program.IsCallStack active)
    (hacyclic : ∀ name, ¬ Relation.TransGen program.Calls name name) :
    active.length ≤ program.functionNames.toFinset.card := by
  have hnodup : active.Nodup := by
    refine h.calls.imp ?_
    rintro inner _ hcalls rfl
    exact hacyclic inner hcalls
  rw [← List.toFinset_card_of_nodup hnodup]
  refine Finset.card_le_card fun name hname ↦ ?_
  exact List.mem_toFinset.mpr (h.declared (List.mem_toFinset.mp hname))

end Node

end Treewalk
