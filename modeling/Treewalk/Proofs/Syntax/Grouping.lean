import Mathlib.Data.Nat.Bits
import Mathlib.Data.Nat.Pairing
import Treewalk.Proofs.Syntax.Recast

/-!
# Parentheses

`Node.ungrouped` is a program without its groupings. They have no effect of their own. What they
have is a line, and they keep a call in them from being the very expression of a return.

`Node.relabel` writes a code of its `Place` on every node in the stead of its line. The place of a
node is its line, the line that it has without the groupings, and whether it is returned.
-/

set_option autoImplicit false
set_option relaxedAutoImplicit false

namespace Treewalk

/-! ### Expressions without groupings -/

namespace Expr

def isCall : Expr → Bool
  | call _ _ _ => true
  | _ => false

def isGrouping : Expr → Bool
  | grouping _ _ => true
  | _ => false

/-- What stands in the groupings, if the expression is one. -/
def unwrapped : Expr → Expr
  | grouping inner _ => inner.unwrapped
  | expr => expr

mutual

/-- The expression with no groupings around it or inside it. -/
def ungrouped : Expr → Expr
  | grouping inner _ => inner.ungrouped
  | unary operator right line => unary operator right.ungrouped line
  | binary left operator right line => binary left.ungrouped operator right.ungrouped line
  | logical left operator right line => logical left.ungrouped operator right.ungrouped line
  | call name arguments line => call name (ungroupedAll arguments) line
  | expr => expr

def ungroupedAll : List Expr → List Expr
  | [] => []
  | expr :: rest => expr.ungrouped :: ungroupedAll rest

end

theorem length_ungroupedAll (exprs : List Expr) :
    (ungroupedAll exprs).length = exprs.length := by
  induction exprs with
  | nil => rfl
  | cons expr rest ih => rw [ungroupedAll, List.length_cons, List.length_cons, ih]

theorem ungrouped_unwrapped : ∀ expr : Expr, expr.unwrapped.ungrouped = expr.ungrouped
  | grouping inner _ => ungrouped_unwrapped inner
  | int _ _ | float _ _ | bool _ _ | str _ _ | identifier _ _ | unary _ _ _ | binary _ _ _ _
  | logical _ _ _ _ | call _ _ _ => rfl

theorem line_ungrouped : ∀ expr : Expr, expr.ungrouped.line = expr.unwrapped.line
  | grouping inner _ => line_ungrouped inner
  | int _ _ | float _ _ | bool _ _ | str _ _ | identifier _ _ | unary _ _ _ | binary _ _ _ _
  | logical _ _ _ _ | call _ _ _ => rfl

theorem isCall_ungrouped : ∀ expr : Expr, expr.ungrouped.isCall = expr.unwrapped.isCall
  | grouping inner _ => isCall_ungrouped inner
  | int _ _ | float _ _ | bool _ _ | str _ _ | identifier _ _ | unary _ _ _ | binary _ _ _ _
  | logical _ _ _ _ | call _ _ _ => rfl

theorem unwrapped_unwrapped : ∀ expr : Expr, expr.unwrapped.unwrapped = expr.unwrapped
  | grouping inner _ => unwrapped_unwrapped inner
  | int _ _ | float _ _ | bool _ _ | str _ _ | identifier _ _ | unary _ _ _ | binary _ _ _ _
  | logical _ _ _ _ | call _ _ _ => rfl

end Expr

/-! ### Places -/

/-- What is known of a node where it stands. -/
structure Place where
  line : Line
  /-- The line of what stands in the groupings, if the node is one. -/
  bare : Line
  /-- Whether a return returns the node, with nothing but groupings between them. -/
  returned : Bool

namespace Place

/-- What is left of a place without its groupings: the line, and whether it is returned. -/
def remains (place : Place) : Line :=
  Nat.bit place.returned place.bare

def encode (place : Place) : Line :=
  Nat.pair place.line place.remains

def decode (code : Line) : Place :=
  ⟨code.unpair.1, code.unpair.2.div2, code.unpair.2.bodd⟩

@[simp] theorem decode_encode (place : Place) : decode place.encode = place := by
  simp [decode, encode, remains]

@[simp] theorem encode_decode (code : Line) : (decode code).encode = code := by
  simp [decode, encode, remains, Nat.bit_bodd_div2]

end Place

namespace Expr

def place (returned : Bool) (expr : Expr) : Place :=
  ⟨expr.line, expr.unwrapped.line, returned⟩

mutual

/-- The expression with the codes of the places of its nodes for lines. -/
def relabel (code : Place → Line) (returned : Bool) : Expr → Expr
  | int value line => int value (code ⟨line, line, returned⟩)
  | float value line => float value (code ⟨line, line, returned⟩)
  | bool value line => bool value (code ⟨line, line, returned⟩)
  | str value line => str value (code ⟨line, line, returned⟩)
  | identifier name line => identifier name (code ⟨line, line, returned⟩)
  | grouping inner line =>
    grouping (inner.relabel code returned) (code ⟨line, inner.unwrapped.line, returned⟩)
  | unary operator right line =>
    unary operator (right.relabel code false) (code ⟨line, line, returned⟩)
  | binary left operator right line =>
    binary (left.relabel code false) operator (right.relabel code false)
      (code ⟨line, line, returned⟩)
  | logical left operator right line =>
    logical (left.relabel code false) operator (right.relabel code false)
      (code ⟨line, line, returned⟩)
  | call name arguments line => call name (relabelAll code arguments) (code ⟨line, line, returned⟩)

def relabelAll (code : Place → Line) : List Expr → List Expr
  | [] => []
  | expr :: rest => expr.relabel code false :: relabelAll code rest

end

variable (code : Place → Line)

theorem relabelAll_eq_map (exprs : List Expr) :
    relabelAll code exprs = exprs.map (relabel code false) := by
  induction exprs with
  | nil => rfl
  | cons expr rest ih => rw [relabelAll, ih, List.map_cons]

theorem line_relabel (returned : Bool) (expr : Expr) :
    (expr.relabel code returned).line = code (expr.place returned) := by
  cases expr <;> rfl

theorem isCall_relabel (returned : Bool) (expr : Expr) :
    (expr.relabel code returned).isCall = expr.isCall := by
  cases expr <;> rfl

theorem unwrapped_relabel (returned : Bool) : ∀ expr : Expr,
    (expr.relabel code returned).unwrapped = expr.unwrapped.relabel code returned
  | grouping inner _ => unwrapped_relabel returned inner
  | int _ _ | float _ _ | bool _ _ | str _ _ | identifier _ _ | unary _ _ _ | binary _ _ _ _
  | logical _ _ _ _ | call _ _ _ => rfl

mutual

theorem relabel_line : ∀ (expr : Expr) (returned : Bool), expr.relabel Place.line returned = expr
  | grouping inner _, returned => by
    rw [relabel, relabel_line inner]
  | unary _ right _, _ => by
    rw [relabel, relabel_line right]
  | binary left _ right _, _ | logical left _ right _, _ => by
    rw [relabel, relabel_line left, relabel_line right]
  | call _ arguments _, _ => by
    rw [relabel, relabelAll_line arguments]
  | int _ _, _ | float _ _, _ | bool _ _, _ | str _ _, _ | identifier _ _, _ => rfl

theorem relabelAll_line : ∀ exprs : List Expr, relabelAll Place.line exprs = exprs
  | [] => rfl
  | expr :: rest => by
    rw [relabelAll, relabel_line expr, relabelAll_line rest]

end

mutual

theorem rename_relabel (move : Line → Line) : ∀ (expr : Expr) (returned : Bool),
    (expr.relabel code returned).rename (.ofLines move) = expr.relabel (move ∘ code) returned
  | grouping inner _, returned => by
    rw [relabel, rename, rename_relabel move inner]
    rfl
  | unary _ right _, _ => by
    rw [relabel, rename, rename_relabel move right]
    rfl
  | binary left _ right _, _ | logical left _ right _, _ => by
    rw [relabel, rename, rename_relabel move left, rename_relabel move right]
    rfl
  | call _ arguments _, _ => by
    rw [relabel, rename, renameAll_relabelAll move arguments]
    rfl
  | int _ _, _ | float _ _, _ | bool _ _, _ | str _ _, _ | identifier _ _, _ => rfl

theorem renameAll_relabelAll (move : Line → Line) : ∀ exprs : List Expr,
    renameAll (.ofLines move) (relabelAll code exprs) = relabelAll (move ∘ code) exprs
  | [] => rfl
  | expr :: rest => by
    rw [relabelAll, renameAll, rename_relabel move expr, renameAll_relabelAll move rest, relabelAll]

end

mutual

/-- The expression is without its groupings what it is if it was relabelled before, provided that
the line can be told from the codes. -/
theorem rename_ungrouped_relabel {move : Line → Line}
    (hmove : ∀ line returned, move (code ⟨line, line, returned⟩) = line) :
    ∀ (expr : Expr) (returned : Bool),
      (expr.relabel code returned).ungrouped.rename (.ofLines move) = expr.ungrouped
  | grouping inner _, returned => rename_ungrouped_relabel hmove inner returned
  | unary _ right _, returned => by
    rw [relabel, ungrouped, rename, rename_ungrouped_relabel hmove right, ungrouped]
    exact congrArg _ (hmove _ returned)
  | binary left _ right _, returned | logical left _ right _, returned => by
    rw [relabel, ungrouped, rename, rename_ungrouped_relabel hmove left,
      rename_ungrouped_relabel hmove right, ungrouped]
    exact congrArg _ (hmove _ returned)
  | call _ arguments _, returned => by
    rw [relabel, ungrouped, rename, renameAll_ungroupedAll hmove arguments, ungrouped]
    exact congrArg _ (hmove _ returned)
  | int _ _, returned | float _ _, returned | bool _ _, returned | str _ _, returned
  | identifier _ _, returned => congrArg _ (hmove _ returned)

theorem renameAll_ungroupedAll {move : Line → Line}
    (hmove : ∀ line returned, move (code ⟨line, line, returned⟩) = line) :
    ∀ exprs : List Expr,
      renameAll (.ofLines move) (ungroupedAll (relabelAll code exprs)) = ungroupedAll exprs
  | [] => rfl
  | expr :: rest => by
    rw [relabelAll, ungroupedAll, renameAll, rename_ungrouped_relabel hmove expr,
      renameAll_ungroupedAll hmove rest, ungroupedAll]

end

theorem operands_relabel (returned : Bool) (expr : Expr) :
    (expr.relabel code returned).operands =
      expr.operands.map (relabel code (expr.isGrouping && returned)) := by
  cases expr <;> simp [relabel, operands, isGrouping, relabelAll_eq_map]

theorem unwrapped_operand {expr operand : Expr} (hexpr : expr.isGrouping)
    (hoperand : operand ∈ expr.operands) : operand.unwrapped = expr.unwrapped := by
  cases expr with
  | grouping inner line => rw [List.mem_singleton.mp hoperand, unwrapped]
  | _ => cases hexpr

/-- The parts of an expression relabelled. A part is only returned if the expression is, and then
there are only groupings around it. -/
theorem mem_parts_relabel {expr part : Expr} {returned : Bool}
    (h : part ∈ (expr.relabel code returned).parts) :
    ∃ (original : Expr) (returned' : Bool), part = original.relabel code returned' ∧
      (returned' = true → returned = true ∧ original.unwrapped = expr.unwrapped) := by
  induction expr using induction_operands generalizing returned with
  | step expr ih =>
    rw [parts_eq, List.mem_cons, operands_relabel] at h
    rcases h with rfl | hinside
    · exact ⟨expr, returned, rfl, fun hreturned ↦ ⟨hreturned, rfl⟩⟩
    · obtain ⟨_, hmapped, hpart⟩ := mem_partsOfAll.mp hinside
      obtain ⟨operand, hoperand, rfl⟩ := List.mem_map.mp hmapped
      obtain ⟨original, returned', rfl, hreturned⟩ := ih operand hoperand hpart
      refine ⟨original, returned', rfl, fun h ↦ ?_⟩
      obtain ⟨hboth, hunwrapped⟩ := hreturned h
      obtain ⟨hgrouping, houter⟩ := Bool.and_eq_true_iff.mp hboth
      exact ⟨houter, hunwrapped.trans (unwrapped_operand hgrouping hoperand)⟩

end Expr

/-! ### Programs -/

/-- To erase all groupings. -/
def Recast.ungrouping : Recast where
  operand := Expr.ungrouped
  returned := Expr.ungrouped

/-- To write the codes of the places. -/
def Recast.relabelling (code : Place → Line) : Recast where
  line line := code ⟨line, line, false⟩
  operand := Expr.relabel code false
  returned := Expr.relabel code true

/-- Whether a statement is a return of a call in parentheses. -/
def Stmt.returnsGroupedCall : Stmt → Bool
  | ret (some expr) _ => expr.isGrouping && expr.unwrapped.isCall
  | _ => false

/-- The expressions of a statement relabelled. One is only returned if the statement returns it. -/
theorem Stmt.mem_operands_relabel {code : Place → Line} {stmt : Stmt} {operand : Expr}
    (h : operand ∈ (stmt.recast (.relabelling code)).operands) :
    ∃ (expr : Expr) (returned : Bool), operand = expr.relabel code returned ∧
      (returned = true → ∃ line, stmt = ret (some expr) line ∧ expr.isCall = false) := by
  have hplain : ∀ exprs : List Expr, operand ∈ exprs.map (Expr.relabel code false) →
      ∃ (expr : Expr) (returned : Bool), operand = expr.relabel code returned ∧
        (returned = true → ∃ line, stmt = ret (some expr) line ∧ expr.isCall = false) := by
    intro exprs hexprs
    obtain ⟨expr, -, rfl⟩ := List.mem_map.mp hexprs
    exact ⟨expr, false, rfl, nofun⟩
  cases stmt with
  | ret value line =>
    cases value with
    | none => cases h
    | some expr =>
      cases expr with
      | call name arguments line' =>
        refine hplain arguments ?_
        rw [← Expr.relabelAll_eq_map]
        exact h
      | _ => exact ⟨_, true, List.mem_singleton.mp h, fun _ ↦ ⟨line, rfl, rfl⟩⟩
  | print value _ _ | assign _ value _ => exact hplain [value] h
  | ifThen condition _ _ | ifElse condition _ _ _ | whileLoop condition _ _ =>
    exact hplain [condition] h
  | forLoop _ start stop step _ _ =>
    refine hplain (start :: stop :: step.toList) ?_
    cases step <;> exact h
  | declare _ value _ =>
    refine hplain value.toList ?_
    cases value <;> exact h
  | call _ arguments _ => exact hplain arguments h
  | block _ _ | function _ _ _ _ => cases h

namespace Node

/-- The program with no groupings, in the bodies of functions either. -/
def ungrouped (program : Node) : Node :=
  program.recast .ungrouping

def relabel (code : Place → Line) (program : Node) : Node :=
  program.recast (.relabelling code)

/-- The program with all that is known of the places of its nodes on the nodes. -/
def placed (program : Node) : Node :=
  program.relabel Place.encode

variable (code : Place → Line)

theorem rename_relabel (move : Line → Line) (program : Node) :
    (program.relabel code).rename (.ofLines move) = program.relabel (move ∘ code) := by
  have hcomp : (Recast.ofLines move).comp (.relabelling code) = .relabelling (move ∘ code) :=
    Recast.ext rfl (funext fun expr ↦ expr.rename_relabel code move false)
      (funext fun expr ↦ expr.rename_relabel code move true)
  rw [rename_ofLines, relabel, recast_recast, hcomp, relabel]

theorem relabel_line (program : Node) : program.relabel Place.line = program := by
  have hrelabel : Recast.relabelling Place.line = {} :=
    Recast.ext rfl (funext fun expr ↦ expr.relabel_line false)
      (funext fun expr ↦ expr.relabel_line true)
  rw [relabel, hrelabel, recast_id]

theorem rename_ungrouped_relabel {move : Line → Line}
    (hmove : ∀ line returned, move (code ⟨line, line, returned⟩) = line) (program : Node) :
    (program.relabel code).ungrouped.rename (.ofLines move) = program.ungrouped := by
  have hcomp : ((Recast.ofLines move).comp .ungrouping).comp (.relabelling code) = .ungrouping :=
    Recast.ext (funext fun line ↦ hmove line false)
      (funext fun expr ↦ expr.rename_ungrouped_relabel code hmove false)
      (funext fun expr ↦ expr.rename_ungrouped_relabel code hmove true)
  rw [rename_ofLines, ungrouped, relabel, recast_recast, recast_recast, hcomp, ungrouped]

/-! ### Parts -/

variable {code}

theorem mem_stmts_relabel {program : Node} {stmt : Stmt} (h : stmt ∈ (program.relabel code).stmts) :
    ∃ original ∈ program.stmts, original.recast (.relabelling code) = stmt := by
  rw [relabel, stmts_recast] at h
  exact List.mem_map.mp h

/-- The expressions of a program relabelled. A call is only returned from parentheses, since one
that a return has directly is no expression of the program. -/
theorem mem_exprs_relabel {program : Node} {part : Expr} (h : part ∈ (program.relabel code).exprs) :
    ∃ (expr : Expr) (returned : Bool), part = expr.relabel code returned ∧
      (returned = true → expr.isCall → ∃ stmt ∈ program.stmts, stmt.returnsGroupedCall) := by
  cases program with
  | expr root =>
    obtain ⟨expr, returned, rfl, hreturned⟩ := Expr.mem_parts_relabel code h
    exact ⟨expr, returned, rfl, fun h ↦ absurd (hreturned h).1 Bool.false_ne_true⟩
  | stmt root =>
    obtain ⟨part', hmapped, hpart⟩ := List.mem_flatMap.mp h
    have hmapped : part' ∈ ((Node.stmt root).relabel code).stmts := hmapped
    obtain ⟨stmt, hstmt, rfl⟩ := mem_stmts_relabel hmapped
    obtain ⟨_, hoperand, hpart⟩ := Expr.mem_partsOfAll.mp hpart
    obtain ⟨operand, outer, rfl, houter⟩ := Stmt.mem_operands_relabel hoperand
    obtain ⟨expr, returned, rfl, hreturned⟩ := Expr.mem_parts_relabel code hpart
    refine ⟨expr, returned, rfl, fun h hcall ↦ ⟨stmt, hstmt, ?_⟩⟩
    obtain ⟨hreturns, hunwrapped⟩ := hreturned h
    obtain ⟨line, rfl, hdirect⟩ := houter hreturns
    cases expr with
    | call name arguments line' =>
      cases operand with
      | grouping inner line'' =>
        rw [Stmt.returnsGroupedCall, ← hunwrapped]
        rfl
      | call _ _ _ => cases hdirect
      | _ => cases hunwrapped
    | _ => cases hcall

end Node

end Treewalk
