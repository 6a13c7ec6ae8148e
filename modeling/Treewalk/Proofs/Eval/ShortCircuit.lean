import Treewalk.Eval.Basic
import Treewalk.Scope.Store

/-!
# Chains of logical operators

Operands joined by `and` are evaluated from left to right, up to the first that stops or is falsy,
however the chain is nested and grouped; likewise by `or`, up to the first that is truthy
(`short_circuit_scan`). A decided value is passed through every node that is left of it in the tree
and tested again at each. There it decides again, so nothing that follows is evaluated: a scan of
two rows of operands is the scan of the second after that of the first (`scan_append`).
-/

set_option autoImplicit false
set_option relaxedAutoImplicit false

namespace Treewalk

/-- Operands joined by one logical operator, nested and grouped in some way. -/
inductive LogicalTree where
  | leaf (operand : Expr)
  | grouping (inner : LogicalTree) (line : Line)
  | node (left right : LogicalTree) (line : Line)

namespace LogicalTree

def expr (operator : LogicalOp) : LogicalTree → Expr
  | leaf operand => operand
  | grouping inner line => .grouping (inner.expr operator) line
  | node left right line => .logical (left.expr operator) operator (right.expr operator) line

/-- The operands from left to right. -/
def leaves : LogicalTree → List Expr
  | leaf operand => [operand]
  | grouping inner _ => inner.leaves
  | node left right _ => left.leaves ++ right.leaves

theorem exists_leaves (tree : LogicalTree) : ∃ first rest, tree.leaves = first :: rest := by
  induction tree with
  | leaf operand => exact ⟨operand, [], rfl⟩
  | grouping inner line ih => exact ih
  | node left right line ihLeft ihRight =>
    obtain ⟨first, rest, hleft⟩ := ihLeft
    exact ⟨first, rest ++ right.leaves, by rw [leaves, hleft, List.cons_append]⟩

end LogicalTree

variable {S : Type} [Scopes S]

/-! ### Scans -/

section Scan

variable (invoke : Invoke S) (env : FrameId) (decides : Value → Bool)

/-- Goes on from a value through further operands, unless the value decides. -/
def scanFrom (value : Value) : List Expr → EvalM S Value
  | [] => pure value
  | operand :: rest =>
    if decides value then
      pure value
    else do
      let next ← evalExpr invoke env operand
      scanFrom next rest

/-- Evaluates operands in turn, up to the first that stops or whose value decides, and gives the
value that it has come to. -/
def scan (first : Expr) (rest : List Expr) : EvalM S Value := do
  let value ← evalExpr invoke env first
  scanFrom invoke env decides value rest

theorem scanFrom_of_decides {value : Value} (h : decides value = true) (operands : List Expr) :
    scanFrom invoke env decides value operands = pure value := by
  cases operands with
  | nil => rfl
  | cons operand rest => rw [scanFrom, if_pos h]

theorem scanFrom_append (value : Value) (operands others : List Expr) :
    scanFrom invoke env decides value (operands ++ others) =
      scanFrom invoke env decides value operands >>= fun last ↦
        scanFrom invoke env decides last others := by
  induction operands generalizing value with
  | nil => rw [scanFrom, pure_bind, List.nil_append]
  | cons operand rest ih =>
    rw [List.cons_append, scanFrom, scanFrom]
    by_cases h : decides value = true
    · rw [if_pos h, if_pos h, pure_bind, scanFrom_of_decides invoke env decides h]
    · rw [if_neg h, if_neg h, bind_assoc]
      exact bind_congr ih

/-- A scan that goes on with other operands tests the value that it has come to once more. -/
theorem scan_append (first next : Expr) (rest others : List Expr) :
    scan invoke env decides first (rest ++ next :: others) =
      scan invoke env decides first rest >>= fun value ↦
        if decides value then pure value else scan invoke env decides next others := by
  unfold scan
  rw [bind_assoc]
  exact bind_congr fun value ↦ scanFrom_append invoke env decides value rest (next :: others)

end Scan

/-! ### Trees -/

/-- An operator evaluates what it joins by a scan for the first value that decides it. -/
theorem evalExpr_tree (invoke : Invoke S) (env : FrameId) (operator : LogicalOp)
    (tree : LogicalTree) {first : Expr} {rest : List Expr} (h : tree.leaves = first :: rest) :
    evalExpr invoke env (tree.expr operator) = scan invoke env operator.decidedBy first rest := by
  induction tree generalizing first rest with
  | leaf operand =>
    obtain ⟨rfl, rfl⟩ := List.cons_eq_cons.mp h
    exact (bind_pure _).symm
  | grouping inner line ih =>
    rw [LogicalTree.expr, evalExpr]
    exact ih h
  | node left right line ihLeft ihRight =>
    obtain ⟨first', rest', hleft⟩ := left.exists_leaves
    obtain ⟨next, others, hright⟩ := right.exists_leaves
    rw [LogicalTree.leaves, hleft, hright, List.cons_append] at h
    obtain ⟨rfl, rfl⟩ := List.cons_eq_cons.mp h
    rw [LogicalTree.expr, evalExpr, ihLeft hleft, ihRight hright, scan_append]

/-- A chain of `and` yields the value of its first falsy operand, and of its last operand if there
is none; a chain of `or` that of its first truthy operand likewise. The operands up to there are
evaluated from left to right, those behind it are not evaluated, and the shape of the tree does not
matter. -/
theorem short_circuit_scan (invoke : Invoke S) (env : FrameId) {tree : LogicalTree} {first : Expr}
    {rest : List Expr} (h : tree.leaves = first :: rest) :
    evalExpr invoke env (tree.expr .and) =
        scan invoke env (fun value ↦ !value.isTruthy) first rest ∧
      evalExpr invoke env (tree.expr .or) = scan invoke env Value.isTruthy first rest :=
  ⟨evalExpr_tree invoke env .and tree h, evalExpr_tree invoke env .or tree h⟩

/-- NaN does not decide an `and`, but the empty string behind it does, so the call of a function
that is nowhere declared is not evaluated. -/
theorem short_circuit_scan_undeclared :
    let operands : List Expr := [.str "" 1, .call "f" [] 1]
    let tree : LogicalTree :=
      .node (.leaf (.float .signalingNaN 1))
        (.grouping (.node (.leaf (.str "" 1)) (.leaf (.call "f" [] 1)) 1) 1) 1
    let chain := evalExpr (calls 0 0) 0 (tree.expr .and)
    tree.leaves = .float .signalingNaN 1 :: operands ∧
      chain = scan (calls 0 0) 0 (fun value ↦ !value.isTruthy) (.float .signalingNaN 1) operands ∧
      (chain ({ scopes := {} } : State Store)).1 = .ok (.string "") := by
  intro operands tree chain
  have hleaves : tree.leaves = .float .signalingNaN 1 :: operands := rfl
  exact ⟨hleaves, (short_circuit_scan (calls 0 0) 0 hleaves).1, by rfl⟩

end Treewalk
