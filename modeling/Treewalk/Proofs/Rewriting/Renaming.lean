import Treewalk.Evaluator
import Treewalk.Proofs.Operation.Kinds
import Treewalk.Proofs.Scope.Chain
import Treewalk.Proofs.Syntax.Renaming

/-!
# Names and lines are arbitrary

A program that is renamed does what it did before: it finishes with as much fuel, writes the same
bytes and comes to the same result, with the names and lines of an error renamed
(`run_rename`). The two runs keep step. Their frames hold the same variables and functions under
the names that the renaming gives them, and no look-up can go wrong since it gives no two of either
one name. `Renames` says this of two computations, and one lemma for each construct of the language
leads from its parts to the whole.
-/

set_option autoImplicit false
set_option relaxedAutoImplicit false

namespace Treewalk

variable {ρ : Renaming}

/-! ### Stores with other names -/

namespace Store

/-- Two stores with the same frames and outer links, where the second holds the variables and
functions of the first under their new names. -/
structure RenamedTo (ρ : Renaming) (first second : Store) : Prop where
  size : second.frames.size = first.frames.size
  outer : ∀ id, second.outer? id = first.outer? id
  bindings : ∀ id name, second.binding? (ρ.ofVariable name) id = first.binding? name id
  functions : ∀ id name, second.function? (ρ.ofFunction name) id =
    (first.function? name id).map (Function.rename ρ)

variable {first second : Store} (id : FrameId) (name : String)

namespace RenamedTo

theorem empty : RenamedTo ρ {} {} where
  size := rfl
  outer _ := rfl
  bindings id name := by simp [binding?]
  functions id name := by simp [function?]

theorem chain (h : RenamedTo ρ first second) : second.chain id = first.chain id :=
  chain_congr h.size h.outer id

theorem get? (h : RenamedTo ρ first second) :
    second.get? id (ρ.ofVariable name) = first.get? id name := by
  rw [Store.get?, Store.get?, h.chain]
  exact findSome?_congr fun frame _ ↦ h.bindings frame name

theorem owner? (h : RenamedTo ρ first second) :
    second.owner? id (ρ.ofVariable name) = first.owner? id name := by
  rw [Store.owner?, Store.owner?, h.chain]
  exact List.find?_congr fun frame _ ↦ by rw [h.bindings frame name]

theorem closure? (h : RenamedTo ρ first second) :
    second.closure? id (ρ.ofFunction name) = (first.closure? id name).map (Closure.rename ρ) := by
  rw [Store.closure?, Store.closure?, h.chain, List.map_findSome?]
  refine findSome?_congr fun frame _ ↦ ?_
  rw [h.functions, Function.comp_apply, Option.map_map, Option.map_map]
  rfl

theorem openFrame (h : RenamedTo ρ first second) (outer : Option FrameId) :
    RenamedTo ρ (first.openFrame outer).2 (second.openFrame outer).2 where
  size := by rw [size_openFrame, size_openFrame, h.size]
  outer other := by rw [outer?_openFrame, outer?_openFrame, h.size, h.outer]
  bindings other asked := by rw [binding?_openFrame, binding?_openFrame, h.size, h.bindings]
  functions other asked := by
    rw [function?_openFrame, function?_openFrame, h.size, h.functions]
    split_ifs <;> rfl

theorem declare (h : RenamedTo ρ first second) (binding : Binding) :
    RenamedTo ρ (first.declare id name binding)
      (second.declare id (ρ.ofVariable name) binding) where
  size := by rw [size_declare, size_declare, h.size]
  outer other := by rw [outer?_declare, outer?_declare, h.outer]
  bindings other asked := by
    rw [binding?_declare, binding?_declare, h.size, h.bindings]
    simp only [ρ.ofVariable_injective.eq_iff]
  functions other asked := by rw [function?_declare, function?_declare, h.functions]

theorem assign (h : RenamedTo ρ first second) (value : Value) :
    RenamedTo ρ (first.assign id name value) (second.assign id (ρ.ofVariable name) value) := by
  unfold Store.assign
  rw [h.owner?]
  exact h.declare _ name (.set value)

theorem declareFunction (h : RenamedTo ρ first second) (function : Function) :
    RenamedTo ρ (first.declareFunction id function)
      (second.declareFunction id (function.rename ρ)) where
  size := by rw [size_declareFunction, size_declareFunction, h.size]
  outer other := by rw [outer?_declareFunction, outer?_declareFunction, h.outer]
  bindings other asked := by
    rw [binding?_declareFunction, binding?_declareFunction, h.bindings]
  functions other asked := by
    rw [function?_declareFunction, function?_declareFunction, h.size, h.functions]
    simp only [Function.name_rename, ρ.ofFunction_injective.eq_iff]
    split_ifs <;> rfl

end RenamedTo

end Store

/-! ### Sinks with other lines -/

namespace Sink

/-- Two sinks in which the same bytes were left, perhaps by other lines. -/
structure SameBytes (first second : Sink) : Prop where
  room : second.room = first.room
  refusal : second.refusal = first.refusal
  flushFailure : second.flushFailure = first.flushFailure
  bytes : second.chunks.toList.map Chunk.bytes = first.chunks.toList.map Chunk.bytes

variable {first second : Sink}

theorem SameBytes.refl (sink : Sink) : sink.SameBytes sink :=
  ⟨rfl, rfl, rfl, rfl⟩

theorem SameBytes.fits (h : first.SameBytes second) (bytes : List UInt8) :
    second.fits bytes = first.fits bytes := by
  rw [Sink.fits, Sink.fits, h.room]

theorem SameBytes.write (h : first.SameBytes second) (line line' : Line) (bytes : List UInt8) :
    (first.write line bytes).SameBytes (second.write line' bytes) where
  room := congrArg (Option.map (· - bytes.length)) h.room
  refusal := h.refusal
  flushFailure := h.flushFailure
  bytes := by
    have hfitting : second.fitting bytes = first.fitting bytes := by
      rw [fitting, fitting, h.room]
    simp only [Sink.write, Array.toList_push, List.map_append, List.map_cons, List.map_nil,
      h.bytes, hfitting]

theorem SameBytes.output (h : first.SameBytes second) : second.output = first.output := by
  simp only [Sink.output, outputFrom, List.drop_zero, List.flatMap_def, h.bytes]

end Sink

/-! ### Computations side by side -/

/-- The state of a run and that of the run of the program renamed. -/
structure State.RenamedTo (ρ : Renaming) (s t : State Store) : Prop where
  scopes : s.scopes.RenamedTo ρ t.scopes
  depth : t.depth = s.depth
  sink : s.sink.SameBytes t.sink

variable {α β γ δ : Type}

/-- An outcome with its result changed or its error renamed. -/
def Renaming.outcome (ρ : Renaming) (change : α → β) : Except Stop α → Except Stop β
  | .ok result => .ok (change result)
  | .error stop => .error (stop.rename ρ)

/-- What a run has come to, and what that of the program renamed has. -/
structure Renaming.Follows (ρ : Renaming) (change : α → β) (first : Except Stop α × State Store)
    (second : Except Stop β × State Store) : Prop where
  outcome : second.1 = ρ.outcome change first.1
  state : first.2.RenamedTo ρ second.2

/-- From states that differ by the renaming, the second computation comes to the outcome of the
first, renamed, and they leave states that differ by the renaming. -/
def Renames (ρ : Renaming) (change : α → β) (first : EvalM Store α) (second : EvalM Store β) :
    Prop :=
  ∀ s t, s.RenamedTo ρ t → ρ.Follows change (first s) (second t)

namespace Renames

variable {change : α → β} {change' : γ → δ}

theorem pure (change : α → β) (result : α) :
    Renames ρ change (Pure.pure result) (Pure.pure (change result)) :=
  fun _ _ h ↦ ⟨rfl, h⟩

theorem fail (fault : Fault) (line : Line) :
    Renames ρ change (EvalM.fail fault line) (EvalM.fail (fault.rename ρ) (ρ.ofLine line)) :=
  fun _ _ h ↦ ⟨rfl, h⟩

theorem outOfFuel : Renames ρ change EvalM.outOfFuel EvalM.outOfFuel :=
  fun _ _ h ↦ ⟨rfl, h⟩

theorem bind {first : EvalM Store α} {second : EvalM Store β} {next : α → EvalM Store γ}
    {next' : β → EvalM Store δ} (hfirst : Renames ρ change first second)
    (hnext : ∀ result, Renames ρ change' (next result) (next' (change result))) :
    Renames ρ change' (first >>= next) (second >>= next') := by
  intro s t h
  have hfollows := hfirst s t h
  rw [EvalM.bind_apply, EvalM.bind_apply]
  generalize first s = left, second t = right at hfollows ⊢
  obtain ⟨outcome, after⟩ := left
  obtain ⟨outcome', after'⟩ := right
  obtain ⟨rfl, hstate⟩ := hfollows
  cases outcome with
  | error stop => exact ⟨rfl, hstate⟩
  | ok result => exact hnext result after after' hstate

/-- Where the results of the first parts are the same, the rest is compared at them. -/
theorem bind_id {first second : EvalM Store α} {next : α → EvalM Store γ}
    {next' : α → EvalM Store δ} (hfirst : Renames ρ id first second)
    (hnext : ∀ result, Renames ρ change' (next result) (next' result)) :
    Renames ρ change' (first >>= next) (second >>= next') :=
  hfirst.bind hnext

theorem andThen {first rest first' rest' : EvalM Store Flow} (hfirst : Renames ρ id first first')
    (hrest : Renames ρ id rest rest') :
    Renames ρ id (EvalM.andThen first rest) (EvalM.andThen first' rest') := by
  refine hfirst.bind_id fun flow ↦ ?_
  cases flow with
  | normal => exact hrest
  | returned value => exact .pure id _

theorem whileLoop {test test' : EvalM Store Bool} {body body' : EvalM Store Flow}
    (htest : Renames ρ id test test') (hbody : Renames ρ id body body') (fuel : Nat) :
    Renames ρ id (EvalM.whileLoop test body fuel) (EvalM.whileLoop test' body' fuel) := by
  induction fuel with
  | zero => exact .outOfFuel
  | succ fuel ih =>
    unfold EvalM.whileLoop
    refine htest.bind_id fun holds ↦ ?_
    cases holds with
    | false => exact .pure id _
    | true => exact hbody.andThen ih

theorem forLoop (progression : Progression) {setCounter setCounter' : Float → EvalM Store Unit}
    {body body' : EvalM Store Flow}
    (hset : ∀ current, Renames ρ id (setCounter current) (setCounter' current))
    (hbody : Renames ρ id body body') (fuel : Nat) (current : Float) :
    Renames ρ id (EvalM.forLoop progression setCounter body fuel current)
      (EvalM.forLoop progression setCounter' body' fuel current) := by
  induction fuel generalizing current with
  | zero => exact .outOfFuel
  | succ fuel ih =>
    unfold EvalM.forLoop
    by_cases hincludes : progression.includes current = true
    · rw [if_pos hincludes, if_pos hincludes]
      exact (hset current).bind_id fun _ ↦ hbody.andThen (ih _)
    · rw [if_neg hincludes, if_neg hincludes]
      exact .pure id _

theorem deeper {first second : EvalM Store α} (h : Renames ρ id first second) (limit : Nat)
    (line : Line) :
    Renames ρ id (EvalM.deeper limit line first) (EvalM.deeper limit (ρ.ofLine line) second) := by
  intro s t hst
  unfold EvalM.deeper
  rw [hst.depth]
  by_cases hroom : s.depth < limit
  · rw [if_pos hroom, if_pos hroom]
    have hbody := h { s with depth := s.depth + 1 } { t with depth := s.depth + 1 }
      ⟨hst.scopes, rfl, hst.sink⟩
    exact ⟨hbody.outcome, hbody.state.scopes, congrArg (· - 1) hbody.state.depth, hbody.state.sink⟩
  · rw [if_neg hroom, if_neg hroom]
    exact ⟨rfl, hst⟩

/-! ### The computations that touch the state -/

variable (env : FrameId) (name : String) (line : Line)

theorem read : Renames ρ id (EvalM.read env name line)
    (EvalM.read env (ρ.ofVariable name) (ρ.ofLine line)) := by
  intro s t h
  have hget : Scopes.get? t.scopes env (ρ.ofVariable name) = Scopes.get? s.scopes env name :=
    h.scopes.get? env name
  unfold EvalM.read
  rw [hget]
  rcases Scopes.get? s.scopes env name with _ | _ | value <;> exact ⟨rfl, h⟩

theorem resolve (count : Nat) : Renames ρ (Closure.rename ρ) (EvalM.resolve env name count line)
    (EvalM.resolve env (ρ.ofFunction name) count (ρ.ofLine line)) := by
  intro s t h
  have hclosure : Scopes.closure? t.scopes env (ρ.ofFunction name) =
      (Scopes.closure? s.scopes env name).map (Closure.rename ρ) :=
    h.scopes.closure? env name
  unfold EvalM.resolve
  rw [hclosure]
  rcases Scopes.closure? s.scopes env name with _ | closure
  · exact ⟨rfl, h⟩
  · have hparameters : (closure.rename ρ).function.parameters.length =
        closure.function.parameters.length := List.length_map _
    rw [Option.map_some]
    dsimp only
    rw [hparameters]
    by_cases harity : closure.function.parameters.length = count
    · rw [if_pos harity, if_pos harity]
      exact ⟨rfl, h⟩
    · rw [if_neg harity, if_neg harity]
      exact ⟨rfl, h⟩

theorem openFrame : Renames ρ id (EvalM.openFrame env) (EvalM.openFrame env) :=
  fun _ _ h ↦ ⟨congrArg Except.ok h.scopes.size, h.scopes.openFrame (some env), h.depth, h.sink⟩

theorem assign (value : Value) :
    Renames ρ id (EvalM.assign env name value) (EvalM.assign env (ρ.ofVariable name) value) :=
  fun _ _ h ↦ ⟨rfl, h.scopes.assign env name value, h.depth, h.sink⟩

theorem declare (binding : Binding) :
    Renames ρ id (EvalM.declare env name binding)
      (EvalM.declare env (ρ.ofVariable name) binding) :=
  fun _ _ h ↦ ⟨rfl, h.scopes.declare env name binding, h.depth, h.sink⟩

theorem declareFunction (function : Function) :
    Renames ρ id (EvalM.declareFunction env function)
      (EvalM.declareFunction env (function.rename ρ)) :=
  fun _ _ h ↦ ⟨rfl, h.scopes.declareFunction env function, h.depth, h.sink⟩

theorem write (text : String) :
    Renames ρ id (EvalM.write line text) (EvalM.write (ρ.ofLine line) text) := by
  intro s t h
  rw [EvalM.write_apply, EvalM.write_apply, h.sink.fits, h.sink.refusal]
  refine ⟨?_, h.scopes, h.depth, h.sink.write _ _ _⟩
  dsimp only
  split_ifs <;> rfl

end Renames

/-! ### Expressions -/

/-- Two ways to run calls, the second with renamed functions. -/
def RenamesCalls (ρ : Renaming) (invoke invoke' : Invoke Store) : Prop :=
  ∀ closure values line, Renames ρ id (invoke closure values line)
    (invoke' (closure.rename ρ) values (ρ.ofLine line))

variable {invoke invoke' : Invoke Store}

theorem UnaryOp.renames_apply (op : UnaryOp) (right : Value) (line : Line) :
    Renames ρ id (EvalM.ofExcept line (op.apply right))
      (EvalM.ofExcept (ρ.ofLine line) (op.apply right)) := by
  rcases happly : op.apply right with fault | value
  · obtain ⟨-, rfl⟩ := apply_eq_error happly
    exact .fail _ line
  · exact .pure id value

theorem BinaryOp.renames_apply (op : BinaryOp) (left right : Value) (line : Line) :
    Renames ρ id (EvalM.ofExcept line (op.apply left right))
      (EvalM.ofExcept (ρ.ofLine line) (op.apply left right)) := by
  rcases happly : op.apply left right with fault | value
  · rcases apply_eq_error happly with ⟨-, rfl⟩ | ⟨-, rfl⟩
    · exact .fail _ line
    · exact .fail _ line
  · exact .pure id value

/-- A call is renamed if its arguments are. -/
theorem renames_call (hinvoke : RenamesCalls ρ invoke invoke') (env : FrameId) (name : String)
    {arguments : List Expr} (line : Line)
    (harguments : Renames ρ id (evalArguments invoke env arguments)
      (evalArguments invoke' env (Expr.renameAll ρ arguments))) :
    Renames ρ id (evalCall invoke env name arguments line)
      (evalCall invoke' env (ρ.ofFunction name) (Expr.renameAll ρ arguments) (ρ.ofLine line)) := by
  unfold evalCall
  rw [Expr.length_renameAll]
  refine (Renames.resolve env name line _).bind fun closure ↦ ?_
  exact harguments.bind_id fun values ↦ hinvoke closure values line

theorem renames_demand (name : String) (line : Line) (result : Option Value) :
    Renames ρ id (demand name line result) (demand (ρ.ofFunction name) (ρ.ofLine line) result) := by
  cases result with
  | none => exact .fail _ line
  | some value => exact .pure id value

mutual

theorem renames_evalExpr (hinvoke : RenamesCalls ρ invoke invoke') (env : FrameId) :
    ∀ expr : Expr, Renames ρ id (evalExpr invoke env expr) (evalExpr invoke' env (expr.rename ρ))
  | .int _ _ | .float _ _ | .bool _ _ | .str _ _ => by
    simp only [Expr.rename, evalExpr]
    exact .pure id _
  | .identifier name line => by
    simp only [Expr.rename, evalExpr]
    exact .read env name line
  | .grouping inner _ => by
    simp only [Expr.rename, evalExpr]
    exact renames_evalExpr hinvoke env inner
  | .unary operator right line => by
    simp only [Expr.rename, evalExpr]
    exact (renames_evalExpr hinvoke env right).bind_id fun value ↦
      operator.renames_apply value line
  | .binary left operator right line => by
    simp only [Expr.rename, evalExpr]
    refine (renames_evalExpr hinvoke env left).bind_id fun first ↦ ?_
    exact (renames_evalExpr hinvoke env right).bind_id fun second ↦
      operator.renames_apply first second line
  | .logical left operator right _ => by
    simp only [Expr.rename, evalExpr]
    refine (renames_evalExpr hinvoke env left).bind_id fun first ↦ ?_
    by_cases hdecided : operator.decidedBy first = true
    · rw [if_pos hdecided, if_pos hdecided]
      exact .pure id first
    · rw [if_neg hdecided, if_neg hdecided]
      exact renames_evalExpr hinvoke env right
  | .call name arguments line => by
    rw [Expr.rename, evalExpr_call, evalExpr_call]
    refine (renames_call hinvoke env name line
      (renames_evalArguments hinvoke env arguments)).bind_id fun result ↦ ?_
    exact renames_demand name line result

theorem renames_evalArguments (hinvoke : RenamesCalls ρ invoke invoke') (env : FrameId) :
    ∀ arguments : List Expr, Renames ρ id (evalArguments invoke env arguments)
      (evalArguments invoke' env (Expr.renameAll ρ arguments))
  | [] => by
    simp only [Expr.renameAll, evalArguments]
    exact .pure id []
  | argument :: rest => by
    simp only [Expr.renameAll, evalArguments]
    refine (renames_evalExpr hinvoke env argument).bind_id fun value ↦ ?_
    exact (renames_evalArguments hinvoke env rest).bind_id fun values ↦ .pure id _

end

theorem renames_evalCall (hinvoke : RenamesCalls ρ invoke invoke') (env : FrameId) (name : String)
    (arguments : List Expr) (line : Line) :
    Renames ρ id (evalCall invoke env name arguments line)
      (evalCall invoke' env (ρ.ofFunction name) (Expr.renameAll ρ arguments) (ρ.ofLine line)) :=
  renames_call hinvoke env name line (renames_evalArguments hinvoke env arguments)

theorem renames_evalCondition (hinvoke : RenamesCalls ρ invoke invoke') (env : FrameId)
    (construct : Construct) (condition : Expr) (line : Line) :
    Renames ρ id (evalCondition invoke env construct condition line)
      (evalCondition invoke' env construct (condition.rename ρ) (ρ.ofLine line)) := by
  refine (renames_evalExpr hinvoke env condition).bind_id fun value ↦ ?_
  cases value with
  | boolean holds => exact .pure id holds
  | number x => exact .fail _ line
  | string s => exact .fail _ line

theorem renames_evalBound (hinvoke : RenamesCalls ρ invoke invoke') (env : FrameId)
    (bound : Bound) (expr : Expr) :
    Renames ρ id (evalBound invoke env bound expr)
      (evalBound invoke' env bound (expr.rename ρ)) := by
  unfold evalBound
  rw [expr.line_rename]
  refine (renames_evalExpr hinvoke env expr).bind_id fun value ↦ ?_
  cases value with
  | number x => exact .pure id _
  | boolean b => exact .fail _ expr.line
  | string s => exact .fail _ expr.line

theorem renames_evalProgression (hinvoke : RenamesCalls ρ invoke invoke') (env : FrameId)
    (start stop : Expr) (step : Option Expr) :
    Renames ρ id (evalProgression invoke env start stop step)
      (evalProgression invoke' env (start.rename ρ) (stop.rename ρ)
        (step.map (Expr.rename ρ))) := by
  refine (renames_evalBound hinvoke env .start start).bind_id fun first ↦ ?_
  refine (renames_evalBound hinvoke env .stop stop).bind_id fun last ↦ ?_
  cases step with
  | none => exact .pure id _
  | some expr =>
    exact (renames_evalBound hinvoke env .step expr).bind_id fun stride ↦ .pure id _

theorem renames_evalResult (hinvoke : RenamesCalls ρ invoke invoke') (env : FrameId)
    (value : Option Expr) :
    Renames ρ id (evalResult invoke env value)
      (evalResult invoke' env (value.map (Expr.rename ρ))) := by
  rcases value with _ | expr
  · exact .pure id none
  · have hplain := (renames_evalExpr hinvoke env expr).bind_id fun result ↦
      Renames.pure (ρ := ρ) id (some result)
    cases expr with
    | call name arguments line => exact renames_evalCall hinvoke env name arguments line
    | _ => exact hplain

/-! ### Statements -/

mutual

theorem renames_execStmt (hinvoke : RenamesCalls ρ invoke invoke') (fuel : Nat) :
    ∀ (stmt : Stmt) (env : FrameId),
      Renames ρ id (execStmt fuel invoke env stmt) (execStmt fuel invoke' env (stmt.rename ρ))
  | .block body _, env => by
    simp only [Stmt.rename, execStmt]
    exact renames_execBlock hinvoke fuel body env
  | .print value ending line, env => by
    simp only [Stmt.rename, execStmt]
    refine (renames_evalExpr hinvoke env value).bind_id fun shown ↦ ?_
    exact (Renames.write line _).bind_id fun _ ↦ .pure id _
  | .ifThen condition body line, env => by
    simp only [Stmt.rename, execStmt]
    refine (renames_evalCondition hinvoke env .ifStatement condition line).bind_id fun holds ↦ ?_
    cases holds with
    | false => exact .pure id _
    | true =>
      exact (Renames.openFrame env).bind_id fun inner ↦ renames_execBlock hinvoke fuel body inner
  | .ifElse condition body fallback line, env => by
    simp only [Stmt.rename, execStmt]
    refine (renames_evalCondition hinvoke env .ifStatement condition line).bind_id fun holds ↦ ?_
    refine (Renames.openFrame env).bind_id fun inner ↦ ?_
    cases holds with
    | false => exact renames_execBlock hinvoke fuel fallback inner
    | true => exact renames_execBlock hinvoke fuel body inner
  | .whileLoop condition body line, env => by
    simp only [Stmt.rename, execStmt]
    refine (Renames.openFrame env).bind_id fun inner ↦ ?_
    exact (renames_evalCondition hinvoke env .whileLoop condition line).whileLoop
      (renames_execBlock hinvoke fuel body inner) fuel
  | .forLoop counter start stop step body _, env => by
    simp only [Stmt.rename, execStmt]
    refine (renames_evalProgression hinvoke env start stop step).bind_id fun progression ↦ ?_
    refine (Renames.openFrame env).bind_id fun inner ↦ ?_
    exact Renames.forLoop progression (fun current ↦ .assign env counter _)
      (renames_execBlock hinvoke fuel body inner) fuel progression.start
  | .assign name value _, env => by
    simp only [Stmt.rename, execStmt]
    refine (renames_evalExpr hinvoke env value).bind_id fun result ↦ ?_
    exact (Renames.assign env name result).bind_id fun _ ↦ .pure id _
  | .declare name none _, env => by
    simp only [Stmt.rename, Option.map_none, execStmt]
    exact (Renames.declare env name .unset).bind_id fun _ ↦ .pure id _
  | .declare name (some value) _, env => by
    simp only [Stmt.rename, Option.map_some, execStmt]
    refine (renames_evalExpr hinvoke env value).bind_id fun result ↦ ?_
    exact (Renames.declare env name (.set result)).bind_id fun _ ↦ .pure id _
  | .function name parameters body line, env => by
    simp only [Stmt.rename, execStmt]
    exact (Renames.declareFunction env ⟨name, parameters, body, line⟩).bind_id fun _ ↦ .pure id _
  | .call name arguments line, env => by
    simp only [Stmt.rename, execStmt]
    exact (renames_evalCall hinvoke env name arguments line).bind_id fun _ ↦ .pure id _
  | .ret value _, env => by
    simp only [Stmt.rename, execStmt]
    exact (renames_evalResult hinvoke env value).bind_id fun result ↦ .pure id _

theorem renames_execBlock (hinvoke : RenamesCalls ρ invoke invoke') (fuel : Nat) :
    ∀ (body : List Stmt) (env : FrameId),
      Renames ρ id (execBlock fuel invoke env body)
        (execBlock fuel invoke' env (Stmt.renameAll ρ body))
  | [], env => by
    simp only [Stmt.renameAll, execBlock]
    exact .pure id _
  | stmt :: rest, env => by
    simp only [Stmt.renameAll, execBlock]
    exact (renames_execStmt hinvoke fuel stmt env).andThen (renames_execBlock hinvoke fuel rest env)

end

/-! ### Calls -/

theorem renames_bindParameters (env : FrameId) (parameters : List String) (values : List Value) :
    Renames ρ id (bindParameters env (parameters.zip values))
      (bindParameters env ((parameters.map ρ.ofVariable).zip values)) := by
  induction parameters generalizing values with
  | nil => exact .pure id ()
  | cons parameter rest ih =>
    cases values with
    | nil => exact .pure id ()
    | cons value values =>
      exact (Renames.declare env parameter (.set value)).bind_id fun _ ↦ ih values

theorem renames_invoke (limit : Nat) {runBody runBody' : FrameId → List Stmt → EvalM Store Flow}
    (hbody : ∀ env body, Renames ρ id (runBody env body) (runBody' env (Stmt.renameAll ρ body))) :
    RenamesCalls ρ (Treewalk.invoke (EvalM.deeper limit) runBody)
      (Treewalk.invoke (EvalM.deeper limit) runBody') := by
  intro closure values line
  refine Renames.deeper ?_ limit line
  refine (Renames.openFrame closure.frame).bind_id fun env ↦ ?_
  refine (renames_bindParameters env closure.function.parameters values).bind_id fun _ ↦ ?_
  refine (hbody env closure.function.body).bind_id fun flow ↦ ?_
  cases flow with
  | normal => exact .pure id none
  | returned value => exact .pure id value

theorem renames_runBody (limit fuel : Nat) (env : FrameId) (body : List Stmt) :
    Renames ρ id (runBody (EvalM.deeper limit) fuel env body)
      (runBody (EvalM.deeper limit) fuel env (Stmt.renameAll ρ body)) := by
  induction fuel generalizing env body with
  | zero => exact .outOfFuel
  | succ fuel ih => exact renames_execBlock (renames_invoke limit ih) fuel body env

theorem renames_calls (limit fuel : Nat) :
    RenamesCalls ρ (calls limit fuel) (calls limit fuel) :=
  renames_invoke limit (renames_runBody limit fuel)

/-! ### Programs -/

theorem renames_evaluate (limit fuel : Nat) (env : FrameId) (node : Node) :
    Renames ρ id (evaluate fuel (calls limit fuel) env node)
      (evaluate fuel (calls limit fuel) env (node.rename ρ)) := by
  cases node with
  | stmt root =>
    exact (renames_execStmt (renames_calls limit fuel) fuel root env).bind_id fun _ ↦ .pure id _
  | expr root =>
    exact (renames_evalExpr (renames_calls limit fuel) env root).bind_id fun _ ↦ .pure id _

open Evaluator

theorem flushed_rename {α : Type} {sink sink' : Sink} (h : sink.SameBytes sink') (line : Line)
    {outcome outcome' : Except Stop α} (houtcome : outcome' = ρ.outcome id outcome) :
    flushed sink' (ρ.ofLine line) outcome' =
      (flushed sink line outcome).mapError (Stop.rename ρ) := by
  obtain rfl := houtcome
  rcases outcome with stop | result
  · rfl
  · unfold flushed Renaming.outcome
    rw [h.flushFailure]
    cases sink.flushFailure <;> rfl

theorem mapError_rename_eq_outOfFuel_iff {outcome : Except Stop α} :
    outcome.mapError (Stop.rename ρ) = .error .outOfFuel ↔ outcome = .error .outOfFuel := by
  rcases outcome with (failure | _) | result
  · constructor <;> intro h <;> cases h
  · exact ⟨fun _ ↦ rfl, fun _ ↦ rfl⟩
  · constructor <;> intro h <;> cases h

/-- A run of the renamed program with the same fuel. -/
theorem run_rename_of_fuel (ρ : Renaming) (evaluator : Evaluator) (root : Node) (fuel : Nat) :
    (run fuel evaluator (root.rename ρ)).outcome =
        (run fuel evaluator root).outcome.mapError (Stop.rename ρ) ∧
      (run fuel evaluator (root.rename ρ)).evaluator.sink.output =
        (run fuel evaluator root).evaluator.sink.output := by
  have hnode := renames_evaluate (ρ := ρ) evaluator.limit fuel 0 root
  have hinitial : (initial evaluator.depth evaluator.sink).RenamedTo ρ
      (initial evaluator.depth evaluator.sink) :=
    ⟨Store.RenamedTo.empty.openFrame none, rfl, .refl _⟩
  obtain ⟨houtcome, hstate⟩ := hnode _ _ hinitial
  rw [run_eq, run_eq]
  refine ⟨?_, hstate.sink.output⟩
  unfold concluded
  rw [root.line_rename]
  refine flushed_rename hstate.sink root.line ?_
  rw [houtcome]
  rcases (evaluate fuel (calls evaluator.limit fuel) 0 root
    (initial evaluator.depth evaluator.sink)).1 with stop | result <;> rfl

/-- However its variables and functions are renamed and its lines moved, a program finishes if it
did, with the same output and with the same result, up to the name and the line in an error. -/
theorem run_rename (ρ : Renaming) (evaluator : Evaluator) (root : Node) :
    ((∃ fuel, (run fuel evaluator (root.rename ρ)).outcome ≠ .error .outOfFuel) ↔
      ∃ fuel, (run fuel evaluator root).outcome ≠ .error .outOfFuel) ∧
    ∀ fuel,
      let original := run fuel evaluator root
      let renamed := run fuel evaluator (root.rename ρ)
      renamed.outcome = original.outcome.mapError (Stop.rename ρ) ∧
        renamed.evaluator.sink.output = original.evaluator.sink.output := by
  refine ⟨exists_congr fun fuel ↦ not_congr ?_, run_rename_of_fuel ρ evaluator root⟩
  rw [(run_rename_of_fuel ρ evaluator root fuel).1]
  exact mapError_rename_eq_outOfFuel_iff

/-- A variable and a function that had one name have two, and the error names the variable. -/
example :
    let ρ : Renaming := ⟨("v" ++ ·), ("f" ++ ·), (· + 10),
      fun _ _ h ↦ (String.append_right_inj _).mp h, fun _ _ h ↦ (String.append_right_inj _).mp h⟩
    (run 1 {} (Node.rename ρ (.stmt (.block [.function "x" [] [] 1, .call "x" [] 2,
      .print (.identifier "x" 3) .newline 3] 1)))).outcome =
      .error (.error ⟨.undeclaredIdentifier "vx", 13⟩) := by rfl

end Treewalk
