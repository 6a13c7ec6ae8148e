import Treewalk.Eval.Basic
import Treewalk.Scope.Store

/-!
# Evaluators

An `Evaluator` is what lasts from one evaluation to the next: the limit on open calls, the number
of calls open, and the sink. `eval` evaluates a node in a frame of a store that its caller keeps;
`run` evaluates a program in an outermost frame of its own and flushes the sink at the end.
`runReporting` is a whole run of a program kept in a file, with its error as a line of text.
-/

set_option autoImplicit false
set_option relaxedAutoImplicit false

namespace Treewalk

structure Evaluator where
  /-- How many calls may be open at once. -/
  limit : Nat := 100
  depth : Nat := 0
  sink : Sink := {}

namespace Evaluator

variable {S : Type} [Scopes S]

/-- What an evaluation leaves: its outcome, the scopes and the evaluator. -/
structure Evaluation (S α : Type) where
  outcome : Except Stop α
  scopes : S
  evaluator : Evaluator

def eval (fuel : Nat) (evaluator : Evaluator) (scopes : S) (env : FrameId) (node : Node) :
    Evaluation S (Option Value) :=
  let (outcome, after) :=
    evalNode evaluator.limit fuel env node ⟨scopes, evaluator.depth, evaluator.sink⟩
  ⟨outcome, after.scopes, { evaluator with depth := after.depth, sink := after.sink }⟩

theorem eval_eq (fuel : Nat) (evaluator : Evaluator) (scopes : S) (env : FrameId) (node : Node) :
    evaluator.eval fuel scopes env node =
      let result := evaluate fuel (calls evaluator.limit fuel) env node
        ⟨scopes, evaluator.depth, evaluator.sink⟩
      ⟨result.1.map Result.yielded, result.2.scopes,
        { evaluator with depth := result.2.depth, sink := result.2.sink }⟩ := by
  rw [eval, evalNode_apply]

/-- The outcome of a run once the sink was flushed at its end. What stopped the program counts
before an error of the flush, which is charged to the line of the root. -/
def flushed {α : Type} (sink : Sink) (root : Line) : Except Stop α → Except Stop Unit
  | .error stop => .error stop
  | .ok _ =>
    match sink.flushFailure with
    | some content => .error (.error ⟨.output content, root⟩)
    | none => .ok ()

/-- A run beside the frames that are there. -/
def runBeside (fuel : Nat) (evaluator : Evaluator) (scopes : S) (root : Node) :
    Evaluation S Unit :=
  let (env, scopes) := Scopes.openFrame scopes none
  let result := evaluator.eval fuel scopes env root
  { result with outcome := flushed result.evaluator.sink root.line result.outcome }

/-- What a run of a program leaves, by what the program came to. -/
def concluded (evaluator : Evaluator) (root : Line) (result : Except Stop Result × State S) :
    Evaluation S Unit where
  outcome := flushed result.2.sink root (result.1.map Result.yielded)
  scopes := result.2.scopes
  evaluator := { evaluator with depth := result.2.depth, sink := result.2.sink }

omit [Scopes S] in
theorem concluded_stop {evaluator : Evaluator} {root : Line}
    {result : Except Stop Result × State S} {stop : Stop} (h : result.1 = .error stop) :
    (evaluator.concluded root result).outcome = .error stop := by
  rw [concluded, h]
  rfl

omit [Scopes S] in
/-- A run fails as its program did, or else as the flush. -/
theorem stop_of_concluded {evaluator : Evaluator} {root : Line}
    {result : Except Stop Result × State S} {stop : Stop}
    (h : (evaluator.concluded root result).outcome = .error stop) :
    result.1 = .error stop ∨
      ∃ content, result.2.sink.flushFailure = some content ∧
        stop = .error ⟨.output content, root⟩ := by
  obtain ⟨first | value, after⟩ := result
  · cases h
    exact .inl rfl
  · cases hflush : after.sink.flushFailure with
    | none => simp [concluded, Except.map, flushed, hflush] at h
    | some content =>
      simp only [concluded, Except.map, flushed, hflush, Except.error.injEq] at h
      exact .inr ⟨content, rfl, h.symm⟩

theorem runBeside_eq (fuel : Nat) (evaluator : Evaluator) (scopes : S) (root : Node) :
    evaluator.runBeside fuel scopes root =
      evaluator.concluded root.line
        (evaluate fuel (calls evaluator.limit fuel) (Scopes.openFrame scopes none).1 root
          ⟨(Scopes.openFrame scopes none).2, evaluator.depth, evaluator.sink⟩) := by
  unfold runBeside
  rcases Scopes.openFrame scopes none with ⟨env, opened⟩
  dsimp only
  rw [eval_eq]
  rfl

/-- A run over any type of scopes, which also gives the scopes it leaves. -/
def runIn (S : Type) [Scopes S] (fuel : Nat) (evaluator : Evaluator) (root : Node) :
    Evaluation S Unit :=
  evaluator.runBeside fuel (Scopes.empty : S) root

def run (fuel : Nat) (evaluator : Evaluator) (root : Node) : Evaluation Store Unit :=
  evaluator.runIn Store fuel root

/-- The state that a run starts from. -/
def initial (depth : Nat) (sink : Sink) : State Store :=
  ⟨(({} : Store).openFrame none).2, depth, sink⟩

theorem run_eq (fuel : Nat) (evaluator : Evaluator) (root : Node) :
    evaluator.run fuel root =
      evaluator.concluded root.line (evaluate fuel (calls evaluator.limit fuel) 0 root
        (initial evaluator.depth evaluator.sink)) :=
  runBeside_eq fuel evaluator ({} : Store) root

end Evaluator

/-- What a run shows to whoever started it. -/
structure Report where
  completed : Bool
  output : List UInt8
  /-- The line about the error, if there was one. -/
  complaint : String

/-- Runs a program with the default limit and an unlimited sink. There is no report of a run that
the fuel does not suffice for. -/
def runReporting (fuel : Nat) (file : String) (root : Node) : Option Report :=
  let result := Evaluator.run fuel {} root
  let output := result.evaluator.sink.output
  match result.outcome with
  | .ok () => some ⟨true, output, ""⟩
  | .error (.error error) => some ⟨false, output, file ++ " " ++ error.report ++ "\n"⟩
  | .error .outOfFuel => none

end Treewalk
