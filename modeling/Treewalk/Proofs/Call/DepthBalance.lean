import Treewalk.Proofs.Call.Watch
import Treewalk.Proofs.Scope.Beside
import Treewalk.Proofs.Simulation.Invariant
import Treewalk.Session

/-!
# Depth balance

Whatever an evaluation comes to, it leaves as many calls open as there were (`depth_evaluate`). So
nothing of a step of a session but its output and its frames is left to the steps after it, and an
evaluator can be used again after any failure as if it were new (`evaluator_after`). Together with
the bound on the depth and the independence of runs from other frames this is `depth_balance`.
-/

set_option autoImplicit false
set_option relaxedAutoImplicit false

namespace Treewalk

/-! ### One evaluation -/

theorem depth_isInvariant {S : Type} [Scopes S] (limit : Nat) :
    IsInvariant (EvalM.deeper limit) (fun s t : State S ↦ t.depth = s.depth) (fun _ ↦ True)
      (fun _ ↦ True) (fun _ ↦ True) where
  site_of_home _ := trivial
  read _ _ _ := .of_state fun _ _ hkeeps ↦ by rwa [EvalM.read_state]
  resolve _ _ _ _ := .of_state fun _ _ hkeeps ↦ by rwa [EvalM.resolve_state]
  site_resolve _ _ _ _ _ _ _ := trivial
  openFrame _ := .of_state fun _ _ hkeeps ↦ hkeeps
  home_openFrame _ _ _ _ := trivial
  assign _ _ _ := .of_state fun _ _ hkeeps ↦ hkeeps
  declare _ _ _ := .of_state fun _ _ hkeeps ↦ hkeeps
  declareFunction _ _ := .of_state fun _ _ hkeeps ↦ hkeeps
  write _ _ := .of_state fun _ _ hkeeps ↦ hkeeps
  entered line hbody := .of_state fun s t hkeeps ↦ by
    unfold EvalM.deeper
    split
    · have hinside := hbody.state { s with depth := s.depth + 1 } { t with depth := t.depth + 1 }
        (congrArg (· + 1) hkeeps)
      exact congrArg (· - 1) hinside
    · exact hkeeps
  fault _ _ _ := trivial
  outOfFuel := trivial

/-- Whatever a node comes to, as many calls are open as before. -/
theorem depth_evaluate {S : Type} [Scopes S] (limit fuel : Nat) (env : FrameId) (node : Node)
    (state : State S) :
    (evaluate fuel (calls limit fuel) env node state).2.depth = state.depth :=
  ((depth_isInvariant limit).evaluate fuel node trivial fun _ _ ↦ trivial).state state state rfl

/-! ### Sessions -/

namespace Session

/-- A step leaves the evaluator as it was, apart from the sink. -/
theorem evaluator_step (fuel : Nat) (session : Session) (step : Step) :
    (session.step fuel step).2.evaluator =
      { session.evaluator with sink := (session.step fuel step).2.evaluator.sink } := by
  cases step with
  | change change => rfl
  | eval env node =>
    simp only [Session.step, Evaluator.eval_eq, depth_evaluate]
  | run root =>
    simp only [Session.step, Evaluator.runBeside_eq, Evaluator.concluded, depth_evaluate]

theorem evaluator_after (session : Session) (history : List (Nat × Step)) :
    (session.after history).evaluator =
      { session.evaluator with sink := (session.after history).evaluator.sink } := by
  induction history generalizing session with
  | nil => rfl
  | cons past rest ih =>
    have hrest := ih (session.step past.1 past.2).2
    rw [evaluator_step] at hrest
    exact hrest

end Session

/-- From a depth within the limit, an evaluation leaves the depth as it was, whatever it comes to,
and sets it to nothing above the limit meanwhile. Hence the next step of a session is that of a new
evaluator with the same limit and sink on the same frames, whatever steps were made before, failed
ones among them; and a run comes to the same beside any frames, which it leaves alone. -/
theorem depth_balance (limit : Nat) :
    (∀ (fuel : Nat) (env : FrameId) (node : Node) (state : State Store), state.depth ≤ limit →
      let result := evaluate fuel (calls limit fuel) env node state
      let watched := evaluate fuel (callsBy (EvalM.watched limit) fuel) env node state.watched
      result.2.depth = state.depth ∧ watched.1 = result.1 ∧ watched.2.unwatched = result.2 ∧
        ∀ depth ∈ watched.2.scopes.depths, depth ≤ limit) ∧
    (∀ (sink : Sink) (store : Store) (history : List (Nat × Step)) (fuel : Nat) (step : Step),
      let session := Session.after { evaluator := { limit, sink }, store } history
      session.step fuel step =
        Session.step fuel
          { evaluator := { limit, sink := session.evaluator.sink }, store := session.store } step) ∧
    (∀ (fuel : Nat) (evaluator : Evaluator) (before : Store) (root : Node),
      let beside := evaluator.runBeside fuel before root
      let alone := evaluator.run fuel root
      beside.outcome = alone.outcome ∧ beside.evaluator = alone.evaluator ∧
        ∀ id < before.frames.size, beside.scopes.frames[id]? = before.frames[id]?) := by
  refine ⟨fun fuel env node state hdepth ↦ ?_, fun sink store history fuel step ↦ ?_,
    fun fuel evaluator before root ↦ ?_⟩
  · exact ⟨depth_evaluate limit fuel env node state, evaluate_watched hdepth fuel env node⟩
  · intro session
    have hevaluator : session.evaluator = { limit, sink := session.evaluator.sink } :=
      Session.evaluator_after _ history
    exact congrArg (fun evaluator ↦ Session.step fuel { evaluator, store := session.store } step)
      hevaluator
  · dsimp only
    rw [runBeside_eq_run]
    exact ⟨rfl, rfl, fun id hid ↦ Store.getElem?_beside_left hid⟩

/-- A call that exceeds the limit leaves no call open, and the evaluator is then as good as new. -/
theorem depth_balance_endless :
    let call : Node := .expr (.call "f" [] 1)
    let result := evaluate 3 (calls 2 3) 0 call (⟨Store.endless, 0, {}⟩ : State Store)
    let session := Session.after { evaluator := { limit := 2 }, store := Store.endless }
      [(3, .eval 0 call)]
    (0 ≤ 2 ∧ result.1 = .error (.error ⟨.stackOverflow 2, 1⟩)) ∧ result.2.depth = 0 ∧
      session.step 3 (.run call) = Session.step 3
        { evaluator := { limit := 2, sink := session.evaluator.sink }, store := session.store }
        (.run call) := by
  intro call result session
  obtain ⟨hbalance, hsession, -⟩ := depth_balance 2
  refine ⟨⟨Nat.zero_le 2, by rfl⟩, (hbalance 3 0 call ⟨Store.endless, 0, {}⟩ (Nat.zero_le 2)).1, ?_⟩
  exact hsession {} Store.endless [(3, .eval 0 call)] 3 (.run call)

end Treewalk
