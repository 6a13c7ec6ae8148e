import Treewalk.Evaluator
import Treewalk.Proofs.Simulation.Invariant
import Treewalk.Proofs.Simulation.Resources

/-!
# The depth limit is transparent

A limit on open calls has no other effect than to refuse the call that exceeds it. A run that is
not refused a call comes to the same under every higher limit, and one that is refused has by then
written what runs under higher limits write first (`depth_limit_transparent`). The refusal names
the limit that was set (`limit_of_stackOverflow`), and no construct of the language absorbs it.
-/

set_option autoImplicit false
set_option relaxedAutoImplicit false

namespace Treewalk

/-! ### The refusal -/

/-- If this is a refused call, it was refused at the limit. -/
def Stop.RefusedAt (limit : Nat) (stop : Stop) : Prop :=
  ∀ bound line, stop = .error ⟨.stackOverflow bound, line⟩ → bound = limit

section Refusal

variable {S : Type} [Scopes S]

theorem refusedAt_isInvariant (limit : Nat) :
    IsInvariant (EvalM.deeper limit) (fun _ _ : State S ↦ True) (Stop.RefusedAt limit)
      (fun _ ↦ True) (fun _ ↦ True) where
  site_of_home _ := trivial
  read name line _ := by
    refine ⟨fun _ _ _ ↦ trivial, fun _ _ stop _ hstop bound line' hbound ↦ ?_⟩
    rcases EvalM.read_stop hstop with ⟨-, rfl⟩ | ⟨-, rfl⟩ <;> cases hbound
  resolve name count line _ := by
    refine ⟨fun _ _ _ ↦ trivial, fun _ _ stop _ hstop bound line' hbound ↦ ?_⟩
    rcases EvalM.resolve_stop hstop with ⟨-, rfl⟩ | ⟨_, -, -, rfl⟩ <;> cases hbound
  site_resolve _ _ _ _ _ _ _ := trivial
  openFrame _ := ⟨fun _ _ _ ↦ trivial, fun _ _ _ _ hstop ↦ by cases hstop⟩
  home_openFrame _ _ _ _ := trivial
  assign _ _ _ := ⟨fun _ _ _ ↦ trivial, fun _ _ _ _ hstop ↦ by cases hstop⟩
  declare _ _ _ := ⟨fun _ _ _ ↦ trivial, fun _ _ _ _ hstop ↦ by cases hstop⟩
  declareFunction _ _ := ⟨fun _ _ _ ↦ trivial, fun _ _ _ _ hstop ↦ by cases hstop⟩
  write line text := by
    refine ⟨fun _ _ _ ↦ trivial, fun _ _ stop _ hstop bound line' hbound ↦ ?_⟩
    rw [EvalM.write_stop hstop] at hbound
    cases hbound
  entered line hbody := by
    refine ⟨fun _ _ _ ↦ trivial, fun s t stop _ hstop ↦ ?_⟩
    unfold EvalM.deeper at hstop
    split at hstop
    · exact hbody.stop s { t with depth := t.depth + 1 } stop trivial hstop
    · cases hstop
      intro bound line' hbound
      cases hbound
      rfl
  fault fault line hfault bound line' hbound := by
    cases hbound
    cases hfault
  outOfFuel bound line' hbound := by cases hbound

/-- Whenever a call is refused in the course of an evaluation, the error names the limit. -/
theorem limit_of_stackOverflow {limit fuel : Nat} {env : FrameId} {node : Node} {state : State S}
    {bound : Nat} {line : Line}
    (h : (evaluate fuel (calls limit fuel) env node state).1 =
      .error (.error ⟨.stackOverflow bound, line⟩)) : bound = limit :=
  ((refusedAt_isInvariant limit).evaluate fuel node trivial fun _ _ ↦ trivial).stop state state _
    trivial h bound line rfl

end Refusal

/-! ### Runs under two limits -/

open Evaluator

/-- Of two runs, the second under a limit as high or higher: if the first finishes with anything
other than a refused call, the second comes to the same result and output with the same fuel and
with any more. If the first is refused a call, the error names its limit, and whenever the second
finishes, the first has written a prefix of what the second writes. -/
theorem depth_limit_transparent {n m : Nat} (hlimit : n ≤ m) (sink : Sink) (root : Node)
    (fuel : Nat) :
    let shallow := run fuel { limit := n, sink } root
    (shallow.outcome ≠ .error .outOfFuel →
      (∀ bound line, shallow.outcome ≠ .error (.error ⟨.stackOverflow bound, line⟩)) →
      ∀ fuel', fuel ≤ fuel' →
        let deep := run fuel' { limit := m, sink } root
        deep.outcome = shallow.outcome ∧ deep.evaluator.sink = shallow.evaluator.sink) ∧
    (∀ bound line, shallow.outcome = .error (.error ⟨.stackOverflow bound, line⟩) →
      bound = n ∧ ∀ fuel',
        let deep := run fuel' { limit := m, sink } root
        deep.outcome ≠ .error .outOfFuel →
          shallow.evaluator.sink.output <+: deep.evaluator.sink.output) := by
  intro shallow
  simp only [shallow, run_eq]
  refine ⟨fun hfinished hallowed fuel' hfuel ↦ ?_, fun bound line hrefused ↦ ?_⟩
  · rcases evaluate_eq_or_shortage hlimit hfuel root (initial 0 sink) with
      heq | ⟨_, hstop, hshort, -⟩
    · rw [heq]
      exact ⟨rfl, rfl⟩
    · rcases hshort with rfl | ⟨-, line, rfl⟩
      · exact absurd (concluded_stop hstop) hfinished
      · exact absurd (concluded_stop hstop) (hallowed n line)
  · have hstop := (stop_of_concluded hrefused).resolve_right fun ⟨_, _, hoverflow⟩ ↦ by
      cases hoverflow
    refine ⟨limit_of_stackOverflow hstop, fun fuel' hfinished ↦ ?_⟩
    exact output_prefix_of_finished hlimit fuel fun hstuck ↦ hfinished (concluded_stop hstuck)

/-- A program that prints, calls a function and prints in it. -/
def oneCall : Node :=
  .stmt (.block [.function "f" [] [.print (.bool false 2) .newline 2] 1,
    .print (.bool true 3) .newline 3, .call "f" [] 4] 1)

/-- The one call is refused under the limit 0, after the first line was written, and made alike
under the limits 1 and 2. -/
theorem depth_limit_transparent_oneCall :
    (run 1 { limit := 0 } oneCall).outcome = .error (.error ⟨.stackOverflow 0, 4⟩) ∧
      (run 1 { limit := 0 } oneCall).evaluator.sink.output <+:
        (run 1 { limit := 1 } oneCall).evaluator.sink.output ∧
      (run 1 { limit := 2 } oneCall).outcome = .ok () := by
  have hrefused : (run 1 { limit := 0 } oneCall).outcome = .error (.error ⟨.stackOverflow 0, 4⟩) :=
    by rfl
  have hmade : (run 1 { limit := 1 } oneCall).outcome = .ok () := by rfl
  refine ⟨hrefused, ?_, ?_⟩
  · have h := (depth_limit_transparent (Nat.zero_le 1) {} oneCall 1).2 0 4 hrefused
    exact h.2 1 (by rw [hmade]; nofun)
  · have h := (depth_limit_transparent (Nat.le_succ 1) {} oneCall 1).1 (by rw [hmade]; nofun)
      (by rw [hmade]; nofun) 1 (Nat.le_refl 1)
    exact h.1.trans hmade

end Treewalk
