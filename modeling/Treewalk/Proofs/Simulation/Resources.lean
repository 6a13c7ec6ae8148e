import Treewalk.Proofs.Simulation.Evaluator

/-!
# More fuel and a higher limit

Two runs of the same evaluation on the same state, the second with more fuel or a higher limit,
differ only when the first runs out of fuel or is refused a call. Up to there they have written the
same, and the second can but write more (`eq_or_shortage`). So a run that finishes comes to
the same with any larger amount of fuel (`evaluate_of_le`), and it is a fact about the program
alone what it comes to.
-/

set_option autoImplicit false
set_option relaxedAutoImplicit false

namespace Treewalk

/-! ### Output -/

namespace Sink

theorem output_write (sink : Sink) (line : Line) (bytes : List UInt8) :
    (sink.write line bytes).output = sink.output ++ sink.fitting bytes := by
  unfold output outputFrom write
  rw [Array.toList_push, List.drop_zero, List.drop_zero, List.flatMap_append,
    List.flatMap_singleton]

/-- Nothing that was written is taken back. -/
theorem output_prefix_write (sink : Sink) (line : Line) (bytes : List UInt8) :
    sink.output <+: (sink.write line bytes).output := by
  rw [output_write]
  exact List.prefix_append _ _

end Sink

/-! ### Runs that start alike -/

/-- The stops that more fuel or a higher limit may change. -/
def Stop.IsShortage (limit limit' : Nat) (stop : Stop) : Prop :=
  stop = .outOfFuel ∨ limit < limit' ∧ ∃ line, stop = .error ⟨.stackOverflow limit, line⟩

variable {S α : Type} {limit limit' : Nat}

namespace Simulation

/-- Runs in one state, until the first comes to a shortage. -/
def sameState (limit limit' : Nat) : Simulation S S where
  linked _ s t := t = s
  parted _ stop s t := stop.IsShortage limit limit' ∧ s.sink.output <+: t.sink.output
  ends _ := True
  site _ env env' := env' = env
  home _ env env' := env' = env

theorem sameState_interruptible : (sameState limit limit' : Simulation S S).Interruptible := by
  intro _ s t hsame
  obtain rfl := hsame
  exact ⟨.inl rfl, List.prefix_refl _⟩

theorem sameState_fuels {fuel fuel' : Nat} (hfuel : fuel ≤ fuel') :
    (sameState limit limit' : Simulation S S).Fuels fuel fuel' :=
  ⟨hfuel, fun _ ↦ sameState_interruptible⟩

theorem sameState_matches {stage : Nat} {post : Nat → α → α → Prop} {computation : EvalM S α}
    (hgrows : ∀ state, state.sink.output <+: (computation state).2.sink.output)
    (hpost : ∀ result, post stage result result) :
    (sameState limit limit').Matches stage post computation computation where
  together s t hsame := by
    obtain rfl : t = s := hsame
    exact .alike rfl fun result _ ↦ hpost result
  alone _ _ t hparted :=
    ⟨stage, Nat.le_refl stage, ⟨hparted.1, hparted.2.trans (hgrows t)⟩,
      fun result _ ↦ ⟨result, hpost result⟩, fun _ _ ↦ trivial⟩

theorem sameState_levels (hlimit : limit ≤ limit') :
    (sameState limit limit' : Simulation S S).Levels limit limit' where
  enter hsame hroom := by
    obtain rfl := hsame
    exact ⟨Nat.lt_of_lt_of_le hroom hlimit, rfl⟩
  refuse line hsame hfull := by
    obtain rfl := hsame
    rcases Nat.eq_or_lt_of_le hlimit with rfl | hlt
    · exact .inl ⟨rfl, hfull⟩
    · exact .inr ⟨.inr ⟨hlt, line, rfl⟩, List.prefix_refl _⟩
  leave hsame := by
    obtain rfl := hsame
    rfl
  leave_first hparted := hparted
  move_second _ hparted := hparted
  ends _ := trivial

theorem sameState_isSound [Scopes S] (hlimit : limit ≤ limit') :
    (sameState limit limit' : Simulation S S).IsSound (EvalM.deeper limit)
      (EvalM.deeper limit') where
  site_mono _ hsite := hsite
  home_mono _ hhome := hhome
  site_of_home hhome := hhome
  read _ _ hsite := by
    refine hsite ▸ sameState_matches (fun _ ↦ ?_) fun _ ↦ rfl
    simp only [EvalM.read_state, List.prefix_rfl]
  resolve _ _ _ hsite := by
    refine hsite ▸ sameState_matches (fun _ ↦ ?_) fun _ ↦ ⟨rfl, rfl⟩
    simp only [EvalM.resolve_state, List.prefix_rfl]
  openFrame hsite := hsite ▸ sameState_matches (fun _ ↦ List.prefix_refl _) fun _ ↦ rfl
  assign _ _ hhome := hhome ▸ sameState_matches (fun _ ↦ List.prefix_refl _) fun _ ↦ rfl
  declare _ _ hhome := hhome ▸ sameState_matches (fun _ ↦ List.prefix_refl _) fun _ ↦ rfl
  declareFunction _ hhome := hhome ▸ sameState_matches (fun _ ↦ List.prefix_refl _) fun _ ↦ rfl
  write _ _ _ := sameState_matches (fun _ ↦ Sink.output_prefix_write _ _ _) fun _ ↦ rfl
  entered line h := h.deeper (sameState_levels hlimit) line
  fault _ _ _ := trivial
  outOfFuel := trivial

/-- A run with more of both comes to the same, or the first came to a shortage and wrote less. -/
theorem eq_or_shortage {first second : EvalM S α}
    (h : (sameState limit limit').Agrees 0 first second) (state : State S) :
    second state = first state ∨
      ∃ stop, (first state).1 = .error stop ∧ stop.IsShortage limit limit' ∧
        (first state).2.sink.output <+: (second state).2.sink.output := by
  have hjoined := h.together state state rfl
  generalize first state = left, second state = right at hjoined ⊢
  cases hjoined with
  | completed _ hsame hresult =>
    obtain rfl := hsame
    obtain rfl := hresult
    exact .inl rfl
  | stopped _ hsame =>
    obtain rfl := hsame
    exact .inl rfl
  | parted hparted =>
    obtain ⟨_, _, ⟨hshort, hprefix⟩, _⟩ := hparted
    exact .inr ⟨_, rfl, hshort, hprefix⟩

/-- Under one limit, a computation that comes to an end is followed by whatever matches it. -/
theorem eq_of_finished {first second : EvalM S α}
    (h : (sameState limit limit).Agrees 0 first second) {state : State S}
    (hfinished : (first state).1 ≠ .error .outOfFuel) : second state = first state := by
  rcases eq_or_shortage h state with heq | ⟨stop, hstop, rfl | ⟨hlt, _⟩, _⟩
  · exact heq
  · exact absurd hstop hfinished
  · exact absurd hlt (Nat.lt_irrefl limit)

end Simulation

open Simulation

/-! ### Evaluations -/

variable [Scopes S] {fuel fuel' : Nat} {env : FrameId} {state : State S}

/-- With more fuel and a higher limit, a node comes to the same, or it came to a shortage and wrote
less. -/
theorem evaluate_eq_or_shortage (hlimit : limit ≤ limit') (hfuel : fuel ≤ fuel') (node : Node)
    (state : State S) :
    evaluate fuel' (calls limit' fuel') env node state =
        evaluate fuel (calls limit fuel) env node state ∨
      ∃ stop, (evaluate fuel (calls limit fuel) env node state).1 = .error stop ∧
        stop.IsShortage limit limit' ∧
        (evaluate fuel (calls limit fuel) env node state).2.sink.output <+:
          (evaluate fuel' (calls limit' fuel') env node state).2.sink.output :=
  eq_or_shortage ((sameState_isSound hlimit).agrees_evaluate
    ((sameState_isSound hlimit).invokes_calls (sameState_fuels hfuel)) (sameState_fuels hfuel) node
    rfl fun _ _ ↦ rfl) state

theorem evaluate_of_le (hfuel : fuel ≤ fuel') {node : Node}
    (hfinished : (evaluate fuel (calls limit fuel) env node state).1 ≠ .error .outOfFuel) :
    evaluate fuel' (calls limit fuel') env node state =
      evaluate fuel (calls limit fuel) env node state := by
  have hsound := sameState_isSound (S := S) (Nat.le_refl limit)
  exact eq_of_finished (hsound.agrees_evaluate
    (hsound.invokes_calls (sameState_fuels hfuel)) (sameState_fuels hfuel) node rfl
    fun _ _ ↦ rfl) hfinished

/-- Under a lower limit and with whatever fuel, a node has written a prefix of what it writes when
it finishes. -/
theorem output_prefix_of_finished (hlimit : limit ≤ limit') (fuel : Nat) {node : Node}
    (hfinished : (evaluate fuel' (calls limit' fuel') env node state).1 ≠ .error .outOfFuel) :
    (evaluate fuel (calls limit fuel) env node state).2.sink.output <+:
      (evaluate fuel' (calls limit' fuel') env node state).2.sink.output := by
  rw [← evaluate_of_le (Nat.le_max_right fuel fuel') hfinished]
  rcases evaluate_eq_or_shortage hlimit (Nat.le_max_left fuel fuel') node state with
    heq | ⟨_, _, _, hprefix⟩
  · exact heq ▸ List.prefix_refl _
  · exact hprefix

theorem evalArguments_of_le (hfuel : fuel ≤ fuel') {arguments : List Expr}
    (hfinished : (evalArguments (calls limit fuel) env arguments state).1 ≠ .error .outOfFuel) :
    evalArguments (calls limit fuel') env arguments state =
      evalArguments (calls limit fuel) env arguments state := by
  have hsound := sameState_isSound (S := S) (Nat.le_refl limit)
  exact eq_of_finished (hsound.agrees_evalArguments
    (hsound.invokes_calls (sameState_fuels hfuel)) arguments rfl) hfinished

end Treewalk
