import Treewalk.Evaluator
import Treewalk.Proofs.Simulation.Evaluator

/-!
# Representations of scopes

An evaluation knows its scopes by what the operations of `Scopes` make of them. If two types of
scopes are related in such a way that every operation keeps the relation and every look-up finds the
same in related scopes (`Scopes.IsRepresentation`), then a run over one type comes to the same as
the run over the other, in related scopes (`Scopes.IsRepresentation.runIn`).
-/

set_option autoImplicit false
set_option relaxedAutoImplicit false

namespace Treewalk

variable {S T : Type} [Scopes S] [Scopes T]

/-- Related scopes cannot be told apart by the operations on them. -/
structure Scopes.IsRepresentation (related : S → T → Prop) : Prop where
  empty : related Scopes.empty Scopes.empty
  openFrame : ∀ {s t} outer, related s t →
    (Scopes.openFrame t outer).1 = (Scopes.openFrame s outer).1 ∧
      related (Scopes.openFrame s outer).2 (Scopes.openFrame t outer).2
  get? : ∀ {s t} env name, related s t → Scopes.get? t env name = Scopes.get? s env name
  declare : ∀ {s t} env name binding, related s t →
    related (Scopes.declare s env name binding) (Scopes.declare t env name binding)
  assign : ∀ {s t} env name value, related s t →
    related (Scopes.assign s env name value) (Scopes.assign t env name value)
  declareFunction : ∀ {s t} env function, related s t →
    related (Scopes.declareFunction s env function) (Scopes.declareFunction t env function)
  closure? : ∀ {s t} env name, related s t →
    Scopes.closure? t env name = Scopes.closure? s env name

/-- Two states at one depth and with one sink, in related scopes. -/
structure Represents (related : S → T → Prop) (s : State S) (t : State T) : Prop where
  depth : t.depth = s.depth
  sink : t.sink = s.sink
  scopes : related s.scopes t.scopes

namespace Simulation

/-- Runs of one evaluation over two types of scopes. -/
def represented (related : S → T → Prop) : Simulation S T where
  linked _ := Represents related
  parted _ _ _ _ := False
  ends _ := True
  site _ env env' := env' = env
  home _ env env' := env' = env

variable {related : S → T → Prop} {stage : Nat}

omit [Scopes S] [Scopes T] in
theorem represented_unparted : (represented related).Unparted :=
  fun _ _ _ _ ↦ not_false

omit [Scopes S] [Scopes T] in
theorem represented_levels (limit : Nat) : (represented related).Levels limit limit where
  enter hlinked hroom :=
    ⟨hlinked.depth ▸ hroom, congrArg (· + 1) hlinked.depth, hlinked.sink, hlinked.scopes⟩
  refuse _ hlinked hfull := .inl ⟨rfl, hlinked.depth ▸ hfull⟩
  leave hlinked := ⟨congrArg (· - 1) hlinked.depth, hlinked.sink, hlinked.scopes⟩
  leave_first hparted := hparted.elim
  move_second _ hparted := hparted.elim
  ends _ := trivial

omit [Scopes S] [Scopes T] in
/-- What is done to the scopes alone, on both sides, and keeps them related. -/
theorem represented_scopes (change : S → S) (change' : T → T)
    (hchange : ∀ s t, related s t → related (change s) (change' t)) :
    (represented related).Agrees stage
      (fun state ↦ (.ok (), { state with scopes := change state.scopes }) : EvalM S Unit)
      (fun state ↦ (.ok (), { state with scopes := change' state.scopes })) where
  together s t hlinked :=
    .completed (Nat.le_refl stage)
      ⟨hlinked.depth, hlinked.sink, hchange s.scopes t.scopes hlinked.scopes⟩ rfl
  alone _ _ _ hparted := hparted.elim

theorem represented_isSound (hrelated : Scopes.IsRepresentation related) (limit : Nat) :
    (represented related).IsSound (EvalM.deeper limit) (EvalM.deeper limit) where
  site_mono _ hsite := hsite
  home_mono _ hhome := hhome
  site_of_home hhome := hhome
  read name line hsite := by
    obtain rfl := hsite
    refine .readOnly represented_unparted (EvalM.read_state _ name line)
      (EvalM.read_state _ name line) (fun s t hlinked ↦ ?_) fun _ _ _ _ _ ↦ rfl
    exact EvalM.read_congr (hrelated.get? _ name hlinked.scopes) line
  resolve name count line hsite := by
    obtain rfl := hsite
    refine .readOnly represented_unparted (EvalM.resolve_state _ name count line)
      (EvalM.resolve_state _ name count line) (fun s t hlinked ↦ ?_) fun _ _ _ _ _ ↦ ⟨rfl, rfl⟩
    exact EvalM.resolve_congr (hrelated.closure? _ name hlinked.scopes) count line
  openFrame hsite := by
    obtain rfl := hsite
    refine ⟨fun s t hlinked ↦ ?_, fun _ _ _ hparted ↦ hparted.elim⟩
    obtain ⟨hinner, hscopes⟩ := hrelated.openFrame (some _) hlinked.scopes
    exact .completed (Nat.le_refl _) ⟨hlinked.depth, hlinked.sink, hscopes⟩ hinner
  assign name value hhome := by
    obtain rfl := hhome
    exact represented_scopes (Scopes.assign · _ name value) (Scopes.assign · _ name value)
      fun _ _ ↦ hrelated.assign _ name value
  declare name binding hhome := by
    obtain rfl := hhome
    exact represented_scopes (Scopes.declare · _ name binding) (Scopes.declare · _ name binding)
      fun _ _ ↦ hrelated.declare _ name binding
  declareFunction function hhome := by
    obtain rfl := hhome
    exact represented_scopes (Scopes.declareFunction · _ function)
      (Scopes.declareFunction · _ function) fun _ _ ↦ hrelated.declareFunction _ function
  write stage line text := by
    refine ⟨fun s t hlinked ↦ ?_, fun _ _ _ hparted ↦ hparted.elim⟩
    rw [EvalM.write_apply, EvalM.write_apply, hlinked.sink]
    exact .alike ⟨hlinked.depth, rfl, hlinked.scopes⟩ fun _ _ ↦ rfl
  entered line h := h.deeper (represented_levels limit) line
  fault _ _ _ := trivial
  outOfFuel := trivial

end Simulation

open Simulation

namespace Scopes.IsRepresentation

variable {related : S → T → Prop}

/-- A node comes to the same over related scopes, and leaves them related. -/
theorem evaluate (hrelated : Scopes.IsRepresentation related) (limit fuel : Nat) (env : FrameId)
    (node : Node) {s : State S} {t : State T} (hstates : Represents related s t) :
    (Treewalk.evaluate fuel (calls limit fuel) env node t).1 =
        (Treewalk.evaluate fuel (calls limit fuel) env node s).1 ∧
      Represents related (Treewalk.evaluate fuel (calls limit fuel) env node s).2
        (Treewalk.evaluate fuel (calls limit fuel) env node t).2 := by
  have hsound := represented_isSound hrelated limit
  have hagrees : (represented related).Agrees 0
      (Treewalk.evaluate fuel (calls limit fuel) env node)
      (Treewalk.evaluate fuel (calls limit fuel) env node) :=
    hsound.agrees_evaluate (hsound.invokes_calls (.refl fuel)) (.refl fuel) node rfl fun _ _ ↦ rfl
  obtain ⟨houtcome, _, hafter⟩ := hagrees.lockstep represented_unparted hstates
  exact ⟨houtcome, hafter⟩

/-- A program comes to the same over either type of scopes. -/
theorem runIn (hrelated : Scopes.IsRepresentation related) (fuel : Nat) (evaluator : Evaluator)
    (root : Node) :
    (evaluator.runIn T fuel root).outcome = (evaluator.runIn S fuel root).outcome ∧
      (evaluator.runIn T fuel root).evaluator = (evaluator.runIn S fuel root).evaluator ∧
      related (evaluator.runIn S fuel root).scopes (evaluator.runIn T fuel root).scopes := by
  obtain ⟨hinner, hopened⟩ := hrelated.openFrame none hrelated.empty
  obtain ⟨houtcome, hafter⟩ := hrelated.evaluate evaluator.limit fuel
    (Scopes.openFrame (Scopes.empty : S) none).1 root
    (s := ⟨_, evaluator.depth, evaluator.sink⟩) (t := ⟨_, evaluator.depth, evaluator.sink⟩)
    ⟨rfl, rfl, hopened⟩
  unfold Evaluator.runIn
  rw [Evaluator.runBeside_eq, Evaluator.runBeside_eq, hinner]
  unfold Evaluator.concluded
  rw [houtcome, hafter.depth, hafter.sink]
  exact ⟨rfl, rfl, hafter.scopes⟩

end Scopes.IsRepresentation

end Treewalk
