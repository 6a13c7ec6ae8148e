import Treewalk.Proofs.Simulation.Evaluator
import Treewalk.Scope.Store

/-!
# Watching the depth

`EvalM.watched` enters a call as `EvalM.deeper` does, and notes each value that the number of open
calls is set to: one when the call is opened, and one when it is closed. No other computation sets
that number. The notes are kept in `Watched` scopes, which are otherwise those that they are made
of, so that watching an evaluation changes nothing; and no number that is noted exceeds the limit
(`evaluate_watched`).
-/

set_option autoImplicit false
set_option relaxedAutoImplicit false

namespace Treewalk

/-- Scopes with notes on the depth, the latest last. -/
structure Watched (S : Type) where
  scopes : S
  depths : List Nat := []

variable {S α : Type}

instance [Scopes S] : Scopes (Watched S) where
  empty := { scopes := Scopes.empty }
  openFrame watched outer :=
    let (inner, scopes) := Scopes.openFrame watched.scopes outer
    (inner, { watched with scopes })
  get? watched := Scopes.get? watched.scopes
  declare watched env name binding :=
    { watched with scopes := Scopes.declare watched.scopes env name binding }
  assign watched env name value :=
    { watched with scopes := Scopes.assign watched.scopes env name value }
  declareFunction watched env function :=
    { watched with scopes := Scopes.declareFunction watched.scopes env function }
  closure? watched := Scopes.closure? watched.scopes

namespace State

/-- The state with nothing noted yet. -/
def watched (state : State S) : State (Watched S) :=
  ⟨{ scopes := state.scopes }, state.depth, state.sink⟩

def unwatched (state : State (Watched S)) : State S :=
  ⟨state.scopes.scopes, state.depth, state.sink⟩

/-- Sets the number of open calls and notes it. -/
def setDepth (state : State (Watched S)) (depth : Nat) : State (Watched S) :=
  ⟨{ state.scopes with depths := state.scopes.depths ++ [depth] }, depth, state.sink⟩

end State

/-- Runs the body of a call one call deeper, and notes the depth when the call is opened and when
it is closed. -/
def EvalM.watched (limit : Nat) (line : Line) (body : EvalM (Watched S) α) :
    EvalM (Watched S) α :=
  fun state ↦
    if state.depth < limit then
      let (outcome, after) := body (state.setDepth (state.depth + 1))
      (outcome, after.setDepth (after.depth - 1))
    else
      (.error (.error ⟨.stackOverflow limit, line⟩), state)

namespace Simulation

/-- A run and the same run watched, with nothing noted above the limit. -/
def watching (limit : Nat) : Simulation S (Watched S) where
  linked _ s t := t.unwatched = s ∧ t.depth ≤ limit ∧ ∀ depth ∈ t.scopes.depths, depth ≤ limit
  parted _ _ _ _ := False
  ends _ := True
  site _ env env' := env' = env
  home _ env env' := env' = env

variable {limit stage : Nat} {post : Nat → α → α → Prop}

theorem watching_unparted : (watching limit : Simulation S (Watched S)).Unparted :=
  fun _ _ _ _ ↦ not_false

/-- What leaves the depth and the notes alone is watched if it does the same to the rest. -/
theorem watching_matches {first : EvalM S α} {second : EvalM (Watched S) α}
    (houtcome : ∀ t, (second t).1 = (first t.unwatched).1)
    (hstate : ∀ t, (second t).2.unwatched = (first t.unwatched).2)
    (hdepth : ∀ t, (second t).2.depth = t.depth)
    (hdepths : ∀ t, (second t).2.scopes.depths = t.scopes.depths)
    (hpost : ∀ result, post stage result result) :
    (watching limit).Matches stage post first second where
  together s t hlinked := by
    obtain ⟨rfl, hlimit, hnoted⟩ := hlinked
    have hright : second t = ((first t.unwatched).1, (second t).2) := Prod.ext (houtcome t) rfl
    rw [hright]
    refine .alike ⟨hstate t, ?_, ?_⟩ fun result _ ↦ hpost result
    · rwa [hdepth]
    · rwa [hdepths]
  alone _ _ _ hparted := hparted.elim

theorem watching_setDepth {s : State S} {t : State (Watched S)} {depth : Nat}
    (hlinked : (watching limit).linked stage s t) (hdepth : depth ≤ limit) :
    (watching limit).linked stage { s with depth } (t.setDepth depth) := by
  obtain ⟨rfl, _, hnoted⟩ := hlinked
  refine ⟨rfl, hdepth, fun noted hmem ↦ ?_⟩
  rcases List.mem_append.mp hmem with hold | hnew
  · exact hnoted noted hold
  · exact List.mem_singleton.mp hnew ▸ hdepth

theorem watching_entered (line : Line) {first : EvalM S α} {second : EvalM (Watched S) α}
    (h : (watching limit).Agrees stage first second) :
    (watching limit).Agrees stage (EvalM.deeper limit line first)
      (EvalM.watched limit line second) where
  together s t hlinked := by
    have hdepth : t.depth = s.depth := congrArg State.depth hlinked.1
    unfold EvalM.deeper EvalM.watched
    rw [hdepth]
    by_cases hroom : s.depth < limit
    · rw [if_pos hroom, if_pos hroom]
      have hopened := watching_setDepth hlinked hroom
      refine (h.together _ _ hopened).change (fun s ↦ { s with depth := s.depth - 1 })
        (fun t ↦ t.setDepth (t.depth - 1)) (fun _ s t hafter ↦ ?_) fun _ _ _ _ ↦ False.elim
      obtain rfl : t.unwatched = s := hafter.1
      exact watching_setDepth hafter (Nat.le_trans (Nat.sub_le _ _) hafter.2.1)
    · rw [if_neg hroom, if_neg hroom]
      exact .stopped (Nat.le_refl stage) hlinked
  alone _ _ _ hparted := hparted.elim

theorem watching_isSound [Scopes S] (limit : Nat) :
    (watching limit : Simulation S (Watched S)).IsSound (EvalM.deeper limit)
      (EvalM.watched limit) where
  site_mono _ hsite := hsite
  home_mono _ hhome := hhome
  site_of_home hhome := hhome
  read name line hsite := by
    obtain rfl := hsite
    refine watching_matches (fun _ ↦ EvalM.read_congr (by rfl) line) (fun _ ↦ ?_)
      (fun _ ↦ ?_) (fun _ ↦ ?_) fun _ ↦ rfl <;> simp only [EvalM.read_state]
  resolve name count line hsite := by
    obtain rfl := hsite
    refine watching_matches (fun _ ↦ EvalM.resolve_congr (by rfl) count line)
      (fun _ ↦ ?_) (fun _ ↦ ?_) (fun _ ↦ ?_) fun _ ↦ ⟨rfl, rfl⟩ <;>
      simp only [EvalM.resolve_state]
  openFrame hsite :=
    hsite ▸ watching_matches (fun _ ↦ rfl) (fun _ ↦ rfl) (fun _ ↦ rfl) (fun _ ↦ rfl) fun _ ↦ rfl
  assign _ _ hhome :=
    hhome ▸ watching_matches (fun _ ↦ rfl) (fun _ ↦ rfl) (fun _ ↦ rfl) (fun _ ↦ rfl) fun _ ↦ rfl
  declare _ _ hhome :=
    hhome ▸ watching_matches (fun _ ↦ rfl) (fun _ ↦ rfl) (fun _ ↦ rfl) (fun _ ↦ rfl) fun _ ↦ rfl
  declareFunction _ hhome :=
    hhome ▸ watching_matches (fun _ ↦ rfl) (fun _ ↦ rfl) (fun _ ↦ rfl) (fun _ ↦ rfl) fun _ ↦ rfl
  write _ _ _ :=
    watching_matches (fun _ ↦ rfl) (fun _ ↦ rfl) (fun _ ↦ rfl) (fun _ ↦ rfl) fun _ ↦ rfl
  entered line h := watching_entered line h
  fault _ _ _ := trivial
  outOfFuel := trivial

end Simulation

open Simulation

/-- A watched evaluation is the evaluation, and no depth that is noted in its course exceeds the
limit. -/
theorem evaluate_watched [Scopes S] {limit : Nat} {state : State S} (hdepth : state.depth ≤ limit)
    (fuel : Nat) (env : FrameId) (node : Node) :
    let plain := evaluate fuel (calls limit fuel) env node state
    let watched := evaluate fuel (callsBy (EvalM.watched limit) fuel) env node state.watched
    watched.1 = plain.1 ∧ watched.2.unwatched = plain.2 ∧
      ∀ depth ∈ watched.2.scopes.depths, depth ≤ limit := by
  have hsound := watching_isSound (S := S) limit
  have hagrees : (watching limit).Agrees 0 (evaluate fuel (calls limit fuel) env node)
      (evaluate fuel (callsBy (EvalM.watched limit) fuel) env node) :=
    hsound.agrees_evaluate (hsound.invokes_calls (.refl fuel)) (.refl fuel) node rfl fun _ _ ↦ rfl
  have hlinked : (watching limit).linked 0 state state.watched := ⟨rfl, hdepth, nofun⟩
  obtain ⟨houtcome, _, hstate, _, hnoted⟩ := hagrees.lockstep watching_unparted hlinked
  exact ⟨houtcome, hstate, hnoted⟩

/-- A frame with a function that does nothing but call itself. -/
def Store.endless : Store where
  frames := #[{ functions := ⟨[("f", ⟨"f", [], [.call "f" [] 1], 1⟩)]⟩ }]

/-- Two calls are opened and closed again before the third is refused. -/
example :
    (evaluate 3 (callsBy (EvalM.watched 2) 3) 0 (.expr (.call "f" [] 1))
      (State.watched ⟨Store.endless, 0, {}⟩)).2.scopes.depths = [1, 2, 1, 0] := by rfl

end Treewalk
