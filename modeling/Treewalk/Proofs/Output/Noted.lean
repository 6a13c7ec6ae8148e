import Treewalk.Evaluator
import Treewalk.Proofs.Simulation.Evaluator

/-!
# Noting the scopes at each write

`EvalM.noting` writes as `EvalM.write` does, and notes the scopes in which the write is made. The
notes are kept in `Noted` scopes, which are otherwise those that they are made of, so that a run
whose prints write in this way is the run, with one note for each write (`runNoted_eq`). The note of
a write holds everything that was declared and assigned before it, and nothing of what came later.
-/

set_option autoImplicit false
set_option relaxedAutoImplicit false

namespace Treewalk

/-- Scopes with notes on what they were at each write, the latest last. -/
structure Noted (S : Type) where
  scopes : S
  notes : List S := []

variable {S α : Type}

/-- Changes the scopes and leaves the notes. -/
def Noted.map (change : S → S) (noted : Noted S) : Noted S :=
  ⟨change noted.scopes, noted.notes⟩

instance [Scopes S] : Scopes (Noted S) where
  empty := { scopes := Scopes.empty }
  openFrame noted outer :=
    ((Scopes.openFrame noted.scopes outer).1, noted.map fun scopes ↦
      (Scopes.openFrame scopes outer).2)
  get? noted := Scopes.get? noted.scopes
  declare noted env name binding := noted.map (Scopes.declare · env name binding)
  assign noted env name value := noted.map (Scopes.assign · env name value)
  declareFunction noted env function := noted.map (Scopes.declareFunction · env function)
  closure? noted := Scopes.closure? noted.scopes

namespace State

def unnoted (state : State (Noted S)) : State S :=
  { state with scopes := state.scopes.scopes }

/-- Notes the scopes as they are. -/
def note (state : State (Noted S)) : State (Noted S) :=
  { state with scopes :=
      { state.scopes with notes := state.scopes.notes ++ [state.scopes.scopes] } }

end State

/-- Writes a text to the sink, and notes the scopes in which this is done. -/
def EvalM.noting (line : Line) (text : String) : EvalM (Noted S) Unit :=
  fun state ↦ EvalM.write line text state.note

/-- A run of a program with the scopes noted at each write. -/
def Evaluator.runNoted (S : Type) [Scopes S] (fuel : Nat) (evaluator : Evaluator) (root : Node) :
    Evaluation (Noted S) Unit :=
  let (env, opened) := Scopes.openFrame (Scopes.empty : Noted S) none
  let calls := callsWith EvalM.noting (EvalM.deeper evaluator.limit) fuel
  evaluator.concluded root.line
    (evaluateWith EvalM.noting fuel calls env root ⟨opened, evaluator.depth, evaluator.sink⟩)

namespace Simulation

/-- A run and the same run noted, with a note for each write but the first few. -/
def noting (earlier : Nat) : Simulation S (Noted S) where
  linked _ s t := t.unnoted = s ∧ earlier + t.scopes.notes.length = t.sink.chunks.size
  parted _ _ _ _ := False
  ends _ := True
  site _ env env' := env' = env
  home _ env env' := env' = env

variable {earlier stage : Nat} {post : Nat → α → α → Prop}

theorem noting_unparted : (noting earlier : Simulation S (Noted S)).Unparted :=
  fun _ _ _ _ ↦ not_false

/-- What leaves the sink and the notes alone is noted if it does the same to the rest. -/
theorem noting_matches {first : EvalM S α} {second : EvalM (Noted S) α}
    (houtcome : ∀ t, (second t).1 = (first t.unnoted).1)
    (hstate : ∀ t, (second t).2.unnoted = (first t.unnoted).2)
    (hsink : ∀ t, (second t).2.sink = t.sink)
    (hnotes : ∀ t, (second t).2.scopes.notes = t.scopes.notes)
    (hpost : ∀ result, post stage result result) :
    (noting earlier).Matches stage post first second where
  together s t hlinked := by
    obtain ⟨rfl, hlength⟩ := hlinked
    have hright : second t = ((first t.unnoted).1, (second t).2) := Prod.ext (houtcome t) rfl
    rw [hright]
    refine .alike ⟨hstate t, ?_⟩ fun result _ ↦ hpost result
    rwa [hsink, hnotes]
  alone _ _ _ hparted := hparted.elim

theorem noting_write (line : Line) (text : String) :
    (noting earlier : Simulation S (Noted S)).Agrees stage (EvalM.write line text)
      (EvalM.noting line text) where
  together s t hlinked := by
    obtain ⟨rfl, hlength⟩ := hlinked
    rw [EvalM.noting, EvalM.write_apply, EvalM.write_apply]
    refine .alike ⟨rfl, ?_⟩ fun _ _ ↦ rfl
    simp only [State.note, Sink.write, List.length_append, List.length_singleton, Array.size_push]
    omega
  alone _ _ _ hparted := hparted.elim

theorem noting_levels (limit : Nat) :
    (noting earlier : Simulation S (Noted S)).Levels limit limit where
  enter hlinked hroom := by
    obtain ⟨rfl, hlength⟩ := hlinked
    exact ⟨hroom, rfl, hlength⟩
  refuse _ hlinked hfull := by
    obtain ⟨rfl, -⟩ := hlinked
    exact .inl ⟨rfl, hfull⟩
  leave hlinked := by
    obtain ⟨rfl, hlength⟩ := hlinked
    exact ⟨rfl, hlength⟩
  leave_first := False.elim
  move_second _ := False.elim
  ends _ := trivial

theorem noting_isSoundWith [Scopes S] (limit : Nat) :
    (noting earlier : Simulation S (Noted S)).IsSoundWith (EvalM.deeper limit) (EvalM.deeper limit)
      EvalM.noting where
  site_mono _ hsite := hsite
  home_mono _ hhome := hhome
  site_of_home hhome := hhome
  read name line hsite := by
    obtain rfl := hsite
    refine noting_matches (fun _ ↦ EvalM.read_congr (by rfl) line) (fun _ ↦ ?_)
      (fun _ ↦ ?_) (fun _ ↦ ?_) fun _ ↦ rfl <;> simp only [EvalM.read_state]
  resolve name count line hsite := by
    obtain rfl := hsite
    refine noting_matches (fun _ ↦ EvalM.resolve_congr (by rfl) count line)
      (fun _ ↦ ?_) (fun _ ↦ ?_) (fun _ ↦ ?_) fun _ ↦ ⟨rfl, rfl⟩ <;>
      simp only [EvalM.resolve_state]
  openFrame hsite :=
    hsite ▸ noting_matches (fun _ ↦ rfl) (fun _ ↦ rfl) (fun _ ↦ rfl) (fun _ ↦ rfl) fun _ ↦ rfl
  assign _ _ hhome :=
    hhome ▸ noting_matches (fun _ ↦ rfl) (fun _ ↦ rfl) (fun _ ↦ rfl) (fun _ ↦ rfl) fun _ ↦ rfl
  declare _ _ hhome :=
    hhome ▸ noting_matches (fun _ ↦ rfl) (fun _ ↦ rfl) (fun _ ↦ rfl) (fun _ ↦ rfl) fun _ ↦ rfl
  declareFunction _ hhome :=
    hhome ▸ noting_matches (fun _ ↦ rfl) (fun _ ↦ rfl) (fun _ ↦ rfl) (fun _ ↦ rfl) fun _ ↦ rfl
  write _ line text := noting_write line text
  entered line h := h.deeper (noting_levels limit) line
  fault _ _ _ := trivial
  outOfFuel := trivial

end Simulation

open Simulation Evaluator

/-- A noted run is the run, and has a note for each of its writes. -/
theorem runNoted_eq [Scopes S] (fuel : Nat) (evaluator : Evaluator) (root : Node) :
    let plain := evaluator.runIn S fuel root
    let noted := evaluator.runNoted S fuel root
    noted.outcome = plain.outcome ∧ noted.evaluator = plain.evaluator ∧
      noted.scopes.scopes = plain.scopes ∧
      evaluator.sink.chunks.size + noted.scopes.notes.length =
        plain.evaluator.sink.chunks.size := by
  intro plain noted
  let opened := Scopes.openFrame (Scopes.empty : S) none
  have hagrees : (noting evaluator.sink.chunks.size : Simulation S (Noted S)).Agrees 0
      (evaluate fuel (calls evaluator.limit fuel) opened.1 root)
      (evaluateWith EvalM.noting fuel
        (callsWith EvalM.noting (EvalM.deeper evaluator.limit) fuel) opened.1 root) :=
    (noting_isSoundWith evaluator.limit).agrees_evaluateWith fuel root rfl fun _ _ ↦ rfl
  obtain ⟨houtcome, _, hstate, hlength⟩ := hagrees.lockstep noting_unparted
    (s := ⟨opened.2, evaluator.depth, evaluator.sink⟩)
    (t := ⟨{ scopes := opened.2 }, evaluator.depth, evaluator.sink⟩) ⟨rfl, rfl⟩
  simp only [plain, noted, runIn, runBeside_eq]
  refine ⟨?_, ?_, ?_, ?_⟩
  · unfold runNoted concluded
    rw [← houtcome, ← hstate]
    rfl
  · unfold runNoted concluded
    rw [← hstate]
    rfl
  · exact congrArg State.scopes hstate
  · unfold concluded
    rw [← hstate]
    exact hlength

/-- Two prints, with a variable assigned between them. -/
example :
    let program : Node := .stmt (.block [.assign "x" (.bool true 1) 1,
      .print (.bool true 2) .newline 2, .assign "x" (.bool false 3) 3,
      .print (.bool true 4) .newline 4] 1)
    (Evaluator.runNoted Store 1 {} program).scopes.notes.map (·.get? 0 "x") =
      [some (.set (.boolean true)), some (.set (.boolean false))] := by rfl

end Treewalk
