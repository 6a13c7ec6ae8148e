import Treewalk.Proofs.Call.Watch
import Treewalk.Proofs.Simulation.Declared

/-!
# Programs without loops

A program without loops, among functions without loops, comes to an end however its functions call
one another, since the limit on open calls bounds them (`evaluate_terminates`). Every call takes
one unit of fuel and one of the calls that may still be opened, and within a body the evaluation
follows the syntax. So what is left of the limit is all the fuel that there has to be.
-/

set_option autoImplicit false
set_option relaxedAutoImplicit false

namespace Treewalk

/-- Programs without loops. -/
def Fragment.loopFree : Fragment :=
  ⟨fun _ ↦ True, fun stmt ↦ stmt.isLoop = false⟩

/-- As many calls are open as before, and there is a unit of fuel for each that may be opened
besides. -/
structure Provided (limit fuel : Nat) (s t : State Store) : Prop where
  depth : t.depth = s.depth
  fuel : limit ≤ s.depth + fuel

namespace Simulation

/-- A run alone, among functions without loops and with fuel for its calls, that does not stop for
want of fuel. -/
abbrev provided (within : FrameId → Prop) (limit fuel : Nat) : Simulation Store Store :=
  among within (fun _ function ↦ Fragment.loopFree.HasBlock function.body) (Provided limit fuel)
    (· ≠ .outOfFuel)

variable {within : FrameId → Prop} {limit fuel : Nat}

theorem provided_isSteady (limit fuel : Nat) :
    IsSteady .loopFree limit (fun _ function ↦ Fragment.loopFree.HasBlock function.body)
      (Provided limit fuel) (· ≠ .outOfFuel) where
  declared hdeclaration := hdeclaration.block List.mem_cons_self
  body hholds := hholds
  scopes _ hprovided := ⟨hprovided.depth, hprovided.fuel⟩
  write _ _ hprovided := ⟨hprovided.depth, hprovided.fuel⟩
  opened {s t} hprovided := by
    have hfuel := hprovided.fuel
    exact ⟨congrArg (· + 1) hprovided.depth, by dsimp only; omega⟩
  closed hprovided hafter := ⟨congrArg (· - 1) hafter.depth, hprovided.fuel⟩
  undeclared _ := nofun
  uninitialized _ := nofun
  unresolved _ := nofun
  arity _ _ _ := nofun
  refused _ := nofun
  unwritten _ _ := nofun
  expr_raises _ _ := nofun
  stmt_raises _ _ := nofun
  loop hstmt hloop := by
    rw [hstmt] at hloop
    cases hloop

/-- With no fuel left, no call may be opened. -/
theorem provided_deeper_zero {stage : Nat} (line : Line) {α : Type} {first body : EvalM Store α} :
    (provided within limit 0).Agrees stage first (EvalM.deeper limit line body) := by
  have hbody : Keeps (fun _ _ ↦ False) (· ≠ .outOfFuel) body :=
    ⟨fun _ _ ↦ False.elim, fun _ _ _ ↦ False.elim⟩
  refine solo_agrees (hbody.deeper (fun s t hkeeps hroom ↦ ?_) (fun _ _ _ _ ↦ False.elim)
    fun _ _ _ _ ↦ nofun)
  obtain ⟨hdepth, hfuel⟩ := hkeeps.1
  omega

/-- What a body keeps with some fuel, its call keeps with one unit more. -/
theorem provided_deeper_succ {stage : Nat} (line : Line) {α : Type} {first body : EvalM Store α}
    (hbody : (provided within limit fuel).Agrees stage first body) :
    (provided within limit (fuel + 1)).Agrees stage (EvalM.deeper limit line first)
      (EvalM.deeper limit line body) := by
  refine solo_agrees ((keeps_of_solo stage hbody).deeper (fun s t hkeeps _ ↦ ?_)
    (fun s t after hkeeps hafter ↦ ?_) fun _ _ _ _ ↦ nofun)
  · obtain ⟨hdepth, hfuel⟩ := hkeeps.1
    exact ⟨⟨congrArg (· + 1) hdepth, by dsimp only; omega⟩, hkeeps.2⟩
  · exact ⟨⟨congrArg (· - 1) hafter.1.depth, hkeeps.1.fuel⟩, hafter.2⟩

/-- Calls are run with enough fuel, by induction on the fuel: a body that is run at all has one unit
less and one open call more. -/
theorem provided_invokes (within : FrameId → Prop) (limit fuel : Nat) :
    (provided within limit fuel).InvokesIn .loopFree id (calls limit fuel)
      (calls limit fuel) := by
  induction fuel with
  | zero =>
    intro stage closure closure' _ _ values line _ _
    unfold calls callsBy invoke
    exact provided_deeper_zero line
  | succ fuel ih =>
    intro stage closure closure' _ _ values line _ hcallable
    have hsound : (provided within limit fuel).IsSoundIn .loopFree id (EvalM.deeper limit)
        (EvalM.deeper limit) := (provided_isSteady limit fuel).isSoundIn
    have hbodies : ∀ later env env' body, Fragment.loopFree.HasBlock body → within env' →
        (provided within limit fuel).Agrees later
          (runBody (EvalM.deeper limit) (fuel + 1) env body)
          (runBody (EvalM.deeper limit) (fuel + 1) env' (Stmt.mapBlocksOfAll id body)) :=
      fun later env env' body hbody hwithin ↦
        hsound.agrees_execBlock ih (.refl fuel) body hbody hwithin
    unfold calls callsBy invoke
    exact provided_deeper_succ line (hsound.agrees_runFunction hbodies values
      ⟨hcallable.function, hcallable.body, hcallable.frame⟩)

end Simulation

open Simulation

/-- A node without loops, evaluated where the functions have no loops either, comes to an end: to a
result or to an error. One unit of fuel for each call that may still be opened is enough. -/
theorem evaluate_terminates {limit fuel : Nat} {env : FrameId} {node : Node} {state : State Store}
    (hstore : state.scopes.WellFormed) (hnode : Fragment.loopFree.HasNode node)
    (hfunctions : ∀ frame ∈ state.scopes.chain env, ∀ name function,
      state.scopes.function? name frame = some function →
        Fragment.loopFree.HasBlock function.body)
    (hfuel : limit ≤ state.depth + fuel) :
    (∃ result, (evaluate fuel (calls limit fuel) env node state).1 = .ok result) ∨
      ∃ error, (evaluate fuel (calls limit fuel) env node state).1 = .error (.error error) := by
  have hmet : state.scopes.Declares (state.scopes.Met env)
      fun _ function ↦ Fragment.loopFree.HasBlock function.body := by
    refine ⟨Store.enclosed_met hstore env, fun frame name function hframe hfunction ↦ ?_⟩
    rcases hframe with hchain | hfresh
    · exact hfunctions frame hchain name function hfunction
    · rw [Store.function?, Array.getElem?_eq_none hfresh] at hfunction
      cases hfunction
  have hkeeps := (provided_isSteady limit fuel).evaluate
    (provided_invokes (state.scopes.Met env) limit fuel) fuel (state.scopes.met_self env) hnode
  cases houtcome : (evaluate fuel (calls limit fuel) env node state).1 with
  | ok result => exact .inl ⟨result, rfl⟩
  | error stop =>
    cases stop with
    | error error => exact .inr ⟨error, rfl⟩
    | outOfFuel => exact absurd rfl (hkeeps.stop state state _ ⟨⟨rfl, hfuel⟩, hmet⟩ houtcome)

theorem Store.wellFormed_endless : Store.endless.WellFormed := by
  intro id outer houter
  rcases id with _ | id <;> cases houter

/-- A function that does nothing but call itself comes to an end under a limit of three calls. -/
theorem evaluate_terminates_endless :
    let call : Node := .expr (.call "f" [] 1)
    let outcome := (evaluate 3 (calls 3 3) 0 call (⟨Store.endless, 0, {}⟩ : State Store)).1
    (∃ result, outcome = .ok result) ∨ ∃ error, outcome = .error (.error error) := by
  intro call outcome
  have hnode : Fragment.loopFree.HasNode call := ⟨fun _ _ ↦ trivial, nofun⟩
  have hbody : Fragment.loopFree.HasBlock [.call "f" [] 1] := by
    intro stmt hstmt part hpart
    obtain rfl := List.mem_singleton.mp hstmt
    obtain rfl := List.mem_singleton.mp hpart
    exact ⟨rfl, nofun⟩
  have hall : Store.endless.AllFunctions (fun _ ↦ True)
      fun _ function ↦ Fragment.loopFree.HasBlock function.body := by
    have hdeclared : Store.endless =
        (({} : Store).openFrame none).2.declareFunction 0 ⟨"f", [], [.call "f" [] 1], 1⟩ := by
      simp [Store.endless, Store.declareFunction, Store.openFrame, Table.insert, Table.insertEntry]
    rw [hdeclared]
    exact ((Store.allFunctions_empty _ _).openFrame none).declareFunction 0 hbody
  exact evaluate_terminates Store.wellFormed_endless hnode
    (fun frame _ name function ↦ hall frame name function trivial) (Nat.le_refl 3)

end Treewalk
