import Mathlib.Order.WellFounded
import Treewalk.Proofs.Scope.Chain
import Treewalk.Proofs.Simulation.Representation

/-!
# Other numbers for frames

The number of a frame says when it was opened, and nothing else depends on it. If the frames of one
store stand in another, in the same order but at other places (`Store.Renumbered`), then each
operation on the first is the same operation on the second at the new place. So what an evaluation
comes to does not depend on frames that were opened in between and that nothing leads to
(`execBlock_renumbered`).
-/

set_option autoImplicit false
set_option relaxedAutoImplicit false

namespace Treewalk

/-- A frame whose outer frame stands at another place. -/
def Frame.renumbered (place : FrameId → FrameId) (frame : Frame) : Frame :=
  { frame with outer := frame.outer.map place }

def Closure.renumbered (place : FrameId → FrameId) (closure : Closure) : Closure :=
  { closure with frame := place closure.frame }

namespace Store

/-- The frames of the first store stand at these places in the second, and the frames that are
opened in both from now on will. -/
structure Renumbered (place : FrameId → FrameId) (first second : Store) : Prop where
  frame : ∀ id, second.frames[place id]? = first.frames[id]?.map (Frame.renumbered place)
  unopened : ∀ offset : Nat, place (first.frames.size + offset) = second.frames.size + offset

variable {place : FrameId → FrameId} {first second : Store}

namespace Renumbered

/-! ### Single frames -/

theorem next (h : first.Renumbered place second) :
    place first.frames.size = second.frames.size :=
  h.unopened 0

theorem outer? (h : first.Renumbered place second) (id : FrameId) :
    second.outer? (place id) = (first.outer? id).map place := by
  rw [Store.outer?, Store.outer?, h.frame]
  cases first.frames[id]? <;> rfl

theorem binding? (h : first.Renumbered place second) (name : String) (id : FrameId) :
    second.binding? name (place id) = first.binding? name id := by
  rw [Store.binding?, Store.binding?, h.frame]
  cases first.frames[id]? <;> rfl

theorem function? (h : first.Renumbered place second) (name : String) (id : FrameId) :
    second.function? name (place id) = first.function? name id := by
  rw [Store.function?, Store.function?, h.frame]
  cases first.frames[id]? <;> rfl

/-! ### Look-ups -/

theorem chainWithin (h : first.Renumbered place second) (steps : Nat) (id : FrameId) :
    second.chainWithin steps (place id) = (first.chainWithin steps id).map place := by
  induction steps generalizing id with
  | zero => rfl
  | succ steps ih =>
    rw [Store.chainWithin, Store.chainWithin, h.frame]
    cases first.frames[id]? with
    | none => rfl
    | some frame =>
      rcases frame with ⟨_, _, _ | outer⟩
      · rfl
      · exact congrArg (_ :: ·) (ih outer)

variable (hplace : StrictMono place)

include hplace

theorem chain (h : first.Renumbered place second) (hfirst : first.WellFormed) (id : FrameId) :
    second.chain (place id) = (first.chain id).map place := by
  have hid : id < place id + 1 := Nat.lt_succ_of_le hplace.le_apply
  rw [Store.chain, h.chainWithin, chainWithin_eq_chain hfirst hid]

theorem get? (h : first.Renumbered place second) (hfirst : first.WellFormed) (id : FrameId)
    (name : String) : second.get? (place id) name = first.get? id name := by
  rw [Store.get?, Store.get?, h.chain hplace hfirst, List.findSome?_map]
  exact findSome?_congr fun frame _ ↦ h.binding? name frame

theorem owner? (h : first.Renumbered place second) (hfirst : first.WellFormed) (id : FrameId)
    (name : String) : second.owner? (place id) name = (first.owner? id name).map place := by
  rw [Store.owner?, Store.owner?, h.chain hplace hfirst, List.find?_map]
  exact congrArg _ (List.find?_congr fun frame _ ↦ congrArg Option.isSome (h.binding? name frame))

theorem closure? (h : first.Renumbered place second) (hfirst : first.WellFormed) (id : FrameId)
    (name : String) :
    second.closure? (place id) name = (first.closure? id name).map (Closure.renumbered place) := by
  rw [Store.closure?, Store.closure?, h.chain hplace hfirst, List.findSome?_map,
    List.map_findSome?]
  refine findSome?_congr fun frame _ ↦ ?_
  rw [Function.comp_apply, Function.comp_apply, h.function?, Option.map_map]
  rfl

/-! ### Operations -/

theorem openFrame (h : first.Renumbered place second) (outer : Option FrameId) :
    (first.openFrame outer).2.Renumbered place (second.openFrame (outer.map place)).2 where
  frame id := by
    rw [getElem?_openFrame, getElem?_openFrame, ← h.next]
    by_cases hid : id = first.frames.size
    · rw [if_pos (congrArg place hid), if_pos hid]
      rfl
    · rw [if_neg fun heq ↦ hid (hplace.injective heq), if_neg hid, h.frame]
  unopened offset := by
    rw [size_openFrame, size_openFrame, Nat.add_right_comm, Nat.add_right_comm _ 1]
    exact h.unopened (offset + 1)

/-- A frame is changed where it stands. -/
theorem modify (h : first.Renumbered place second) (id : FrameId) {update update' : Frame → Frame}
    (hupdate : ∀ frame : Frame,
      update' (frame.renumbered place) = (update frame).renumbered place) :
    (⟨first.frames.modify id update⟩ : Store).Renumbered place
      ⟨second.frames.modify (place id) update'⟩ where
  frame other := by
    rw [Array.getElem?_modify, Array.getElem?_modify, h.frame]
    by_cases hother : id = other
    · rw [if_pos (congrArg place hother), if_pos hother]
      cases first.frames[other]? with
      | none => rfl
      | some frame => exact congrArg some (hupdate frame)
    · rw [if_neg fun heq ↦ hother (hplace.injective heq), if_neg hother]
  unopened offset := by
    rw [Array.size_modify, Array.size_modify]
    exact h.unopened offset

theorem declare (h : first.Renumbered place second) (id : FrameId) (name : String)
    (binding : Binding) :
    (first.declare id name binding).Renumbered place (second.declare (place id) name binding) :=
  h.modify hplace id fun _ ↦ rfl

theorem declareFunction (h : first.Renumbered place second) (id : FrameId) (function : Function) :
    (first.declareFunction id function).Renumbered place
      (second.declareFunction (place id) function) :=
  h.modify hplace id fun _ ↦ rfl

theorem assign (h : first.Renumbered place second) (hfirst : first.WellFormed) (id : FrameId)
    (name : String) (value : Value) :
    (first.assign id name value).Renumbered place (second.assign (place id) name value) := by
  have howner : ((first.owner? id name).map place).getD (place id) =
      place ((first.owner? id name).getD id) := by
    cases first.owner? id name <;> rfl
  rw [Store.assign, Store.assign, h.owner? hplace hfirst, howner]
  exact h.declare hplace _ name _

end Renumbered

end Store

/-! ### Two runs -/

namespace Simulation

/-- Runs of one evaluation over stores whose frames stand at different places. The stage is a number
of frames that are open. -/
def renumbering (place : FrameId → FrameId) : Simulation Store Store where
  linked stage s t := Represents (Store.Renumbered place) s t ∧ s.scopes.WellFormed ∧
    stage ≤ s.scopes.frames.size
  parted _ _ _ _ := False
  ends _ := True
  site stage env env' := env' = place env ∧ env < stage
  home stage env env' := env' = place env ∧ env < stage

variable {place : FrameId → FrameId} {stage : Nat}

theorem renumbering_unparted : (renumbering place).Unparted :=
  fun _ _ _ _ ↦ not_false

theorem renumbering_levels (limit : Nat) : (renumbering place).Levels limit limit where
  enter hlinked hroom :=
    ⟨hlinked.1.depth ▸ hroom, ⟨congrArg (· + 1) hlinked.1.depth, hlinked.1.sink, hlinked.1.scopes⟩,
      hlinked.2⟩
  refuse _ hlinked hfull := .inl ⟨rfl, hlinked.1.depth ▸ hfull⟩
  leave hlinked :=
    ⟨⟨congrArg (· - 1) hlinked.1.depth, hlinked.1.sink, hlinked.1.scopes⟩, hlinked.2⟩
  leave_first hparted := hparted.elim
  move_second _ hparted := hparted.elim
  ends _ := trivial

/-- What is done to the scopes alone, in both stores, and leaves the links as they are. -/
theorem renumbering_scopes (update update' : Store → Store)
    (hupdate : ∀ first second : Store, first.Renumbered place second → first.WellFormed →
      (update first).Renumbered place (update' second))
    (hsize : ∀ store : Store, (update store).frames.size = store.frames.size)
    (houter : ∀ (store : Store) id, (update store).outer? id = store.outer? id) :
    (renumbering place).Agrees stage
      (fun state ↦ (.ok (), { state with scopes := update state.scopes }) : EvalM Store Unit)
      (fun state ↦ (.ok (), { state with scopes := update' state.scopes })) where
  together s t hlinked := by
    obtain ⟨hstates, hfirst, hstage⟩ := hlinked
    refine .completed (Nat.le_refl stage) ⟨⟨hstates.depth, hstates.sink, ?_⟩,
      hfirst.congr (houter s.scopes), (hsize s.scopes).symm ▸ hstage⟩ rfl
    exact hupdate s.scopes t.scopes hstates.scopes hfirst
  alone _ _ _ hparted := hparted.elim

theorem renumbering_resolve (hplace : StrictMono place) (env : FrameId) (name : String)
    (count : Nat) (line : Line) :
    (renumbering place).Matches stage (renumbering place).Callable
      (EvalM.resolve env name count line) (EvalM.resolve (place env) name count line) where
  together s t hlinked := by
    obtain ⟨hstates, hfirst, hstage⟩ := hlinked
    have hfound : Scopes.closure? t.scopes (place env) name =
        (Scopes.closure? s.scopes env name).map (Closure.renumbered place) :=
      hstates.scopes.closure? hplace hfirst env name
    unfold EvalM.resolve
    rw [hfound]
    cases hclosure : Scopes.closure? s.scopes env name with
    | none => exact .stopped (Nat.le_refl stage) ⟨hstates, hfirst, hstage⟩
    | some closure =>
      by_cases harity : closure.function.parameters.length = count
      · simp only [Option.map_some, Closure.renumbered, harity, if_true]
        exact .completed hstage ⟨hstates, hfirst, Nat.le_refl _⟩
          ⟨rfl, rfl, Store.lt_size_of_closure? hclosure⟩
      · simp only [Option.map_some, Closure.renumbered, harity, if_false]
        exact .stopped (Nat.le_refl stage) ⟨hstates, hfirst, hstage⟩
  alone _ _ _ := False.elim

theorem renumbering_openFrame (hplace : StrictMono place) {env : FrameId} (hopen : env < stage) :
    (renumbering place).Matches stage (renumbering place).home (EvalM.openFrame env)
      (EvalM.openFrame (place env)) where
  together s t hlinked := by
    obtain ⟨hstates, hfirst, hstage⟩ := hlinked
    have hwell : (s.scopes.openFrame (some env)).2.WellFormed :=
      hfirst.openFrame fun _ houter ↦ by
        cases houter
        exact Nat.lt_of_lt_of_le hopen hstage
    have hsize := Store.size_openFrame s.scopes (some env)
    exact .completed (Nat.le_succ_of_le hstage)
      ⟨⟨hstates.depth, hstates.sink, hstates.scopes.openFrame hplace (some env)⟩, hwell,
        Nat.le_of_eq hsize.symm⟩
      ⟨hstates.scopes.next.symm, Nat.lt_succ_self _⟩
  alone _ _ _ := False.elim

theorem renumbering_isSound (hplace : StrictMono place) (limit : Nat) :
    (renumbering place).IsSound (EvalM.deeper limit) (EvalM.deeper limit) where
  site_mono hlater hsite := ⟨hsite.1, Nat.lt_of_lt_of_le hsite.2 hlater⟩
  home_mono hlater hhome := ⟨hhome.1, Nat.lt_of_lt_of_le hhome.2 hlater⟩
  site_of_home hhome := hhome
  read name line hsite := by
    obtain ⟨rfl, _⟩ := hsite
    refine .readOnly renumbering_unparted (EvalM.read_state _ name line)
      (EvalM.read_state _ name line) (fun s t hlinked ↦ ?_) fun _ _ _ _ _ ↦ rfl
    exact EvalM.read_congr (hlinked.1.scopes.get? hplace hlinked.2.1 _ name) line
  resolve name count line hsite := by
    obtain ⟨rfl, _⟩ := hsite
    exact renumbering_resolve hplace _ name count line
  openFrame hsite := by
    obtain ⟨rfl, hopen⟩ := hsite
    exact renumbering_openFrame hplace hopen
  assign name value hhome := by
    obtain ⟨rfl, _⟩ := hhome
    exact renumbering_scopes (·.assign _ name value) (·.assign _ name value)
      (fun _ _ h hfirst ↦ h.assign hplace hfirst _ name value)
      (fun _ ↦ Store.size_assign _ _ _ _) fun _ _ ↦ Store.outer?_assign _ _ _ _ _
  declare name binding hhome := by
    obtain ⟨rfl, _⟩ := hhome
    exact renumbering_scopes (·.declare _ name binding) (·.declare _ name binding)
      (fun _ _ h _ ↦ h.declare hplace _ name binding)
      (fun _ ↦ Store.size_declare _ _ _ _) fun _ _ ↦ Store.outer?_declare _ _ _ _ _
  declareFunction function hhome := by
    obtain ⟨rfl, _⟩ := hhome
    exact renumbering_scopes (·.declareFunction _ function) (·.declareFunction _ function)
      (fun _ _ h _ ↦ h.declareFunction hplace _ function)
      (fun _ ↦ Store.size_declareFunction _ _ _) fun _ _ ↦ Store.outer?_declareFunction _ _ _ _
  write stage line text := by
    refine ⟨fun s t hlinked ↦ ?_, fun _ _ _ ↦ False.elim⟩
    rw [EvalM.write_apply, EvalM.write_apply, hlinked.1.sink]
    exact .alike ⟨⟨hlinked.1.depth, rfl, hlinked.1.scopes⟩, hlinked.2⟩ fun _ _ ↦ rfl
  entered line h := h.deeper (renumbering_levels limit) line
  fault _ _ _ := trivial
  outOfFuel := trivial

end Simulation

open Simulation

/-- A block comes to the same in a frame that stands at another place, and leaves the frames in
their places. -/
theorem execBlock_renumbered {place : FrameId → FrameId} (hplace : StrictMono place)
    (limit fuel : Nat) (body : List Stmt) {env : FrameId} {s t : State Store}
    (hstates : Represents (Store.Renumbered place) s t) (hstore : s.scopes.WellFormed)
    (henv : env < s.scopes.frames.size) :
    let first := execBlock fuel (calls limit fuel) env body s
    let second := execBlock fuel (calls limit fuel) (place env) body t
    second.1 = first.1 ∧ Represents (Store.Renumbered place) first.2 second.2 ∧
      first.2.scopes.WellFormed := by
  have hsound : (renumbering place).IsSound _ _ := renumbering_isSound hplace limit
  have hagrees := hsound.isSoundIn.agrees_execBlock
    (invokesIn_everything.mpr (hsound.invokes_calls (.refl fuel))) (.refl fuel) body
    (fun stmt _ ↦ Fragment.hasStmt_everything stmt) ⟨rfl, henv⟩
  rw [Stmt.mapBlocksOfAll_id] at hagrees
  obtain ⟨houtcome, _, hafter, hwell, _⟩ :=
    hagrees.lockstep renumbering_unparted ⟨hstates, hstore, Nat.le_refl _⟩
  exact ⟨houtcome, hafter, hwell⟩

end Treewalk
