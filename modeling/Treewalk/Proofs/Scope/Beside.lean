import Treewalk.Proofs.Scope.Renumbering

/-!
# Runs beside other frames

A program that is run in an outermost frame of its own neither sees nor changes the frames that
are there already. `Store.beside` lays the frames of one store behind those of another, with their
links moved accordingly. Every operation on the store of the run is the same operation on the two
laid side by side, in the moved frame, so a run beside other frames is the run in a store of its own
(`runBeside_eq_run`).
-/

set_option autoImplicit false
set_option relaxedAutoImplicit false

namespace Treewalk

/-- A frame whose outer frame has moved. -/
def Frame.moved (base : Nat) (frame : Frame) : Frame :=
  { frame with outer := frame.outer.map (base + ·) }

def Closure.moved (base : Nat) (closure : Closure) : Closure :=
  { closure with frame := base + closure.frame }

theorem Closure.function_moved (base : Nat) (closure : Closure) :
    (closure.moved base).function = closure.function :=
  rfl

namespace Store

/-- The frames of a store with those of another behind them. -/
def beside (before own : Store) : Store :=
  ⟨before.frames ++ own.frames.map (Frame.moved before.frames.size)⟩

variable (before own : Store) (id : FrameId) (name : String)

/-! ### Frames side by side -/

theorem size_beside :
    (before.beside own).frames.size = before.frames.size + own.frames.size := by
  rw [beside, Array.size_append, Array.size_map]

theorem getElem?_beside_left {before own : Store} {id : FrameId} (hid : id < before.frames.size) :
    (before.beside own).frames[id]? = before.frames[id]? :=
  Array.getElem?_append_left hid

theorem getElem?_beside_right :
    (before.beside own).frames[before.frames.size + id]? =
      own.frames[id]?.map (Frame.moved before.frames.size) := by
  rw [beside, Array.getElem?_append_right (Nat.le_add_right _ _), Nat.add_sub_cancel_left,
    Array.getElem?_map]

theorem strictMono_behind : StrictMono (before.frames.size + ·) :=
  fun _ _ h ↦ Nat.add_lt_add_left h _

/-- The frames of the second store stand behind those of the first. -/
theorem renumbered_beside :
    own.Renumbered (before.frames.size + ·) (before.beside own) where
  frame := getElem?_beside_right before own
  unopened offset := by rw [size_beside, Nat.add_assoc]

/-! ### Operations -/

theorem openFrame_beside (outer : Option FrameId) :
    (before.beside own).openFrame (outer.map (before.frames.size + ·)) =
      (before.frames.size + own.frames.size, before.beside (own.openFrame outer).2) := by
  refine Prod.ext (size_beside before own) ?_
  simp only [openFrame, beside, Array.map_push, Array.push_append]
  rfl

/-- A frame of the second store is changed where it was moved to. -/
theorem modify_beside {update update' : Frame → Frame}
    (hupdate : ∀ frame : Frame, (update frame).moved before.frames.size =
      update' (frame.moved before.frames.size)) :
    (⟨(before.beside own).frames.modify (before.frames.size + id) update'⟩ : Store) =
      before.beside ⟨own.frames.modify id update⟩ := by
  refine congrArg Store.mk (Array.ext_getElem? fun other ↦ ?_)
  change _ = (before.beside ⟨own.frames.modify id update⟩).frames[other]?
  by_cases hother : other < before.frames.size
  · have hne : before.frames.size + id ≠ other :=
      Nat.ne_of_gt (Nat.lt_of_lt_of_le hother (Nat.le_add_right _ _))
    rw [Array.getElem?_modify, if_neg hne, getElem?_beside_left hother, getElem?_beside_left hother]
  · obtain ⟨offset, rfl⟩ := Nat.exists_eq_add_of_le (Nat.le_of_not_lt hother)
    have hmodified := (renumbered_beside before own).modify (strictMono_behind before) id
      fun frame ↦ (hupdate frame).symm
    exact (hmodified.frame offset).trans (getElem?_beside_right before _ offset).symm

theorem declare_beside (binding : Binding) :
    (before.beside own).declare (before.frames.size + id) name binding =
      before.beside (own.declare id name binding) :=
  modify_beside before own id fun _ ↦ rfl

theorem declareFunction_beside (function : Function) :
    (before.beside own).declareFunction (before.frames.size + id) function =
      before.beside (own.declareFunction id function) :=
  modify_beside before own id fun _ ↦ rfl

/-! ### Look-ups -/

variable {before own}

theorem get?_beside (hown : own.WellFormed) :
    (before.beside own).get? (before.frames.size + id) name = own.get? id name :=
  (renumbered_beside before own).get? (strictMono_behind before) hown id name

theorem owner?_beside (hown : own.WellFormed) :
    (before.beside own).owner? (before.frames.size + id) name =
      (own.owner? id name).map (before.frames.size + ·) :=
  (renumbered_beside before own).owner? (strictMono_behind before) hown id name

theorem closure?_beside (hown : own.WellFormed) :
    (before.beside own).closure? (before.frames.size + id) name =
      (own.closure? id name).map (Closure.moved before.frames.size) :=
  (renumbered_beside before own).closure? (strictMono_behind before) hown id name

theorem assign_beside (hown : own.WellFormed) (value : Value) :
    (before.beside own).assign (before.frames.size + id) name value =
      before.beside (own.assign id name value) := by
  have howner : (((own.owner? id name).map (before.frames.size + ·)).getD
      (before.frames.size + id)) = before.frames.size + (own.owner? id name).getD id := by
    cases own.owner? id name <;> rfl
  rw [assign, owner?_beside id name hown, howner, declare_beside]
  rfl

end Store

/-! ### Two runs -/

namespace State

/-- The state of a run with the frames that were there before in front of its own. -/
def beside (before : Store) (state : State Store) : State Store :=
  { state with scopes := before.beside state.scopes }

end State

namespace Simulation

/-- A run in a store of its own, and the same run beside other frames. The stage is a number of
frames that are open. -/
def besides (before : Store) : Simulation Store Store where
  linked stage s t := t = s.beside before ∧ s.scopes.WellFormed ∧ stage ≤ s.scopes.frames.size
  parted _ _ _ _ := False
  ends _ := True
  site stage env env' := env' = before.frames.size + env ∧ env < stage
  home stage env env' := env' = before.frames.size + env ∧ env < stage

variable {before : Store} {stage : Nat}

theorem besides_unparted : (besides before).Unparted :=
  fun _ _ _ _ ↦ not_false

theorem besides_levels (limit : Nat) : (besides before).Levels limit limit where
  enter hlinked hroom := by
    obtain ⟨rfl, hown, hstage⟩ := hlinked
    exact ⟨hroom, rfl, hown, hstage⟩
  refuse _ hlinked hfull := by
    obtain ⟨rfl, _⟩ := hlinked
    exact .inl ⟨rfl, hfull⟩
  leave hlinked := by
    obtain ⟨rfl, hown, hstage⟩ := hlinked
    exact ⟨rfl, hown, hstage⟩
  leave_first hparted := hparted.elim
  move_second _ hparted := hparted.elim
  ends _ := trivial

/-- What is done to the scopes alone, in both stores, and leaves the links as they are. -/
theorem besides_scopes (update update' : Store → Store)
    (hupdate : ∀ own : Store, own.WellFormed →
      update' (before.beside own) = before.beside (update own))
    (hsize : ∀ own : Store, (update own).frames.size = own.frames.size)
    (houter : ∀ (own : Store) id, (update own).outer? id = own.outer? id) :
    (besides before).Agrees stage
      (fun state ↦ (.ok (), { state with scopes := update state.scopes }) : EvalM Store Unit)
      (fun state ↦ (.ok (), { state with scopes := update' state.scopes })) where
  together s t hlinked := by
    obtain ⟨rfl, hown, hstage⟩ := hlinked
    refine .completed (Nat.le_refl stage) ⟨?_, hown.congr (houter s.scopes), ?_⟩ rfl
    · exact congrArg (fun scopes ↦ { s with scopes }) (hupdate s.scopes hown)
    · exact (hsize s.scopes).symm ▸ hstage
  alone _ _ _ hparted := hparted.elim

theorem besides_resolve (env : FrameId) (name : String) (count : Nat) (line : Line) :
    (besides before).Matches stage (besides before).Callable (EvalM.resolve env name count line)
      (EvalM.resolve (before.frames.size + env) name count line) where
  together s t hlinked := by
    obtain ⟨rfl, hown, hstage⟩ := hlinked
    have hfound : Scopes.closure? (s.beside before).scopes (before.frames.size + env) name =
        (Scopes.closure? s.scopes env name).map (Closure.moved before.frames.size) :=
      Store.closure?_beside env name hown
    unfold EvalM.resolve
    rw [hfound]
    cases hclosure : Scopes.closure? s.scopes env name with
    | none => exact .stopped (Nat.le_refl stage) ⟨rfl, hown, hstage⟩
    | some closure =>
      by_cases harity : closure.function.parameters.length = count
      · simp only [Option.map_some, Closure.function_moved, harity, if_true]
        exact .completed hstage ⟨rfl, hown, Nat.le_refl _⟩
          ⟨rfl, rfl, Store.lt_size_of_closure? hclosure⟩
      · simp only [Option.map_some, Closure.function_moved, harity, if_false]
        exact .stopped (Nat.le_refl stage) ⟨rfl, hown, hstage⟩
  alone _ _ _ := False.elim

theorem besides_openFrame {env : FrameId} (hopen : env < stage) :
    (besides before).Matches stage (besides before).home (EvalM.openFrame env)
      (EvalM.openFrame (before.frames.size + env)) where
  together s t hlinked := by
    obtain ⟨rfl, hown, hstage⟩ := hlinked
    have hopened := Store.openFrame_beside before s.scopes (some env)
    have hwell : (s.scopes.openFrame (some env)).2.WellFormed :=
      hown.openFrame fun _ houter ↦ by
        cases houter
        exact Nat.lt_of_lt_of_le hopen hstage
    have hsize := Store.size_openFrame s.scopes (some env)
    have hsecond : EvalM.openFrame (before.frames.size + env) (s.beside before) =
        (.ok (before.frames.size + s.scopes.frames.size),
          State.beside before { s with scopes := (s.scopes.openFrame (some env)).2 }) :=
      congrArg (fun opened : FrameId × Store ↦
        (Except.ok opened.1, ({ s with scopes := opened.2 } : State Store))) hopened
    rw [hsecond]
    exact .completed (Nat.le_succ_of_le hstage) ⟨rfl, hwell, Nat.le_of_eq hsize.symm⟩
      ⟨rfl, Nat.lt_succ_self _⟩
  alone _ _ _ := False.elim

theorem besides_isSound (limit : Nat) :
    (besides before).IsSound (EvalM.deeper limit) (EvalM.deeper limit) where
  site_mono hlater hsite := ⟨hsite.1, Nat.lt_of_lt_of_le hsite.2 hlater⟩
  home_mono hlater hhome := ⟨hhome.1, Nat.lt_of_lt_of_le hhome.2 hlater⟩
  site_of_home hhome := hhome
  read name line hsite := by
    obtain ⟨rfl, _⟩ := hsite
    refine .readOnly besides_unparted (EvalM.read_state _ name line)
      (EvalM.read_state _ name line) (fun s t hlinked ↦ ?_) fun _ _ _ _ _ ↦ rfl
    obtain ⟨rfl, hown, _⟩ := hlinked
    exact EvalM.read_congr (Store.get?_beside _ name hown) line
  resolve name count line hsite := by
    obtain ⟨rfl, _⟩ := hsite
    exact besides_resolve _ name count line
  openFrame hsite := by
    obtain ⟨rfl, hopen⟩ := hsite
    exact besides_openFrame hopen
  assign name value hhome := by
    obtain ⟨rfl, _⟩ := hhome
    exact besides_scopes (·.assign _ name value) (·.assign _ name value)
      (fun _ hown ↦ Store.assign_beside _ name hown value) (fun _ ↦ Store.size_assign _ _ _ _)
      fun _ _ ↦ Store.outer?_assign _ _ _ _ _
  declare name binding hhome := by
    obtain ⟨rfl, _⟩ := hhome
    exact besides_scopes (·.declare _ name binding) (·.declare _ name binding)
      (fun own _ ↦ Store.declare_beside before own _ name binding)
      (fun _ ↦ Store.size_declare _ _ _ _) fun _ _ ↦ Store.outer?_declare _ _ _ _ _
  declareFunction function hhome := by
    obtain ⟨rfl, _⟩ := hhome
    exact besides_scopes (·.declareFunction _ function) (·.declareFunction _ function)
      (fun own _ ↦ Store.declareFunction_beside before own _ function)
      (fun _ ↦ Store.size_declareFunction _ _ _) fun _ _ ↦ Store.outer?_declareFunction _ _ _ _
  write stage line text := by
    refine ⟨fun s t hlinked ↦ ?_, fun _ _ _ ↦ False.elim⟩
    obtain ⟨rfl, hown, hstage⟩ := hlinked
    rw [EvalM.write_apply, EvalM.write_apply]
    exact .alike ⟨rfl, hown, hstage⟩ fun _ _ ↦ rfl
  entered line h := h.deeper (besides_levels limit) line
  fault _ _ _ := trivial
  outOfFuel := trivial

end Simulation

open Simulation

/-- A run beside other frames comes to the same as the run in a store of its own, and leaves the
other frames as they were. -/
theorem runBeside_eq_run (fuel : Nat) (evaluator : Evaluator) (before : Store) (root : Node) :
    evaluator.runBeside fuel before root =
      { evaluator.run fuel root with
        scopes := before.beside (evaluator.run fuel root).scopes } := by
  have hempty : before.beside {} = before := by simp [Store.beside]
  have hopened := Store.openFrame_beside before {} none
  rw [hempty] at hopened
  have hlinked : (besides before).linked 1 (Evaluator.initial evaluator.depth evaluator.sink)
      ((Evaluator.initial evaluator.depth evaluator.sink).beside before) :=
    ⟨rfl, Store.wellFormed_empty.openFrame nofun, Nat.le_refl _⟩
  have hsound : (besides before).IsSound _ _ := besides_isSound evaluator.limit
  have henv : (besides before).site 1 0 before.frames.size := ⟨rfl, Nat.zero_lt_one⟩
  have hagrees : (besides before).Agrees 1 (evaluate fuel (calls evaluator.limit fuel) 0 root)
      (evaluate fuel (calls evaluator.limit fuel) before.frames.size root) :=
    hsound.agrees_evaluate (hsound.invokes_calls (.refl fuel)) (.refl fuel) root henv
      fun _ _ ↦ henv
  obtain ⟨houtcome, _, hstate, _⟩ := hagrees.lockstep besides_unparted hlinked
  have hstart : Scopes.openFrame before none =
      (before.frames.size, before.beside (({} : Store).openFrame none).2) := hopened
  rw [Evaluator.run_eq, Evaluator.runBeside_eq, hstart]
  have hboth : evaluate fuel (calls evaluator.limit fuel) before.frames.size root
      ((Evaluator.initial evaluator.depth evaluator.sink).beside before) =
        (_, State.beside before _) := Prod.ext houtcome hstate
  exact congrArg (evaluator.concluded root.line) hboth

end Treewalk
