import Treewalk.Proofs.Scope.Noninterference

/-!
# Invariants of open frames

An evaluation that begins in an open frame uses no other: it opens frames under open ones, and the
frame of a function that it finds is on a chain. So an invariant of stores need only be kept by the
operations in frames that are open (`Store.IsKept`). The frames may be restricted further, to any
that the outer links do not leave.

Which frames are open depends on the store, and a simulation only knows a stage. The stage of a run
is a number of frames that are open.
-/

set_option autoImplicit false
set_option relaxedAutoImplicit false

namespace Treewalk

/-- Whether a name was looked up that is nowhere on the chain. -/
def Stop.isUndeclared : Stop → Bool
  | .error ⟨.undeclaredIdentifier _, _⟩ | .error ⟨.undeclaredFunction _, _⟩ => true
  | _ => false

variable {within : FrameId → Prop} {keeps : Store → Prop} {ends : Stop → Prop}

namespace Store

/-- Some of the frames that are open. -/
def Opened (store : Store) (within : FrameId → Prop) (env : FrameId) : Prop :=
  within env ∧ env < store.frames.size

/-- The operations keep the property in the frames that are open, and the look-ups there fail only
as they may. -/
structure IsKept (within : FrameId → Prop) (keeps : Store → Prop) (ends : Stop → Prop) : Prop where
  enclosed : ∀ {store}, keeps store → store.Enclosed within
  openFrame : ∀ {store env}, keeps store → store.Opened within env →
    keeps (store.openFrame (some env)).2
  declare : ∀ {store env} name binding, keeps store → store.Opened within env →
    keeps (store.declare env name binding)
  declareFunction : ∀ {store env} function, keeps store → store.Opened within env →
    keeps (store.declareFunction env function)
  unbound : ∀ {store env name} line, keeps store → store.Opened within env →
    store.get? env name = none → ends (.error ⟨.undeclaredIdentifier name, line⟩)
  unresolved : ∀ {store env name} line, keeps store → store.Opened within env →
    store.closure? env name = none → ends (.error ⟨.undeclaredFunction name, line⟩)
  other : ∀ stop, stop.isUndeclared = false → ends stop

namespace IsKept

variable {store : Store} {env frame : FrameId}

theorem opened_of_mem_chain (h : IsKept within keeps ends) (hkeeps : keeps store)
    (henv : store.Opened within env) (hframe : frame ∈ store.chain env)
    (hsize : frame < store.frames.size) : store.Opened within frame :=
  ⟨forall_mem_chain (h.enclosed hkeeps).outer henv.1 frame hframe, hsize⟩

theorem assign (h : IsKept within keeps ends) (name : String) (value : Value)
    (hkeeps : keeps store) (henv : store.Opened within env) :
    keeps (store.assign env name value) := by
  unfold Store.assign
  cases howner : store.owner? env name with
  | none => exact h.declare name _ hkeeps henv
  | some owner =>
    obtain ⟨hmem, hbound⟩ := mem_chain_of_owner? howner
    obtain ⟨_, hbinding⟩ := Option.isSome_iff_exists.mp hbound
    have howner := h.opened_of_mem_chain hkeeps henv hmem (lt_size_of_binding? hbinding)
    exact h.declare name _ hkeeps howner

end IsKept

end Store

namespace Simulation

/-- A run alone in frames that are open. -/
def opened (within : FrameId → Prop) (keeps : Store → Prop) (ends : Stop → Prop) :
    Simulation Store Store where
  linked _ _ _ := False
  parted stage _ _ t := stage ≤ t.scopes.frames.size ∧ keeps t.scopes
  ends := ends
  site stage _ env := within env ∧ env < stage
  home stage _ env := within env ∧ env < stage

variable {stage : Nat} {α : Type}

theorem opened_of_site {store : Store} {env : FrameId} (henv : within env ∧ env < stage)
    (hstage : stage ≤ store.frames.size) : store.Opened within env :=
  ⟨henv.1, Nat.lt_of_lt_of_le henv.2 hstage⟩

theorem opened_levels (limit : Nat)
    (hends : ∀ line, ends (.error ⟨.stackOverflow limit, line⟩)) :
    (opened within keeps ends).Levels limit limit where
  enter hlinked := hlinked.elim
  refuse _ hlinked := hlinked.elim
  leave hlinked := hlinked.elim
  leave_first hparted := hparted
  move_second _ hparted := hparted
  ends := hends

/-- A computation that closes no frame. -/
theorem opened_matches {post : Nat → α → α → Prop} {first second : EvalM Store α}
    (hsize : ∀ t, t.scopes.frames.size ≤ (second t).2.scopes.frames.size)
    (hkeeps : ∀ t, stage ≤ t.scopes.frames.size → keeps t.scopes → keeps (second t).2.scopes)
    (hpost : ∀ t result, stage ≤ t.scopes.frames.size → keeps t.scopes →
      (second t).1 = .ok result → post (second t).2.scopes.frames.size result result)
    (hends : ∀ t stop, stage ≤ t.scopes.frames.size → keeps t.scopes →
      (second t).1 = .error stop → ends stop) :
    (opened within keeps ends).Matches stage post first second where
  together _ _ hlinked := hlinked.elim
  alone _ _ t hparted := by
    obtain ⟨hstage, hbefore⟩ := hparted
    exact ⟨(second t).2.scopes.frames.size, Nat.le_trans hstage (hsize t),
      ⟨Nat.le_refl _, hkeeps t hstage hbefore⟩,
      fun result hok ↦ ⟨result, hpost t result hstage hbefore hok⟩,
      fun stop ↦ hends t stop hstage hbefore⟩

/-- A computation that does nothing but change the store, and opens no frame. -/
theorem opened_change {first : EvalM Store Unit} (change : Store → Store)
    (hsize : ∀ store, (change store).frames.size = store.frames.size)
    (hkeeps : ∀ store, stage ≤ store.frames.size → keeps store → keeps (change store)) :
    (opened within keeps ends).Agrees stage first
      (fun state ↦ (.ok (), { state with scopes := change state.scopes })) :=
  opened_matches (fun t ↦ Nat.le_of_eq (hsize t.scopes).symm) (fun t ↦ hkeeps t.scopes)
    (fun _ _ _ _ _ ↦ rfl) fun _ _ _ _ hstop ↦ by cases hstop

end Simulation

namespace Store.IsKept

open Simulation

theorem isSound (h : IsKept within keeps ends) (limit : Nat) :
    (opened within keeps ends).IsSound (EvalM.deeper limit) (EvalM.deeper limit) where
  site_mono hlater hsite := ⟨hsite.1, Nat.lt_of_lt_of_le hsite.2 hlater⟩
  home_mono hlater hhome := ⟨hhome.1, Nat.lt_of_lt_of_le hhome.2 hlater⟩
  site_of_home hhome := hhome
  read name line hsite := by
    refine opened_matches (fun t ↦ ?_) (fun t _ hkeeps ↦ ?_) (fun _ _ _ _ _ ↦ rfl)
      fun t stop hstage hkeeps hstop ↦ ?_
    · rw [EvalM.read_state]
    · rwa [EvalM.read_state]
    · rcases EvalM.read_stop hstop with ⟨-, rfl⟩ | ⟨hnone, rfl⟩
      · exact h.other _ rfl
      · exact h.unbound line hkeeps (opened_of_site hsite hstage) hnone
  resolve name count line hsite := by
    refine opened_matches (fun t ↦ ?_) (fun t _ hkeeps ↦ ?_)
      (fun t closure hstage hkeeps hok ↦ ⟨rfl, ?_⟩) fun t stop hstage hkeeps hstop ↦ ?_
    · rw [EvalM.resolve_state]
    · rwa [EvalM.resolve_state]
    · have hclosure := (EvalM.resolve_eq_ok_iff.mp hok).1
      rw [EvalM.resolve_state]
      exact h.opened_of_mem_chain hkeeps (opened_of_site hsite hstage)
        (mem_chain_of_closure? hclosure).1 (lt_size_of_closure? hclosure)
    · rcases EvalM.resolve_stop hstop with ⟨hnone, rfl⟩ | ⟨_, -, -, rfl⟩
      · exact h.unresolved line hkeeps (opened_of_site hsite hstage) hnone
      · exact h.other _ rfl
  openFrame {_ _ env} hsite := by
    have hsize : ∀ t : State Store, (EvalM.openFrame env t).2.scopes.frames.size =
        t.scopes.frames.size + 1 := fun _ ↦ size_openFrame _ _
    refine opened_matches (fun t ↦ ?_) (fun t hstage hkeeps ↦ ?_)
      (fun t inner hstage hkeeps hok ↦ ?_) fun _ _ _ _ hstop ↦ by cases hstop
    · rw [hsize]
      exact Nat.le_succ _
    · exact h.openFrame hkeeps (opened_of_site hsite hstage)
    · cases hok
      rw [hsize]
      exact ⟨(h.enclosed hkeeps).unopened _ (Nat.le_refl _), Nat.lt_succ_self _⟩
  assign name value hhome :=
    opened_change (·.assign _ name value) (fun _ ↦ size_assign _ _ _ _) fun _ hstage hkeeps ↦
      h.assign name value hkeeps (opened_of_site hhome hstage)
  declare name binding hhome :=
    opened_change (·.declare _ name binding) (fun _ ↦ size_declare _ _ _ _) fun _ hstage hkeeps ↦
      h.declare name binding hkeeps (opened_of_site hhome hstage)
  declareFunction function hhome :=
    opened_change (·.declareFunction _ function) (fun _ ↦ size_declareFunction _ _ _)
      fun _ hstage hkeeps ↦
        h.declareFunction function hkeeps (opened_of_site hhome hstage)
  write _ line text := by
    refine opened_matches (fun _ ↦ Nat.le_refl _) (fun _ _ hkeeps ↦ hkeeps) (fun _ _ _ _ _ ↦ rfl)
      fun _ stop _ _ hstop ↦ ?_
    rw [EvalM.write_stop hstop]
    exact h.other _ rfl
  entered line hbody := hbody.deeper (opened_levels limit fun _ ↦ h.other _ rfl) line
  fault fault _ hfault := h.other _ (by cases fault <;> first | rfl | cases hfault)
  outOfFuel := h.other _ rfl

/-- An evaluation in a frame that is open keeps the property, and stops only as it may. -/
theorem evaluate (h : IsKept within keeps ends) (limit fuel : Nat) {env : FrameId} (node : Node)
    {state : State Store} (hkeeps : keeps state.scopes) (henv : state.scopes.Opened within env) :
    keeps (Treewalk.evaluate fuel (calls limit fuel) env node state).2.scopes ∧
      ∀ stop, (Treewalk.evaluate fuel (calls limit fuel) env node state).1 = .error stop →
        ends stop := by
  have hsound := h.isSound limit
  have hagrees : (opened within keeps ends).Agrees state.scopes.frames.size
      (Treewalk.evaluate fuel (calls limit fuel) env node)
      (Treewalk.evaluate fuel (calls limit fuel) env node) :=
    hsound.agrees_evaluate (hsound.invokes_calls (.refl fuel)) (.refl fuel) node henv
      fun _ _ ↦ henv
  obtain ⟨_, _, ⟨-, hafter⟩, -, hstops⟩ :=
    hagrees.alone .outOfFuel state state ⟨Nat.le_refl _, hkeeps⟩
  exact ⟨hafter, hstops⟩

/-- So does the evaluation of the arguments of a call. -/
theorem evalArguments (h : IsKept within keeps ends) (limit fuel : Nat) {env : FrameId}
    (arguments : List Expr) {state : State Store} (hkeeps : keeps state.scopes)
    (henv : state.scopes.Opened within env) :
    keeps (Treewalk.evalArguments (calls limit fuel) env arguments state).2.scopes := by
  have hsound := h.isSound limit
  have hagrees : (opened within keeps ends).Agrees state.scopes.frames.size
      (Treewalk.evalArguments (calls limit fuel) env arguments)
      (Treewalk.evalArguments (calls limit fuel) env arguments) :=
    hsound.agrees_evalArguments (hsound.invokes_calls (.refl fuel)) arguments henv
  obtain ⟨_, _, ⟨-, hafter⟩, -⟩ :=
    hagrees.alone .outOfFuel state state ⟨Nat.le_refl _, hkeeps⟩
  exact hafter

end Store.IsKept

end Treewalk
