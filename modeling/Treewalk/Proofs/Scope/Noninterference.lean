import Treewalk.Proofs.Scope.FrameLaw
import Treewalk.Proofs.Simulation.Resources

/-!
# Lexical scoping

An evaluation in a frame sees nothing but the chain of that frame and the frames that it opens
itself. Two stores of one shape that agree along the chain therefore let a node come to the same,
and they still agree there afterwards (`evaluate_alike`). A call runs under the frame of the
declaration, so what it comes to does not depend on where it is called from (`evalCall_alike`).
-/

set_option autoImplicit false
set_option relaxedAutoImplicit false

namespace Treewalk

/-! ### Stores that agree -/

namespace Store

/-- Two stores with the same frames and outer links, which agree within some of the frames on all
variables and functions. -/
structure AgreeOn (within : FrameId → Prop) (first second : Store) : Prop where
  size : second.frames.size = first.frames.size
  outer : ∀ id, second.outer? id = first.outer? id
  bindings : ∀ id name, within id → second.binding? name id = first.binding? name id
  functions : ∀ id name, within id → second.function? name id = first.function? name id

/-- Frames that the outer links do not leave, those that are yet to be opened among them. -/
structure Enclosed (within : FrameId → Prop) (store : Store) : Prop where
  outer : ∀ id outer, within id → store.outer? id = some outer → within outer
  unopened : ∀ id, store.frames.size ≤ id → within id

variable {within : FrameId → Prop} {first second store : Store} {id env : FrameId}
  {name : String}

theorem AgreeOn.chain (h : first.AgreeOn within second) (id : FrameId) :
    second.chain id = first.chain id :=
  chain_congr h.size h.outer id

theorem AgreeOn.get? (h : first.AgreeOn within second) (hwithin : first.Enclosed within)
    (hid : within id) (name : String) : second.get? id name = first.get? id name :=
  get?_congr (h.chain id) fun frame hframe ↦
    h.bindings frame name (forall_mem_chain hwithin.outer hid frame hframe)

theorem AgreeOn.closure? (h : first.AgreeOn within second) (hwithin : first.Enclosed within)
    (hid : within id) (name : String) : second.closure? id name = first.closure? id name :=
  closure?_congr (h.chain id) fun frame hframe ↦
    h.functions frame name (forall_mem_chain hwithin.outer hid frame hframe)

theorem AgreeOn.declare (h : first.AgreeOn within second) (id : FrameId) (name : String)
    (binding : Binding) :
    (first.declare id name binding).AgreeOn within (second.declare id name binding) where
  size := by rw [size_declare, size_declare, h.size]
  outer other := by rw [outer?_declare, outer?_declare, h.outer other]
  bindings other asked hother := by
    rw [binding?_declare, binding?_declare, h.size, h.bindings other asked hother]
  functions other asked hother := by
    rw [function?_declare, function?_declare, h.functions other asked hother]

/-- A declaration outside the frames is not seen within them. -/
theorem agreeOn_declare (store : Store) (hid : ¬ within id) (name : String) (binding : Binding) :
    store.AgreeOn within (store.declare id name binding) where
  size := size_declare _ _ _ _
  outer other := outer?_declare _ _ _ _ _
  bindings other asked hother := by
    rw [binding?_declare, if_neg]
    rintro ⟨rfl, _⟩
    exact hid hother
  functions other asked _ := function?_declare _ _ _ _ _ _

theorem AgreeOn.assign (h : first.AgreeOn within second) (hwithin : first.Enclosed within)
    (hid : within id) (name : String) (value : Value) :
    (first.assign id name value).AgreeOn within (second.assign id name value) := by
  have howner : second.owner? id name = first.owner? id name :=
    owner?_congr (h.chain id) fun frame hframe ↦
      h.bindings frame name (forall_mem_chain hwithin.outer hid frame hframe)
  unfold Store.assign
  rw [howner]
  exact h.declare _ name (.set value)

theorem AgreeOn.declareFunction (h : first.AgreeOn within second) (id : FrameId)
    (function : Function) :
    (first.declareFunction id function).AgreeOn within (second.declareFunction id function) where
  size := by rw [size_declareFunction, size_declareFunction, h.size]
  outer other := by rw [outer?_declareFunction, outer?_declareFunction, h.outer other]
  bindings other asked hother := by
    rw [binding?_declareFunction, binding?_declareFunction, h.bindings other asked hother]
  functions other asked hother := by
    rw [function?_declareFunction, function?_declareFunction, h.size,
      h.functions other asked hother]

theorem AgreeOn.openFrame (h : first.AgreeOn within second) (outer : Option FrameId) :
    (first.openFrame outer).2.AgreeOn within (second.openFrame outer).2 where
  size := by rw [size_openFrame, size_openFrame, h.size]
  outer other := by rw [outer?_openFrame, outer?_openFrame, h.size, h.outer other]
  bindings other asked hother := by
    rw [binding?_openFrame, binding?_openFrame, h.size, h.bindings other asked hother]
  functions other asked hother := by
    rw [function?_openFrame, function?_openFrame, h.size, h.functions other asked hother]

/-- Enclosed frames stay enclosed as long as the links do. -/
theorem Enclosed.congr (h : first.Enclosed within)
    (hsize : second.frames.size = first.frames.size)
    (houter : ∀ id, second.outer? id = first.outer? id) : second.Enclosed within :=
  ⟨fun id outer hid hlink ↦ h.outer id outer hid (houter id ▸ hlink),
    fun id hid ↦ h.unopened id (hsize ▸ hid)⟩

theorem Enclosed.openFrame (h : store.Enclosed within) (hid : within id) :
    (store.openFrame (some id)).2.Enclosed within where
  outer other outer hother hlink := by
    rw [outer?_openFrame] at hlink
    split_ifs at hlink
    · cases hlink
      exact hid
    · exact h.outer other outer hother hlink
  unopened other hother := by
    rw [size_openFrame] at hother
    exact h.unopened other (Nat.le_of_succ_le hother)

/-- What a run in `env` meets is enclosed. -/
theorem enclosed_met (hstore : store.WellFormed) (env : FrameId) :
    store.Enclosed (store.Met env) where
  outer id outer hid houter := by
    by_cases hsize : store.frames.size ≤ outer
    · exact .inr hsize
    · rcases hid with hchain | hfresh
      · exact .inl (outer_mem_chain hstore hchain houter (Nat.lt_of_not_le hsize))
      · rw [Store.outer?, Array.getElem?_eq_none hfresh] at houter
        cases houter
  unopened _ hid := .inr hid

end Store

/-! ### Runs in stores that agree -/

/-- Two states at one depth and with one sink, in stores that agree within some of the frames. -/
structure AlikeOn (within : FrameId → Prop) (s t : State Store) : Prop where
  depth : t.depth = s.depth
  sink : t.sink = s.sink
  scopes : s.scopes.AgreeOn within t.scopes

namespace Simulation

/-- Runs of one evaluation within frames on which the two stores agree. -/
def alike (within : FrameId → Prop) : Simulation Store Store where
  linked _ s t := AlikeOn within s t ∧ s.scopes.Enclosed within
  parted _ _ _ _ := False
  ends _ := True
  site _ env env' := env' = env ∧ within env
  home _ env env' := env' = env ∧ within env

variable {within : FrameId → Prop} {stage : Nat} {α : Type}

theorem alike_unparted : (alike within).Unparted :=
  fun _ _ _ _ ↦ not_false

theorem alike_levels (limit : Nat) : (alike within).Levels limit limit where
  enter hlinked hroom :=
    ⟨hlinked.1.depth ▸ hroom, ⟨congrArg (· + 1) hlinked.1.depth, hlinked.1.sink, hlinked.1.scopes⟩,
      hlinked.2⟩
  refuse _ hlinked hfull := .inl ⟨rfl, hlinked.1.depth ▸ hfull⟩
  leave hlinked :=
    ⟨⟨congrArg (· - 1) hlinked.1.depth, hlinked.1.sink, hlinked.1.scopes⟩, hlinked.2⟩
  leave_first hparted := hparted.elim
  move_second _ hparted := hparted.elim
  ends _ := trivial

/-- What is done to the scopes alone, in both stores, and keeps them as they should be. -/
theorem alike_scopes (change : Store → Store)
    (hchange : ∀ first second : Store, first.AgreeOn within second → first.Enclosed within →
      (change first).AgreeOn within (change second) ∧ (change first).Enclosed within) :
    (alike within).Agrees stage
      (fun state ↦ (.ok (), { state with scopes := change state.scopes }) : EvalM Store Unit)
      (fun state ↦ (.ok (), { state with scopes := change state.scopes })) where
  together s t hlinked := by
    obtain ⟨hagree, henclosed⟩ := hchange s.scopes t.scopes hlinked.1.scopes hlinked.2
    exact .completed (Nat.le_refl stage) ⟨⟨hlinked.1.depth, hlinked.1.sink, hagree⟩, henclosed⟩ rfl
  alone _ _ _ hparted := hparted.elim

theorem alike_isSound (within : FrameId → Prop) (limit : Nat) :
    (alike within).IsSound (EvalM.deeper limit) (EvalM.deeper limit) where
  site_mono _ hsite := hsite
  home_mono _ hhome := hhome
  site_of_home hhome := hhome
  read name line hsite := by
    obtain ⟨rfl, hwithin⟩ := hsite
    refine .readOnly alike_unparted (EvalM.read_state _ name line) (EvalM.read_state _ name line)
      (fun s t hlinked ↦ ?_) fun _ _ _ _ _ ↦ rfl
    exact EvalM.read_congr (hlinked.1.scopes.get? hlinked.2 hwithin name) line
  resolve name count line hsite := by
    obtain ⟨rfl, hwithin⟩ := hsite
    refine .readOnly alike_unparted (EvalM.resolve_state _ name count line)
      (EvalM.resolve_state _ name count line) (fun s t hlinked ↦ ?_)
      fun s t closure hlinked hok ↦ ⟨rfl, rfl, ?_⟩
    · exact EvalM.resolve_congr (hlinked.1.scopes.closure? hlinked.2 hwithin name) count line
    · exact Store.forall_mem_chain hlinked.2.outer hwithin closure.frame
        (Store.mem_chain_of_closure? (EvalM.resolve_eq_ok_iff.mp hok).1).1
  openFrame hsite := by
    obtain ⟨rfl, hwithin⟩ := hsite
    refine ⟨fun s t hlinked ↦ ?_, fun _ _ _ hparted ↦ hparted.elim⟩
    refine .completed (Nat.le_refl _) ⟨⟨hlinked.1.depth, hlinked.1.sink,
      hlinked.1.scopes.openFrame _⟩, hlinked.2.openFrame hwithin⟩ ⟨hlinked.1.scopes.size, ?_⟩
    exact hlinked.2.unopened _ (Nat.le_refl _)
  assign name value hhome := by
    obtain ⟨rfl, hwithin⟩ := hhome
    exact alike_scopes (·.assign _ name value) fun first second hagree henclosed ↦
      ⟨hagree.assign henclosed hwithin name value,
        henclosed.congr (Store.size_assign _ _ _ _) fun other ↦ Store.outer?_assign _ _ _ _ _⟩
  declare name binding hhome := by
    obtain ⟨rfl, hwithin⟩ := hhome
    exact alike_scopes (·.declare _ name binding) fun first second hagree henclosed ↦
      ⟨hagree.declare _ name binding,
        henclosed.congr (Store.size_declare _ _ _ _) fun other ↦ Store.outer?_declare _ _ _ _ _⟩
  declareFunction function hhome := by
    obtain ⟨rfl, hwithin⟩ := hhome
    exact alike_scopes (·.declareFunction _ function) fun first second hagree henclosed ↦
      ⟨hagree.declareFunction _ function, henclosed.congr (Store.size_declareFunction _ _ _)
        fun other ↦ Store.outer?_declareFunction _ _ _ _⟩
  write stage line text := by
    refine ⟨fun s t hlinked ↦ ?_, fun _ _ _ hparted ↦ hparted.elim⟩
    rw [EvalM.write_apply, EvalM.write_apply, hlinked.1.sink]
    exact .alike ⟨⟨hlinked.1.depth, rfl, hlinked.1.scopes⟩, hlinked.2⟩ fun _ _ ↦ rfl
  entered line h := h.deeper (alike_levels limit) line
  fault _ _ _ := trivial
  outOfFuel := trivial

/-- Runs that never part come to one outcome in states that are alike. -/
theorem alike_of_agrees {first second : EvalM Store α}
    (h : (alike within).Agrees 0 first second) {s t : State Store}
    (halike : AlikeOn within s t) (henclosed : s.scopes.Enclosed within) :
    (second t).1 = (first s).1 ∧ AlikeOn within (first s).2 (second t).2 := by
  obtain ⟨houtcome, _, hafter, _⟩ := h.lockstep alike_unparted ⟨halike, henclosed⟩
  exact ⟨houtcome, hafter⟩

end Simulation

open Simulation

/-- Stores that agree along a chain agree on all that a run there meets. -/
theorem AlikeOn.met {s t : State Store} {env : FrameId}
    (h : AlikeOn (· ∈ s.scopes.chain env) s t) : AlikeOn (s.scopes.Met env) s t where
  depth := h.depth
  sink := h.sink
  scopes := by
    refine ⟨h.scopes.size, h.scopes.outer, fun id name hid ↦ ?_, fun id name hid ↦ ?_⟩
    · rcases hid with hchain | hfresh
      · exact h.scopes.bindings id name hchain
      · rw [Store.binding?, Store.binding?, Array.getElem?_eq_none hfresh,
          Array.getElem?_eq_none (h.scopes.size ▸ hfresh)]
    · rcases hid with hchain | hfresh
      · exact h.scopes.functions id name hchain
      · rw [Store.function?, Store.function?, Array.getElem?_eq_none hfresh,
          Array.getElem?_eq_none (h.scopes.size ▸ hfresh)]

/-- A node comes to the same in stores that agree along the chain of its frame, and the stores
agree there, and on the frames opened meanwhile, when it has. -/
theorem evaluate_alike (limit fuel : Nat) (env : FrameId) (node : Node) {s t : State Store}
    (hstore : s.scopes.WellFormed) (halike : AlikeOn (· ∈ s.scopes.chain env) s t) :
    (evaluate fuel (calls limit fuel) env node t).1 =
        (evaluate fuel (calls limit fuel) env node s).1 ∧
      AlikeOn (s.scopes.Met env) (evaluate fuel (calls limit fuel) env node s).2
        (evaluate fuel (calls limit fuel) env node t).2 := by
  have hsound := alike_isSound (s.scopes.Met env) limit
  have henv : s.scopes.Met env env := Store.met_self s.scopes env
  exact alike_of_agrees
    (hsound.agrees_evaluate (hsound.invokes_calls (.refl fuel)) (.refl fuel) node ⟨rfl, henv⟩
      fun _ _ ↦ ⟨rfl, henv⟩)
    halike.met (Store.enclosed_met hstore env)

/-! ### Calls from different places -/

section Calls

variable {S : Type} [Scopes S] {invoke : Invoke S} {env : FrameId} {name : String}
  {arguments : List Expr} {values : List Value} {closure : Closure}

theorem length_of_evalArguments {state : State S}
    (h : (evalArguments invoke env arguments state).1 = .ok values) :
    values.length = arguments.length := by
  induction arguments generalizing state values with
  | nil =>
    cases h
    rfl
  | cons argument rest ih =>
    unfold evalArguments at h
    rw [EvalM.bind_apply] at h
    rcases hfirst : evalExpr invoke env argument state with ⟨_ | value, middle⟩
    · rw [hfirst] at h
      cases h
    · rw [hfirst] at h
      dsimp only at h
      rw [EvalM.bind_apply] at h
      rcases hrest : evalArguments invoke env rest middle with ⟨_ | others, after⟩
      · rw [hrest] at h
        cases h
      · rw [hrest] at h
        cases h
        rw [List.length_cons, List.length_cons, ih (congrArg Prod.fst hrest)]

/-- A call whose arguments change nothing runs the function on their values, if it takes as
many. -/
theorem evalCall_eq {state : State S}
    (hclosure : Scopes.closure? state.scopes env name = some closure)
    (harguments : evalArguments invoke env arguments state = (.ok values, state)) (line : Line) :
    evalCall invoke env name arguments line state =
      if closure.function.parameters.length = values.length then invoke closure values line state
      else (.error (.error ⟨.arityMismatch closure.function.name
        closure.function.parameters.length values.length, line⟩), state) := by
  have hlength : values.length = arguments.length :=
    length_of_evalArguments (congrArg Prod.fst harguments)
  unfold evalCall
  rw [EvalM.bind_apply, EvalM.resolve, hclosure, hlength]
  dsimp only
  split_ifs
  · dsimp only
    rw [EvalM.bind_apply, harguments]
  · rfl

end Calls

/-- What two calls that do the same have come to. Either both are refused, each at its own line, or
they come to the same and leave states that are alike within the frames that a run of the function
meets. No other frame is touched. -/
structure SameCall {α : Type} (met : FrameId → Prop) (line line' : Line) (s t : State Store)
    (first second : Except Stop α × State Store) : Prop where
  outcome : (∃ fault, first = (.error (.error ⟨fault, line⟩), s) ∧
      second = (.error (.error ⟨fault, line'⟩), t)) ∨
    second.1 = first.1 ∧ AlikeOn met first.2 second.2
  untouched : ∀ id, ¬ met id → first.2.scopes.frames[id]? = s.scopes.frames[id]? ∧
    second.2.scopes.frames[id]? = t.scopes.frames[id]?

/-- Below the limit, a call does not depend on the line it is charged to. -/
theorem calls_line {limit : Nat} {state : State Store} (hdepth : state.depth < limit) (fuel : Nat)
    (closure : Closure) (values : List Value) (line line' : Line) :
    calls limit fuel closure values line state = calls limit fuel closure values line' state := by
  unfold calls callsBy Treewalk.invoke EvalM.deeper
  rw [if_pos hdepth, if_pos hdepth]

/-- Two runs of one function on one row of values, in stores that agree along the chain of its
frame: either both are refused, each at its own line, or they come to the same and leave stores
that agree there, and on the frames opened meanwhile. Neither touches any other frame. -/
theorem calls_alike (limit fuel : Nat) {s t : State Store} {closure : Closure}
    (values : List Value) (line line' : Line) (hstore : s.scopes.WellFormed)
    (halike : AlikeOn (· ∈ s.scopes.chain closure.frame) s t) :
    SameCall (s.scopes.Met closure.frame) line line' s t
      (calls limit fuel closure values line s) (calls limit fuel closure values line' t) := by
  constructor
  · by_cases hdepth : s.depth < limit
    · have hdepth' : t.depth < limit := halike.depth ▸ hdepth
      have hsound := alike_isSound (s.scopes.Met closure.frame) limit
      rw [calls_line hdepth' fuel closure values line' line]
      exact .inr (alike_of_agrees (hsound.invokes_calls (.refl fuel) 0 closure closure values line
        ⟨rfl, rfl, Store.met_self _ _⟩) halike.met (Store.enclosed_met hstore _))
    · have hdepth' : ¬ t.depth < limit := halike.depth ▸ hdepth
      exact .inl ⟨.stackOverflow limit, if_neg hdepth, if_neg hdepth'⟩
  · intro id hid
    have hstore' : t.scopes.WellFormed := hstore.congr halike.scopes.outer
    have hid' : ¬ t.scopes.Met closure.frame id := by
      rw [Store.Met, halike.scopes.chain, halike.scopes.size]
      exact hid
    exact ⟨(framed_calls hstore limit fuel closure values line).unmet hid,
      (framed_calls hstore' limit fuel closure values line').unmet hid'⟩

/-- Two calls that come to one function and whose arguments come to the same values and change
nothing: what the call itself comes to does not depend on the frame it stands in, provided that
the stores agree along the chain of the frame of the function. -/
theorem evalCall_alike (limit : Nat) {s t : State Store} {env env' : FrameId} {name : String}
    {arguments arguments' : List Expr} {closure : Closure} {values : List Value}
    (line line' : Line) (hstore : s.scopes.WellFormed)
    (halike : AlikeOn (· ∈ s.scopes.chain closure.frame) s t)
    (hclosure : s.scopes.closure? env name = some closure)
    (hclosure' : t.scopes.closure? env' name = some closure)
    (harguments : ∃ fuel, evalArguments (calls limit fuel) env arguments s = (.ok values, s))
    (harguments' : ∃ fuel, evalArguments (calls limit fuel) env' arguments' t = (.ok values, t)) :
    ∃ enough, ∀ fuel, enough ≤ fuel →
      SameCall (s.scopes.Met closure.frame) line line' s t
        (evalCall (calls limit fuel) env name arguments line s)
        (evalCall (calls limit fuel) env' name arguments' line' t) := by
  obtain ⟨need, hneed⟩ := harguments
  obtain ⟨need', hneed'⟩ := harguments'
  refine ⟨max need need', fun fuel hfuel ↦ ?_⟩
  have hvalues : evalArguments (calls limit fuel) env arguments s = (.ok values, s) := by
    rw [evalArguments_of_le (Nat.le_trans (Nat.le_max_left _ _) hfuel) (by simp [hneed]), hneed]
  have hvalues' : evalArguments (calls limit fuel) env' arguments' t = (.ok values, t) := by
    rw [evalArguments_of_le (Nat.le_trans (Nat.le_max_right _ _) hfuel) (by simp [hneed']), hneed']
  rw [evalCall_eq hclosure hvalues, evalCall_eq hclosure' hvalues']
  by_cases harity : closure.function.parameters.length = values.length
  · rw [if_pos harity, if_pos harity]
    exact calls_alike limit fuel values line line' hstore halike
  · rw [if_neg harity, if_neg harity]
    exact ⟨.inl ⟨_, rfl, rfl⟩, fun _ _ ↦ ⟨rfl, rfl⟩⟩

/-- Scoping is lexical. What a node comes to in a frame, and what it leaves along the chain of the
frame and in the frames that it opens, depends on that chain alone; and what a call comes to
depends on the chain of the frame that its function was declared in, and not on the frame it is
called from. -/
theorem lexical_scoping (limit : Nat) :
    (∀ (fuel : Nat) (env : FrameId) (node : Node) (s t : State Store), s.scopes.WellFormed →
      AlikeOn (· ∈ s.scopes.chain env) s t →
        (evaluate fuel (calls limit fuel) env node t).1 =
            (evaluate fuel (calls limit fuel) env node s).1 ∧
          AlikeOn (s.scopes.Met env) (evaluate fuel (calls limit fuel) env node s).2
            (evaluate fuel (calls limit fuel) env node t).2) ∧
    (∀ (s t : State Store) (env env' : FrameId) (name : String) (arguments arguments' : List Expr)
      (closure : Closure) (values : List Value) (line line' : Line), s.scopes.WellFormed →
      AlikeOn (· ∈ s.scopes.chain closure.frame) s t →
      s.scopes.closure? env name = some closure → t.scopes.closure? env' name = some closure →
      (∃ fuel, evalArguments (calls limit fuel) env arguments s = (.ok values, s)) →
      (∃ fuel, evalArguments (calls limit fuel) env' arguments' t = (.ok values, t)) →
        ∃ enough, ∀ fuel, enough ≤ fuel →
          SameCall (s.scopes.Met closure.frame) line line' s t
            (evalCall (calls limit fuel) env name arguments line s)
            (evalCall (calls limit fuel) env' name arguments' line' t)) :=
  ⟨fun fuel env node _ _ hstore halike ↦ evaluate_alike limit fuel env node hstore halike,
    fun _ _ _ _ _ _ _ _ _ line line' hstore halike hclosure hclosure' harguments harguments' ↦
      evalCall_alike limit line line' hstore halike hclosure hclosure' harguments harguments'⟩

/-- Two siblings that call the function outside come to the same, whatever variables the second
has, and so does the call from the first on its own. -/
theorem lexical_scoping_siblings :
    let s : State Store := ⟨Store.siblings, 0, {}⟩
    let t : State Store := ⟨Store.siblings.declare 2 "x" .unset, 0, {}⟩
    (evaluate 2 (calls 1 2) 1 (.expr (.call "f" [.bool false 1] 1)) t).1 =
        (evaluate 2 (calls 1 2) 1 (.expr (.call "f" [.bool false 1] 1)) s).1 ∧
      ∃ enough, ∀ fuel, enough ≤ fuel → SameCall (s.scopes.Met 0) 1 2 s t
        (evalCall (calls 1 fuel) 1 "f" [.bool false 1] 1 s)
        (evalCall (calls 1 fuel) 2 "f" [.bool false 1] 2 t) := by
  intro s t
  have halike : ∀ env, 2 ∉ s.scopes.chain env → AlikeOn (· ∈ s.scopes.chain env) s t :=
    fun env henv ↦ ⟨rfl, rfl, Store.agreeOn_declare _ henv "x" .unset⟩
  have hstore : s.scopes.WellFormed := Store.wellFormed_siblings
  obtain ⟨hnode, hcall⟩ := lexical_scoping 1
  exact ⟨(hnode 2 1 _ s t hstore (halike 1 (by decide))).1,
    hcall s t 1 2 "f" [.bool false 1] [.bool false 1] _ [.boolean false] 1 2 hstore
      (halike 0 (by decide)) rfl rfl ⟨0, by rfl⟩ ⟨0, by rfl⟩⟩

end Treewalk
