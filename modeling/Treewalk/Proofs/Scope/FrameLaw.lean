import Treewalk.Proofs.Scope.Chain
import Treewalk.Proofs.Simulation.Invariant

/-!
# Which frames an evaluation may change

An evaluation in a frame changes no frame off the chain of that frame, and along the chain it only
gives values to variables that are there. Into the frame itself a statement, but no expression, may
declare. This is `evaluate_framed`. It rests on the fact that the frame a call is run under is on
the chain of the caller, so that what the body may change the call may change as well.

`Store.Framed` is the invariant. Beside what it says of the frames that were there before, it says
that the frames opened since lead outward to the chain or to one another.
-/

set_option autoImplicit false
set_option relaxedAutoImplicit false

namespace Treewalk

/-! ### Changes of one frame -/

namespace Frame

/-- A frame that may have been declared into. -/
structure Extended (before after : Frame) : Prop where
  outer : after.outer = before.outer
  bindings : ∀ name, before.bindings.contains name → after.bindings.contains name
  functions : ∀ name, before.functions.contains name → after.functions.contains name

/-- A frame whose variables may have been given other values. -/
structure Kept (before after : Frame) : Prop where
  outer : after.outer = before.outer
  bindings : ∀ name, after.bindings.contains name = before.bindings.contains name
  functions : after.functions = before.functions
  values : ∀ name value, before.bindings.get? name = some (.set value) →
    ∃ value', after.bindings.get? name = some (.set value')

variable {first second third frame : Frame} {name : String}

theorem Extended.refl (frame : Frame) : frame.Extended frame :=
  ⟨rfl, fun _ h ↦ h, fun _ h ↦ h⟩

theorem Extended.trans (h : first.Extended second) (h' : second.Extended third) :
    first.Extended third :=
  ⟨h'.outer.trans h.outer, fun name hname ↦ h'.bindings name (h.bindings name hname),
    fun name hname ↦ h'.functions name (h.functions name hname)⟩

theorem Kept.refl (frame : Frame) : frame.Kept frame :=
  ⟨rfl, fun _ ↦ rfl, rfl, fun _ value h ↦ ⟨value, h⟩⟩

theorem Kept.trans (h : first.Kept second) (h' : second.Kept third) : first.Kept third where
  outer := h'.outer.trans h.outer
  bindings name := (h'.bindings name).trans (h.bindings name)
  functions := h'.functions.trans h.functions
  values name value hvalue := by
    obtain ⟨value', hvalue'⟩ := h.values name value hvalue
    exact h'.values name value' hvalue'

theorem extended_declare (frame : Frame) (name : String) (binding : Binding) :
    frame.Extended { frame with bindings := frame.bindings.insert name binding } where
  outer := rfl
  bindings other hother := by
    rw [Table.contains_insert, hother, Bool.or_true]
  functions _ hother := hother

theorem extended_declareFunction (frame : Frame) (function : Function) :
    frame.Extended
      { frame with functions := frame.functions.insert function.name function } where
  outer := rfl
  bindings _ hother := hother
  functions other hother := by
    rw [Table.contains_insert, hother, Bool.or_true]

theorem kept_assign (hname : (frame.bindings.get? name).isSome) (value : Value) :
    frame.Kept { frame with bindings := frame.bindings.insert name (.set value) } where
  outer := rfl
  bindings other := by
    rw [Table.contains_insert]
    by_cases hother : other = name
    · subst hother
      simpa [Table.contains] using hname
    · simp [hother]
  functions := rfl
  values other old hold := by
    rw [Table.get?_insert]
    by_cases hother : other = name
    · exact ⟨value, if_pos hother⟩
    · exact ⟨old, by rw [if_neg hother, hold]⟩

end Frame

/-! ### Changes of a store -/

namespace Store

/-- The frames that a run in `env` meets: those on its chain, and those opened since. -/
def Met (before : Store) (env id : FrameId) : Prop :=
  id ∈ before.chain env ∨ before.frames.size ≤ id

/-- What may become of a store while something runs in `env`, which declares into `env` itself
only if `declares`. -/
structure Framed (before : Store) (env : FrameId) (declares : Prop) (after : Store) : Prop where
  size : before.frames.size ≤ after.frames.size
  frames : ∀ id frame, before.frames[id]? = some frame → ∃ frame', after.frames[id]? = some frame' ∧
    (id ∉ before.chain env → frame' = frame) ∧ frame.Extended frame' ∧
    (¬ (id = env ∧ declares) → frame.Kept frame')
  opened : ∀ id outer, before.frames.size ≤ id → after.outer? id = some outer →
    before.Met env outer

variable {before store after : Store} {env id : FrameId} {declares : Prop} {name : String}

theorem met_self (before : Store) (env : FrameId) : before.Met env env := by
  by_cases henv : env < before.frames.size
  · exact .inl (self_mem_chain henv)
  · exact .inr (Nat.le_of_not_lt henv)

theorem Framed.refl (before : Store) (env : FrameId) (declares : Prop) :
    before.Framed env declares before where
  size := Nat.le_refl _
  frames _ frame hframe := ⟨frame, hframe, fun _ ↦ rfl, .refl frame, fun _ ↦ .refl frame⟩
  opened id outer hid houter := by
    rw [outer?, Array.getElem?_eq_none hid] at houter
    cases houter

theorem Framed.unmet (h : before.Framed env declares after) (hid : ¬ before.Met env id) :
    after.frames[id]? = before.frames[id]? := by
  have hlt : id < before.frames.size := Nat.lt_of_not_le fun hle ↦ hid (.inr hle)
  have hframe := Array.getElem?_eq_getElem hlt
  obtain ⟨frame', hframe', houtside, _⟩ := h.frames id _ hframe
  rw [hframe', hframe, houtside fun hchain ↦ hid (.inl hchain)]

/-- What is on the chain of a frame that was met is met. -/
theorem Framed.met_of_mem_chain (hbefore : before.WellFormed)
    (h : before.Framed env declares store) (hid : before.Met env id) :
    ∀ frame ∈ store.chain id, before.Met env frame := by
  refine forall_mem_chain (fun id outer hmet houter ↦ ?_) hid
  by_cases hid : before.frames.size ≤ id
  · exact h.opened id outer hid houter
  · have hframe := Array.getElem?_eq_getElem (Nat.lt_of_not_le hid)
    obtain ⟨frame', hframe', _, hextended, _⟩ := h.frames id _ hframe
    have hold : before.outer? id = some outer := by
      rw [outer?, hframe'] at houter
      rw [outer?, hframe]
      exact hextended.outer.symm.trans houter
    by_cases hsize : before.frames.size ≤ outer
    · exact .inr hsize
    · exact .inl (outer_mem_chain hbefore (hmet.resolve_right hid) hold (Nat.lt_of_not_le hsize))

/-- One frame that was met is changed: it is extended, and where nothing may be declared it is
kept. -/
theorem Framed.change (h : before.Framed env declares store) {change : Frame → Frame}
    (hsize : after.frames.size = store.frames.size)
    (houter : ∀ other, after.outer? other = store.outer? other)
    (hframes : ∀ other, after.frames[other]? =
      if id = other then store.frames[other]?.map change else store.frames[other]?)
    (hmet : before.Met env id) (hextended : ∀ frame : Frame, frame.Extended (change frame))
    (hkept : ∀ frame, store.frames[id]? = some frame → id < before.frames.size →
      ¬ (id = env ∧ declares) → frame.Kept (change frame)) :
    before.Framed env declares after where
  size := hsize ▸ h.size
  frames other frame hframe := by
    obtain ⟨middle, hmiddle, houtside, hext, hkeep⟩ := h.frames other frame hframe
    rw [hframes]
    by_cases hother : id = other
    · subst hother
      have hlt : id < before.frames.size := (Array.getElem?_eq_some_iff.mp hframe).1
      refine ⟨change middle, by rw [if_pos rfl, hmiddle, Option.map_some], fun hnot ↦ ?_,
        hext.trans (hextended middle), fun hdeclares ↦ ?_⟩
      · exact absurd (hmet.resolve_right (Nat.not_le_of_lt hlt)) hnot
      · exact (hkeep hdeclares).trans (hkept middle hmiddle hlt hdeclares)
    · exact ⟨middle, by rw [if_neg hother, hmiddle], houtside, hext, hkeep⟩
  opened other outer hother hlink := h.opened other outer hother (houter other ▸ hlink)

/-- Where a statement may be run: in `env` if it may declare there, and in frames opened since. -/
def Declarable (before : Store) (env : FrameId) (declares : Prop) (id : FrameId) : Prop :=
  id = env ∧ declares ∨ before.frames.size ≤ id

theorem Declarable.met (h : before.Declarable env declares id) : before.Met env id := by
  rcases h with ⟨rfl, _⟩ | hid
  · exact met_self before id
  · exact .inr hid

theorem Framed.declare (h : before.Framed env declares store)
    (hid : before.Declarable env declares id) (name : String) (binding : Binding) :
    before.Framed env declares (store.declare id name binding) := by
  refine h.change (size_declare _ _ _ _) (fun other ↦ outer?_declare _ _ _ _ _)
    (fun other ↦ getElem?_declare _ _ _ _ _) hid.met
    (fun frame ↦ frame.extended_declare name binding) fun frame _ hlt hnot ↦ ?_
  exact absurd (hid.resolve_left hnot) (Nat.not_le_of_lt hlt)

theorem Framed.declareFunction (h : before.Framed env declares store)
    (hid : before.Declarable env declares id) (function : Function) :
    before.Framed env declares (store.declareFunction id function) := by
  refine h.change (size_declareFunction _ _ _) (fun other ↦ outer?_declareFunction _ _ _ _)
    (fun other ↦ getElem?_declareFunction _ _ _ _) hid.met
    (fun frame ↦ frame.extended_declareFunction function) fun frame _ hlt hnot ↦ ?_
  exact absurd (hid.resolve_left hnot) (Nat.not_le_of_lt hlt)

theorem Framed.assign (hbefore : before.WellFormed) (h : before.Framed env declares store)
    (hid : before.Declarable env declares id) (name : String) (value : Value) :
    before.Framed env declares (store.assign id name value) := by
  unfold Store.assign
  cases howner : store.owner? id name with
  | none => exact h.declare hid name (.set value)
  | some owner =>
    obtain ⟨hmem, hbound⟩ := mem_chain_of_owner? howner
    rw [Option.getD_some]
    refine h.change (size_declare _ _ _ _) (fun other ↦ outer?_declare _ _ _ _ _)
      (fun other ↦ getElem?_declare _ _ _ _ _) (h.met_of_mem_chain hbefore hid.met owner hmem)
      (fun frame ↦ frame.extended_declare name _) fun frame hframe _ _ ↦ ?_
    refine Frame.kept_assign ?_ value
    rwa [binding?, hframe, Option.bind_some] at hbound

theorem Framed.openFrame (h : before.Framed env declares store) (hid : before.Met env id) :
    before.Framed env declares (store.openFrame (some id)).2 where
  size := by
    rw [size_openFrame]
    exact Nat.le_succ_of_le h.size
  frames other frame hframe := by
    have hlt : other < before.frames.size := (Array.getElem?_eq_some_iff.mp hframe).1
    rw [getElem?_openFrame, if_neg (Nat.ne_of_lt (Nat.lt_of_lt_of_le hlt h.size))]
    exact h.frames other frame hframe
  opened other outer hother houter := by
    rw [outer?_openFrame] at houter
    split_ifs at houter
    · cases houter
      exact hid
    · exact h.opened other outer hother houter

end Store

/-! ### The law -/

theorem framed_isInvariant {before : Store} (hbefore : before.WellFormed) (limit : Nat)
    (env : FrameId) (declares : Prop) :
    IsInvariant (EvalM.deeper limit) (fun _ t : State Store ↦ before.Framed env declares t.scopes)
      (fun _ ↦ True) (before.Met env) (before.Declarable env declares) where
  site_of_home := Store.Declarable.met
  read name line _ := .of_state fun _ _ hkeeps ↦ by rwa [EvalM.read_state]
  resolve name count line _ := .of_state fun _ _ hkeeps ↦ by rwa [EvalM.resolve_state]
  site_resolve _ _ _ closure hsite hkeeps hok :=
    hkeeps.met_of_mem_chain hbefore hsite closure.frame
      (Store.mem_chain_of_closure? (EvalM.resolve_eq_ok_iff.mp hok).1).1
  openFrame hsite := .of_state fun _ _ hkeeps ↦ hkeeps.openFrame hsite
  home_openFrame inner _ hkeeps hok := by
    cases hok
    exact .inr hkeeps.size
  assign name value hhome := .of_state fun _ _ hkeeps ↦ hkeeps.assign hbefore hhome name value
  declare name binding hhome := .of_state fun _ _ hkeeps ↦ hkeeps.declare hhome name binding
  declareFunction function hhome :=
    .of_state fun _ _ hkeeps ↦ hkeeps.declareFunction hhome function
  write _ _ := .of_state fun _ _ hkeeps ↦ hkeeps
  entered line hbody := .of_state fun s t hkeeps ↦ by
    unfold EvalM.deeper
    split_ifs
    · exact hbody.state s { t with depth := t.depth + 1 } hkeeps
    · exact hkeeps
  fault _ _ _ := trivial
  outOfFuel := trivial

/-- A call changes no more than a run under the frame of the declaration may. -/
theorem framed_calls {state : State Store} (hstate : state.scopes.WellFormed) (limit fuel : Nat)
    (closure : Closure) (values : List Value) (line : Line) :
    state.scopes.Framed closure.frame False
      (calls limit fuel closure values line state).2.scopes := by
  have hsound := (framed_isInvariant hstate limit closure.frame False).isSound
  exact (Simulation.keeps_of_solo 0 (hsound.invokes_calls (.refl fuel) 0 closure closure values line
    ⟨rfl, Store.met_self _ closure.frame⟩)).state state state (.refl _ _ _)

/-- Whatever an evaluation in `env` comes to: a frame off the chain of `env` is as it was; an outer
frame of `env` has its functions and its names as they were, and a variable of it that was set is
set; the same holds of `env` itself if the node is an expression, and if it is a statement, `env`
has lost no name; and no frame has another outer frame than it had. -/
theorem evaluate_framed (limit fuel : Nat) (env : FrameId) (node : Node) (state : State Store)
    (hstate : state.scopes.WellFormed) (id : FrameId) (frame : Frame)
    (hframe : state.scopes.frames[id]? = some frame) :
    ∃ frame', (evaluate fuel (calls limit fuel) env node state).2.scopes.frames[id]? =
        some frame' ∧
      frame'.outer = frame.outer ∧
      (id ∉ state.scopes.chain env → frame' = frame) ∧
      (id ∈ state.scopes.chain env → id ≠ env → frame.Kept frame') ∧
      (id = env → match node with
        | .expr _ => frame.Kept frame'
        | .stmt _ => frame.Extended frame') := by
  have hframed := ((framed_isInvariant hstate limit env (∃ root, node = .stmt root)).evaluate
    fuel node (Store.met_self _ env) fun root hnode ↦ .inl ⟨rfl, root, hnode⟩).state
    state state (.refl _ env _)
  obtain ⟨frame', hframe', houtside, hextended, hkept⟩ := hframed.frames id frame hframe
  refine ⟨frame', hframe', hextended.outer, houtside, fun _ hid ↦ hkept fun h ↦ hid h.1,
    fun hid ↦ ?_⟩
  cases node with
  | expr root => exact hkept fun ⟨_, _, hstmt⟩ ↦ by cases hstmt
  | stmt root => exact hextended

/-- A frame with a variable and a function that sets it, and two frames under it, the second with a
variable of that name for itself. -/
def Store.siblings : Store where
  frames := #[
    { bindings := ⟨[("x", .set (.boolean true))]⟩
      functions := ⟨[("f", ⟨"f", ["y"], [.assign "x" (.identifier "y" 1) 1,
        .ret (some (.identifier "x" 1)) 1], 1⟩)]⟩ },
    { outer := some 0 },
    { bindings := ⟨[("x", .set (.boolean true))]⟩, outer := some 0 }]

theorem Store.wellFormed_siblings : Store.siblings.WellFormed := by
  intro id outer houter
  rcases id with _ | _ | _ | id
  · cases houter
  · cases houter
    exact Nat.zero_lt_one
  · cases houter
    exact Nat.zero_lt_two
  · cases houter

/-- A call from the first of the siblings sets the variable of the frame outside and leaves the
other sibling alone. -/
theorem evaluate_framed_siblings :
    Store.siblings.WellFormed ∧
      ∃ sibling, Store.siblings.frames[2]? = some sibling ∧
        (evaluate 2 (calls 1 2) 1 (.expr (.call "f" [.bool false 1] 1))
          ⟨Store.siblings, 0, {}⟩).2.scopes.frames[2]? = some sibling := by
  refine ⟨Store.wellFormed_siblings, _, rfl, ?_⟩
  obtain ⟨frame', hframe', -, houtside, -⟩ := evaluate_framed 1 2 1
    (.expr (.call "f" [.bool false 1] 1)) ⟨Store.siblings, 0, {}⟩ Store.wellFormed_siblings 2 _ rfl
  rw [hframe', houtside (by decide)]

end Treewalk
