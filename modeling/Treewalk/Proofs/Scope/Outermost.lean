import Treewalk.Proofs.Scope.Opened

/-!
# Names of the outermost frame

All frames of a chain lead to one outermost frame (`Store.outermost?_of_mem_chain`), and a frame
that is opened under one of them leads to it too. No operation takes a name away from it. So
whatever frames an evaluation goes through, a look-up of a name that the outermost frame had at the
beginning finds it there, if not before (`outermost_names_stay`).
-/

set_option autoImplicit false
set_option relaxedAutoImplicit false

namespace Treewalk

namespace Store

/-- The frame at which the way outward ends. -/
def outermost? (store : Store) (id : FrameId) : Option FrameId :=
  (store.chain id).getLast?

variable {before store : Store} {within : FrameId → Prop} {env frame root : FrameId}
  {name : String}

theorem outermost?_of_mem_chain (hstore : store.WellFormed) (hframe : frame ∈ store.chain env) :
    store.outermost? frame = store.outermost? env := by
  induction env using Nat.strongRecOn with
  | ind env ih =>
    by_cases hself : frame = env
    · rw [hself]
    have hchain := chain_eq hstore env
    split_ifs at hchain
    · rw [hchain] at hframe
      have htail := (List.mem_cons.mp hframe).resolve_left hself
      cases houter : store.outer? env with
      | none =>
        rw [houter] at htail
        cases htail
      | some outer =>
        rw [houter, Option.elim_some] at hchain htail
        rw [ih outer (hstore env outer houter) htail, outermost?, outermost?, hchain,
          List.getLast?_cons_of_ne_nil (List.ne_nil_of_mem htail)]
    · rw [hchain] at hframe
      cases hframe

theorem mem_chain_of_outermost? (h : store.outermost? env = some root) :
    root ∈ store.chain env :=
  List.mem_of_getLast? h

theorem lt_size_of_outermost? (h : store.outermost? env = some root) :
    env < store.frames.size := by
  by_contra hsize
  rw [outermost?, chain, chainWithin_succ, if_neg hsize] at h
  cases h

theorem outermost?_openFrame (hstore : store.WellFormed) (henv : env < store.frames.size)
    (h : store.outermost? env = some root) (id : FrameId) :
    (store.openFrame (some env)).2.outermost? id =
      if id = store.frames.size then some root else store.outermost? id := by
  rw [outermost?, chain_openFrame hstore (by rintro _ ⟨⟩; exact henv)]
  split_ifs
  · rw [Option.elim_some, List.getLast?_cons_of_ne_nil
      (List.ne_nil_of_mem (mem_chain_of_outermost? h))]
    exact h
  · rfl

/-- A variable of the outermost frame is found from every frame that leads there. -/
theorem get?_ne_none_of_outermost? (h : store.outermost? env = some root)
    (hname : (store.binding? name root).isSome) : store.get? env name ≠ none := by
  intro hnone
  have hroot := List.findSome?_eq_none_iff.mp hnone root (mem_chain_of_outermost? h)
  rw [hroot] at hname
  cases hname

theorem closure?_ne_none_of_outermost? (h : store.outermost? env = some root)
    (hname : (store.function? name root).isSome) : store.closure? env name ≠ none := by
  intro hnone
  have hroot := List.findSome?_eq_none_iff.mp hnone root (mem_chain_of_outermost? h)
  rw [Option.map_eq_none_iff.mp hroot] at hname
  cases hname

/-- These frames, as far as they are open, lead to one outermost frame, which has the names that it
had before. -/
structure Rooted (before : Store) (within : FrameId → Prop) (root : FrameId) (store : Store) :
    Prop where
  size : before.frames.size ≤ store.frames.size
  wellFormed : store.WellFormed
  enclosed : store.Enclosed within
  outermost : ∀ id, within id → id < store.frames.size → store.outermost? id = some root
  bindings : ∀ name, (before.binding? name root).isSome → (store.binding? name root).isSome
  functions : ∀ name, (before.function? name root).isSome → (store.function? name root).isSome

theorem Rooted.openFrame (h : before.Rooted within root store) (henv : store.Opened within env) :
    before.Rooted within root (store.openFrame (some env)).2 where
  size := by
    rw [size_openFrame]
    exact Nat.le_succ_of_le h.size
  wellFormed := h.wellFormed.openFrame (by rintro _ ⟨⟩; exact henv.2)
  enclosed := h.enclosed.openFrame henv.1
  outermost id hid hsize := by
    rw [outermost?_openFrame h.wellFormed henv.2 (h.outermost env henv.1 henv.2)]
    split_ifs with hnew
    · rfl
    · rw [size_openFrame] at hsize
      exact h.outermost id hid (Nat.lt_of_le_of_ne (Nat.le_of_lt_succ hsize) hnew)
  bindings name hname := by
    have hroot := h.bindings name hname
    obtain ⟨_, hbinding⟩ := Option.isSome_iff_exists.mp hroot
    rwa [binding?_openFrame, if_neg (Nat.ne_of_lt (lt_size_of_binding? hbinding))]
  functions name hname := by
    have hroot := h.functions name hname
    obtain ⟨_, hfunction⟩ := Option.isSome_iff_exists.mp hroot
    rwa [function?_openFrame, if_neg (Nat.ne_of_lt (lt_size_of_function? hfunction))]

/-- A change that leaves the links as they are and takes no name away. -/
theorem Rooted.change {after : Store} (h : before.Rooted within root store)
    (hsize : after.frames.size = store.frames.size)
    (houter : ∀ id, after.outer? id = store.outer? id)
    (hbindings : ∀ name, (store.binding? name root).isSome → (after.binding? name root).isSome)
    (hfunctions : ∀ name, (store.function? name root).isSome → (after.function? name root).isSome) :
    before.Rooted within root after where
  size := hsize ▸ h.size
  wellFormed := h.wellFormed.congr houter
  enclosed := h.enclosed.congr hsize houter
  outermost id hid hopen := by
    rw [outermost?, chain_congr hsize houter]
    exact h.outermost id hid (hsize ▸ hopen)
  bindings name hname := hbindings name (h.bindings name hname)
  functions name hname := hfunctions name (h.functions name hname)

theorem Rooted.declare (h : before.Rooted within root store) (env : FrameId) (name : String)
    (binding : Binding) : before.Rooted within root (store.declare env name binding) := by
  refine h.change (size_declare _ _ _ _) (fun id ↦ outer?_declare _ _ _ _ _)
    (fun asked hasked ↦ ?_) fun asked hasked ↦ ?_
  · rw [binding?_declare]
    split_ifs
    · rfl
    · exact hasked
  · rwa [function?_declare]

theorem Rooted.declareFunction (h : before.Rooted within root store) (env : FrameId)
    (function : Function) : before.Rooted within root (store.declareFunction env function) := by
  refine h.change (size_declareFunction _ _ _) (fun id ↦ outer?_declareFunction _ _ _ _)
    (fun asked hasked ↦ ?_) fun asked hasked ↦ ?_
  · rwa [binding?_declareFunction]
  · rw [function?_declareFunction]
    split_ifs
    · rfl
    · exact hasked

/-- The frames that a run in `env` meets lead to the outermost frame of `env`. -/
theorem rooted_met (hbefore : before.WellFormed) (hroot : before.outermost? env = some root) :
    before.Rooted (before.Met env) root before where
  size := Nat.le_refl _
  wellFormed := hbefore
  enclosed := enclosed_met hbefore env
  outermost _ hid hsize :=
    (outermost?_of_mem_chain hbefore (hid.resolve_right (Nat.not_le_of_lt hsize))).trans hroot
  bindings _ hname := hname
  functions _ hname := hname

end Store

/-- The stop is not for want of a name that the frame has. -/
def Stop.MissesNone (store : Store) (root : FrameId) (stop : Stop) : Prop :=
  (∀ name, (store.binding? name root).isSome →
    ∀ line, stop ≠ .error ⟨.undeclaredIdentifier name, line⟩) ∧
  ∀ name, (store.function? name root).isSome →
    ∀ line, stop ≠ .error ⟨.undeclaredFunction name, line⟩

theorem rooted_isKept (before : Store) (within : FrameId → Prop) (root : FrameId) :
    Store.IsKept within (before.Rooted within root) (Stop.MissesNone before root) where
  enclosed hkeeps := hkeeps.enclosed
  openFrame hkeeps henv := hkeeps.openFrame henv
  declare name binding hkeeps _ := hkeeps.declare _ name binding
  declareFunction function hkeeps _ := hkeeps.declareFunction _ function
  unbound {_ _ name} line hkeeps henv hnone := by
    refine ⟨?_, nofun⟩
    rintro _ hname _ ⟨⟩
    exact Store.get?_ne_none_of_outermost? (hkeeps.outermost _ henv.1 henv.2)
      (hkeeps.bindings name hname) hnone
  unresolved {_ _ name} line hkeeps henv hnone := by
    refine ⟨nofun, ?_⟩
    rintro _ hname _ ⟨⟩
    exact Store.closure?_ne_none_of_outermost? (hkeeps.outermost _ henv.1 henv.2)
      (hkeeps.functions name hname) hnone
  other stop hother := by
    refine ⟨?_, ?_⟩ <;> rintro name _ line rfl <;> cases hother

/-- Whatever a node does in a frame, it never fails for want of a variable or of a function that the
outermost frame has at the beginning. That frame stays the outermost one, and still has their names
at the end, however the evaluation ends. -/
theorem outermost_names_stay (limit fuel : Nat) (env root : FrameId) (node : Node)
    (state : State Store) (hstate : state.scopes.WellFormed)
    (hroot : state.scopes.outermost? env = some root) :
    let ran := evaluate fuel (calls limit fuel) env node state
    (∀ name, (state.scopes.binding? name root).isSome →
      (∀ line, ran.1 ≠ .error (.error ⟨.undeclaredIdentifier name, line⟩)) ∧
        (ran.2.scopes.binding? name root).isSome) ∧
    (∀ name, (state.scopes.function? name root).isSome →
      (∀ line, ran.1 ≠ .error (.error ⟨.undeclaredFunction name, line⟩)) ∧
        (ran.2.scopes.function? name root).isSome) ∧
    ran.2.scopes.WellFormed ∧ ran.2.scopes.outermost? env = some root := by
  intro ran
  have hopen := Store.lt_size_of_outermost? hroot
  have hmet := Store.met_self state.scopes env
  obtain ⟨hafter, hstops⟩ :=
    (rooted_isKept state.scopes (state.scopes.Met env) root).evaluate limit fuel node
      (Store.rooted_met hstate hroot) ⟨hmet, hopen⟩
  refine ⟨fun name hname ↦ ⟨fun line hline ↦ ?_, hafter.bindings name hname⟩,
    fun name hname ↦ ⟨fun line hline ↦ ?_, hafter.functions name hname⟩, hafter.wellFormed, ?_⟩
  · exact (hstops _ hline).1 name hname line rfl
  · exact (hstops _ hline).2 name hname line rfl
  · exact hafter.outermost env hmet (Nat.lt_of_lt_of_le hopen hafter.size)

/-- From a frame under the outermost one, a call of the function there that fails for want of
another variable. -/
theorem outermost_names_stay_siblings :
    let state : State Store := ⟨Store.siblings, 0, {}⟩
    let node : Node := .expr (.call "f" [.binary (.identifier "x" 1) .add (.identifier "y" 2) 1] 1)
    let ran := evaluate 2 (calls 1 2) 1 node state
    state.scopes.WellFormed ∧ state.scopes.outermost? 1 = some 0 ∧
      ran.1 = .error (.error ⟨.undeclaredIdentifier "y", 2⟩) ∧
      ((state.scopes.binding? "x" 0).isSome ∧
        ∀ line, ran.1 ≠ .error (.error ⟨.undeclaredIdentifier "x", line⟩)) ∧
      (state.scopes.function? "f" 0).isSome ∧
        ∀ line, ran.1 ≠ .error (.error ⟨.undeclaredFunction "f", line⟩) := by
  intro state node ran
  have hstate : state.scopes.WellFormed := Store.wellFormed_siblings
  have hroot : state.scopes.outermost? 1 = some 0 := by decide
  have hx : (state.scopes.binding? "x" 0).isSome := by decide
  have hf : (state.scopes.function? "f" 0).isSome := by decide
  obtain ⟨hvariables, hfunctions, -⟩ := outermost_names_stay 1 2 1 0 node state hstate hroot
  exact ⟨hstate, hroot, by rfl, ⟨hx, (hvariables "x" hx).1⟩, hf, (hfunctions "f" hf).1⟩

end Treewalk
