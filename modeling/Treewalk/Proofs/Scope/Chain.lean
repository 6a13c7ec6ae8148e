import Mathlib.Data.List.Find
import Treewalk.Scope.Store

/-!
# Frames and chains

What each operation does to single frames, and what the chain of a frame holds. A chain depends on
the outer links alone (`chain_congr`), stays within every set of frames that the links do not leave
(`forall_mem_chain`), and in a store whose links lead to older frames it leaves out no outer frame
(`outer_mem_chain`). Whatever is looked up along a chain is found in one of its frames.
-/

set_option autoImplicit false
set_option relaxedAutoImplicit false

namespace Treewalk

namespace Store

def outer? (store : Store) (id : FrameId) : Option FrameId :=
  store.frames[id]?.bind (·.outer)

/-- Outer frames were opened earlier. -/
def WellFormed (store : Store) : Prop :=
  ∀ id outer, store.outer? id = some outer → outer < id

/-! ### Single frames -/

section Frames

variable (store : Store) (id other : FrameId) (name asked : String) (binding : Binding)
  (value : Value) (function : Function) (outer : Option FrameId)

@[simp] theorem size_declare :
    (store.declare id name binding).frames.size = store.frames.size :=
  Array.size_modify

@[simp] theorem size_assign : (store.assign id name value).frames.size = store.frames.size :=
  size_declare _ _ _ _

@[simp] theorem size_declareFunction :
    (store.declareFunction id function).frames.size = store.frames.size :=
  Array.size_modify

@[simp] theorem size_openFrame :
    (store.openFrame outer).2.frames.size = store.frames.size + 1 :=
  Array.size_push _

theorem getElem?_declare :
    (store.declare id name binding).frames[other]? =
      if id = other then
        store.frames[other]?.map fun frame ↦
          { frame with bindings := frame.bindings.insert name binding }
      else store.frames[other]? :=
  Array.getElem?_modify

theorem getElem?_declareFunction :
    (store.declareFunction id function).frames[other]? =
      if id = other then
        store.frames[other]?.map fun frame ↦
          { frame with functions := frame.functions.insert function.name function }
      else store.frames[other]? :=
  Array.getElem?_modify

theorem getElem?_openFrame :
    (store.openFrame outer).2.frames[other]? =
      if other = store.frames.size then some { outer } else store.frames[other]? :=
  Array.getElem?_push

@[simp] theorem outer?_declare :
    (store.declare id name binding).outer? other = store.outer? other := by
  unfold outer?
  rw [getElem?_declare]
  split_ifs
  · cases store.frames[other]? <;> rfl
  · rfl

@[simp] theorem outer?_assign : (store.assign id name value).outer? other = store.outer? other :=
  outer?_declare _ _ _ _ _

@[simp] theorem outer?_declareFunction :
    (store.declareFunction id function).outer? other = store.outer? other := by
  unfold outer?
  rw [getElem?_declareFunction]
  split_ifs
  · cases store.frames[other]? <;> rfl
  · rfl

theorem outer?_openFrame :
    (store.openFrame outer).2.outer? other =
      if other = store.frames.size then outer else store.outer? other := by
  unfold outer?
  rw [getElem?_openFrame]
  split_ifs <;> rfl

theorem binding?_declare :
    (store.declare id name binding).binding? asked other =
      if id = other ∧ asked = name ∧ other < store.frames.size then some binding
      else store.binding? asked other := by
  unfold binding?
  rw [getElem?_declare]
  by_cases hid : id = other
  · by_cases hother : other < store.frames.size
    · simp [hid, hother, Table.get?_insert]
    · simp [hid, hother]
  · simp [hid]

@[simp] theorem function?_declare :
    (store.declare id name binding).function? asked other = store.function? asked other := by
  unfold function?
  rw [getElem?_declare]
  split_ifs
  · cases store.frames[other]? <;> rfl
  · rfl

theorem function?_declareFunction :
    (store.declareFunction id function).function? name other =
      if id = other ∧ name = function.name ∧ other < store.frames.size then some function
      else store.function? name other := by
  unfold function?
  rw [getElem?_declareFunction]
  by_cases hid : id = other
  · by_cases hother : other < store.frames.size
    · simp [hid, hother, Table.get?_insert]
    · simp [hid, hother]
  · simp [hid]

@[simp] theorem binding?_declareFunction :
    (store.declareFunction id function).binding? name other = store.binding? name other := by
  unfold binding?
  rw [getElem?_declareFunction]
  split_ifs
  · cases store.frames[other]? <;> rfl
  · rfl

theorem binding?_openFrame :
    (store.openFrame outer).2.binding? name other =
      if other = store.frames.size then none else store.binding? name other := by
  unfold binding?
  rw [getElem?_openFrame]
  split_ifs <;> rfl

theorem function?_openFrame :
    (store.openFrame outer).2.function? name other =
      if other = store.frames.size then none else store.function? name other := by
  unfold function?
  rw [getElem?_openFrame]
  split_ifs <;> rfl

end Frames

/-! ### Chains -/

variable {store first second : Store} {id frame outer : FrameId} {name : String}

theorem chainWithin_succ (store : Store) (steps : Nat) (id : FrameId) :
    store.chainWithin (steps + 1) id =
      if id < store.frames.size then id :: (store.outer? id).elim [] (store.chainWithin steps)
      else [] := by
  rw [chainWithin, outer?]
  by_cases hid : id < store.frames.size
  · rw [if_pos hid, Array.getElem?_eq_getElem hid]
    rfl
  · rw [if_neg hid, Array.getElem?_eq_none (Nat.le_of_not_lt hid)]

theorem chain_congr (hsize : second.frames.size = first.frames.size)
    (houter : ∀ id, second.outer? id = first.outer? id) (id : FrameId) :
    second.chain id = first.chain id := by
  have hwithin : ∀ steps id, second.chainWithin steps id = first.chainWithin steps id := by
    intro steps
    induction steps with
    | zero => exact fun _ ↦ rfl
    | succ steps ih =>
      intro id
      rw [chainWithin_succ, chainWithin_succ, hsize, houter id, funext ih]
  exact hwithin (id + 1) id

/-- Frames that are opened elsewhere leave a chain as it was. -/
theorem chain_of_outer?_eq (hfirst : first.WellFormed)
    (hsize : first.frames.size ≤ second.frames.size)
    (houter : ∀ id < first.frames.size, second.outer? id = first.outer? id)
    (hid : id < first.frames.size) : second.chain id = first.chain id := by
  have hwithin : ∀ steps id, id < first.frames.size →
      second.chainWithin steps id = first.chainWithin steps id := by
    intro steps
    induction steps with
    | zero => exact fun _ _ ↦ rfl
    | succ steps ih =>
      intro id hid
      rw [chainWithin_succ, chainWithin_succ, if_pos hid, if_pos (Nat.lt_of_lt_of_le hid hsize),
        houter id hid]
      cases hnext : first.outer? id with
      | none => rfl
      | some next =>
        rw [Option.elim_some, Option.elim_some, ih next (Nat.lt_trans (hfirst id next hnext) hid)]
  exact hwithin (id + 1) id hid

theorem forall_mem_chain {within : FrameId → Prop}
    (hclosed : ∀ id outer, within id → store.outer? id = some outer → within outer)
    (hid : within id) : ∀ frame ∈ store.chain id, within frame := by
  have hwithin : ∀ steps id, within id → ∀ frame ∈ store.chainWithin steps id, within frame := by
    intro steps
    induction steps with
    | zero => exact fun _ _ _ hframe ↦ by cases hframe
    | succ steps ih =>
      intro id hid frame hframe
      rw [chainWithin_succ] at hframe
      split_ifs at hframe
      · rcases List.mem_cons.mp hframe with rfl | htail
        · exact hid
        · cases houter : store.outer? id with
          | none =>
            rw [houter] at htail
            cases htail
          | some outer =>
            rw [houter] at htail
            exact ih outer (hclosed id outer hid houter) frame htail
      · cases hframe
  exact hwithin (id + 1) id hid

theorem self_mem_chain (hid : id < store.frames.size) : id ∈ store.chain id := by
  rw [chain, chainWithin_succ, if_pos hid]
  exact List.mem_cons_self

/-- Chains go through open frames, and only open frames have one. -/
theorem lt_size_of_mem_chain (hframe : frame ∈ store.chain id) :
    id < store.frames.size ∧ frame < store.frames.size := by
  have hwithin : ∀ steps id, frame ∈ store.chainWithin steps id →
      id < store.frames.size ∧ frame < store.frames.size := by
    intro steps
    induction steps with
    | zero => exact fun _ hframe ↦ by cases hframe
    | succ steps ih =>
      intro id hframe
      rw [chainWithin_succ] at hframe
      split_ifs at hframe with hid
      · rcases List.mem_cons.mp hframe with rfl | htail
        · exact ⟨hid, hid⟩
        · cases houter : store.outer? id with
          | none =>
            rw [houter] at htail
            cases htail
          | some outer =>
            rw [houter] at htail
            exact ⟨hid, (ih outer htail).2⟩
      · cases hframe
  exact hwithin (id + 1) id hframe

/-- The bound on the steps is never what ends a chain, since the links lead to smaller numbers. -/
theorem chainWithin_eq_chain (hstore : store.WellFormed) {steps : Nat} (hid : id < steps) :
    store.chainWithin steps id = store.chain id := by
  have hstable : ∀ steps steps' id, id < steps → id < steps' →
      store.chainWithin steps id = store.chainWithin steps' id := by
    intro steps
    induction steps with
    | zero => exact fun _ _ hid ↦ absurd hid (Nat.not_lt_zero _)
    | succ steps ih =>
      intro steps' id hid hid'
      obtain ⟨rest, rfl⟩ := Nat.exists_eq_succ_of_ne_zero (Nat.ne_zero_of_lt hid')
      rw [chainWithin_succ, chainWithin_succ]
      cases houter : store.outer? id with
      | none => rfl
      | some outer =>
        have hlt : outer < id := hstore id outer houter
        rw [Option.elim_some, Option.elim_some,
          ih rest outer (Nat.lt_of_lt_of_le hlt (Nat.le_of_lt_succ hid))
            (Nat.lt_of_lt_of_le hlt (Nat.le_of_lt_succ hid'))]
  exact hstable steps (id + 1) id hid (Nat.lt_succ_self id)

theorem chain_eq (hstore : store.WellFormed) (id : FrameId) :
    store.chain id =
      if id < store.frames.size then id :: (store.outer? id).elim [] store.chain else [] := by
  rw [chain, chainWithin_succ]
  cases houter : store.outer? id with
  | none => rfl
  | some outer =>
    rw [Option.elim_some, Option.elim_some, chainWithin_eq_chain hstore (hstore id outer houter)]

theorem outer_mem_chain (hstore : store.WellFormed) (hframe : frame ∈ store.chain id)
    (houter : store.outer? frame = some outer) (hsize : outer < store.frames.size) :
    outer ∈ store.chain id := by
  induction id using Nat.strongRecOn with
  | ind id ih =>
    rw [chain_eq hstore] at hframe ⊢
    split_ifs at hframe ⊢
    · refine List.mem_cons_of_mem _ ?_
      rcases List.mem_cons.mp hframe with rfl | htail
      · rw [houter]
        exact self_mem_chain hsize
      · cases hnext : store.outer? id with
        | none =>
          rw [hnext] at htail
          cases htail
        | some next =>
          rw [hnext] at htail
          exact ih next (hstore id next hnext) htail
    · cases hframe

/-! ### Well-formed stores -/

theorem wellFormed_empty : ({} : Store).WellFormed :=
  fun _ _ houter ↦ by cases houter

theorem WellFormed.openFrame (hstore : store.WellFormed) {outer : Option FrameId}
    (houter : ∀ id, outer = some id → id < store.frames.size) :
    (store.openFrame outer).2.WellFormed := by
  intro id next hnext
  rw [outer?_openFrame] at hnext
  split_ifs at hnext with hid
  · exact hid ▸ houter next hnext
  · exact hstore id next hnext

theorem WellFormed.congr (hstore : first.WellFormed)
    (houter : ∀ id, second.outer? id = first.outer? id) : second.WellFormed :=
  fun id outer h ↦ hstore id outer (houter id ▸ h)

/-- A frame that is opened leaves the chains of the others as they were, and its own leads to that
of its outer frame. -/
theorem chain_openFrame (hstore : store.WellFormed) {outer : Option FrameId}
    (houter : ∀ id, outer = some id → id < store.frames.size) (id : FrameId) :
    (store.openFrame outer).2.chain id =
      if id = store.frames.size then id :: outer.elim [] store.chain else store.chain id := by
  have hopened := hstore.openFrame houter
  induction id using Nat.strongRecOn with
  | ind id ih =>
    rw [chain_eq hopened, outer?_openFrame, size_openFrame]
    by_cases hid : id = store.frames.size
    · rw [if_pos (hid ▸ Nat.lt_succ_self _), if_pos hid, if_pos hid]
      congr 1
      rcases outer with _ | outer
      · rfl
      · have hlt : outer < store.frames.size := houter outer rfl
        exact (ih outer (hid ▸ hlt)).trans (if_neg (Nat.ne_of_lt hlt))
    · rw [if_neg hid, if_neg hid, chain_eq hstore]
      by_cases hopen : id < store.frames.size
      · rw [if_pos (Nat.lt_succ_of_lt hopen), if_pos hopen]
        congr 1
        rcases hnext : store.outer? id with _ | next
        · rfl
        · have hlt : next < id := hstore id next hnext
          exact (ih next hlt).trans (if_neg (Nat.ne_of_lt (Nat.lt_trans hlt hopen)))
      · have hbeyond : ¬ id < store.frames.size + 1 := fun hlt ↦
          (Nat.lt_or_eq_of_le (Nat.le_of_lt_succ hlt)).elim hopen hid
        rw [if_neg hbeyond, if_neg hopen]

/-! ### What is found along a chain -/

theorem lt_size_of_binding? {binding : Binding} (h : store.binding? name id = some binding) :
    id < store.frames.size := by
  obtain ⟨frame, hframe, -⟩ := Option.bind_eq_some_iff.mp h
  exact (Array.getElem?_eq_some_iff.mp hframe).1

theorem lt_size_of_function? {function : Function} (h : store.function? name id = some function) :
    id < store.frames.size := by
  obtain ⟨frame, hframe, -⟩ := Option.bind_eq_some_iff.mp h
  exact (Array.getElem?_eq_some_iff.mp hframe).1

theorem mem_chain_of_owner? (h : store.owner? id name = some frame) :
    frame ∈ store.chain id ∧ (store.binding? name frame).isSome :=
  ⟨List.mem_of_find?_eq_some h,
    List.find?_some (p := fun frame ↦ (store.binding? name frame).isSome) h⟩

theorem mem_chain_of_closure? {closure : Closure} (h : store.closure? id name = some closure) :
    closure.frame ∈ store.chain id ∧
      store.function? name closure.frame = some closure.function := by
  obtain ⟨frame, hframe, hfound⟩ := List.exists_of_findSome?_eq_some h
  obtain ⟨function, hfunction, rfl⟩ := Option.map_eq_some_iff.mp hfound
  exact ⟨hframe, hfunction⟩

theorem lt_size_of_closure? {closure : Closure} (h : store.closure? id name = some closure) :
    closure.frame < store.frames.size :=
  lt_size_of_function? (mem_chain_of_closure? h).2

theorem findSome?_congr {α β : Type} {find find' : α → Option β} {list : List α}
    (h : ∀ a ∈ list, find a = find' a) : list.findSome? find = list.findSome? find' := by
  induction list with
  | nil => rfl
  | cons a rest ih =>
    rw [List.findSome?_cons, List.findSome?_cons, h a List.mem_cons_self,
      ih fun b hb ↦ h b (List.mem_cons_of_mem a hb)]

/-- Stores of one shape that agree along a chain on what the frames bind find the same there. -/
theorem get?_congr (hchain : second.chain id = first.chain id)
    (hbindings : ∀ frame ∈ first.chain id, second.binding? name frame = first.binding? name frame) :
    second.get? id name = first.get? id name := by
  rw [get?, get?, hchain]
  exact findSome?_congr hbindings

theorem owner?_congr (hchain : second.chain id = first.chain id)
    (hbindings : ∀ frame ∈ first.chain id, second.binding? name frame = first.binding? name frame) :
    second.owner? id name = first.owner? id name := by
  rw [owner?, owner?, hchain]
  exact List.find?_congr fun frame hframe ↦ by rw [hbindings frame hframe]

theorem closure?_congr (hchain : second.chain id = first.chain id)
    (hfunctions : ∀ frame ∈ first.chain id,
      second.function? name frame = first.function? name frame) :
    second.closure? id name = first.closure? id name := by
  rw [closure?, closure?, hchain]
  exact findSome?_congr fun frame hframe ↦ by rw [hfunctions frame hframe]

/-- A variable that the frame itself binds is found there. -/
theorem get?_of_binding? {binding : Binding} (h : store.binding? name frame = some binding) :
    store.get? frame name = some binding := by
  rw [get?, chain, chainWithin_succ, if_pos (lt_size_of_binding? h), List.findSome?_cons, h]

theorem closure?_of_function? {function : Function}
    (h : store.function? name frame = some function) :
    store.closure? frame name = some ⟨function, frame⟩ := by
  rw [closure?, chain, chainWithin_succ, if_pos (lt_size_of_function? h), List.findSome?_cons, h]
  rfl

/-! ### What is found from a new frame -/

theorem chain_openFrame_new (hstore : store.WellFormed) (hframe : frame < store.frames.size) :
    (store.openFrame (some frame)).2.chain store.frames.size =
      store.frames.size :: store.chain frame := by
  rw [chain_openFrame hstore (by rintro _ ⟨⟩; exact hframe), if_pos rfl, Option.elim_some]

/-- From a frame that was just opened, a variable is found where it is found from the outer one. -/
theorem get?_openFrame_new (hstore : store.WellFormed) (hframe : frame < store.frames.size)
    (name : String) :
    (store.openFrame (some frame)).2.get? store.frames.size name = store.get? frame name := by
  rw [get?, chain_openFrame_new hstore hframe, List.findSome?_cons, binding?_openFrame, if_pos rfl]
  refine findSome?_congr fun id hid ↦ ?_
  rw [binding?_openFrame, if_neg (Nat.ne_of_lt (lt_size_of_mem_chain hid).2)]

theorem closure?_openFrame_new (hstore : store.WellFormed) (hframe : frame < store.frames.size)
    (name : String) :
    (store.openFrame (some frame)).2.closure? store.frames.size name =
      store.closure? frame name := by
  rw [closure?, chain_openFrame_new hstore hframe, List.findSome?_cons, function?_openFrame,
    if_pos rfl]
  refine findSome?_congr fun id hid ↦ ?_
  rw [function?_openFrame, if_neg (Nat.ne_of_lt (lt_size_of_mem_chain hid).2)]

end Store

end Treewalk
