import Treewalk.Proofs.Scope.History
import Treewalk.Proofs.Simulation.Representation

/-!
# Stored closures

A closure is a function with the frame that it was declared in. `Store` keeps the function alone and
puts the frame to it when a look-up finds it. `ClosureStore` keeps the closures themselves. The two
cannot be told apart: after the same changes they find the same closures, and programs run over one
as over the other (`closures_recomputed`).
-/

set_option autoImplicit false
set_option relaxedAutoImplicit false

namespace Treewalk

/-- Frames whose functions are stored as closures. -/
structure ClosureStore where
  /-- The frames with their outer links and variables. -/
  bindings : Store := {}
  /-- The closures that were declared in each frame. -/
  closures : Array (Table Closure) := #[]

namespace ClosureStore

def openFrame (captured : ClosureStore) (outer : Option FrameId) : FrameId × ClosureStore :=
  let (inner, bindings) := captured.bindings.openFrame outer
  (inner, ⟨bindings, captured.closures.push {}⟩)

def declare (captured : ClosureStore) (id : FrameId) (name : String) (binding : Binding) :
    ClosureStore :=
  { captured with bindings := captured.bindings.declare id name binding }

def assign (captured : ClosureStore) (id : FrameId) (name : String) (value : Value) :
    ClosureStore :=
  { captured with bindings := captured.bindings.assign id name value }

/-- Stores a function together with the frame. -/
def declareFunction (captured : ClosureStore) (id : FrameId) (function : Function) :
    ClosureStore :=
  { captured with closures := captured.closures.modify id (·.insert function.name ⟨function, id⟩) }

/-- The closure that is stored under a name in a frame itself. -/
def stored? (captured : ClosureStore) (name : String) (id : FrameId) : Option Closure :=
  captured.closures[id]?.bind (·.get? name)

/-- The closure that is stored in the nearest frame. -/
def closure? (captured : ClosureStore) (id : FrameId) (name : String) : Option Closure :=
  (captured.bindings.chain id).findSome? (captured.stored? name)

instance : Scopes ClosureStore where
  empty := {}
  openFrame := openFrame
  get? captured := captured.bindings.get?
  declare := declare
  assign := assign
  declareFunction := declareFunction
  closure? := closure?

def change (captured : ClosureStore) : Store.Change → ClosureStore
  | .openFrame outer => (captured.openFrame outer).2
  | .declare env name binding => captured.declare env name binding
  | .assign env name value => captured.assign env name value
  | .declareFunction env function => captured.declareFunction env function

/-- The store that a history leads to, its latest change first. -/
def ofHistory (past : List Store.Change) : ClosureStore :=
  past.foldr (fun change captured ↦ captured.change change) {}

/-! ### Single frames -/

section Frames

variable (captured : ClosureStore) (id other : FrameId) (name : String) (function : Function)
  (outer : Option FrameId)

theorem stored?_openFrame :
    (captured.openFrame outer).2.stored? name other =
      if other = captured.closures.size then none else captured.stored? name other := by
  change (captured.closures.push {})[other]?.bind _ = _
  rw [Array.getElem?_push]
  split_ifs <;> rfl

theorem stored?_declareFunction :
    (captured.declareFunction id function).stored? name other =
      if id = other ∧ name = function.name ∧ other < captured.closures.size then
        some ⟨function, id⟩
      else captured.stored? name other := by
  unfold stored? declareFunction
  rw [Array.getElem?_modify]
  by_cases hid : id = other
  · by_cases hother : other < captured.closures.size
    · simp [hid, hother, Table.get?_insert]
    · simp [hid, hother]
  · simp [hid]

end Frames

/-! ### Stored and recomputed closures -/

/-- The same frames with the same variables, and in each frame the closures of its functions over
the frame itself. -/
structure Captures (store : Store) (captured : ClosureStore) : Prop where
  size : captured.bindings.frames.size = store.frames.size
  tables : captured.closures.size = store.frames.size
  outer : ∀ id, captured.bindings.outer? id = store.outer? id
  bindings : ∀ name id, captured.bindings.binding? name id = store.binding? name id
  closures : ∀ name id, captured.stored? name id =
    (store.function? name id).map fun function ↦ ⟨function, id⟩

variable {store : Store} {captured : ClosureStore}

namespace Captures

theorem chain (h : Captures store captured) (id : FrameId) :
    captured.bindings.chain id = store.chain id :=
  Store.chain_congr h.size h.outer id

theorem get? (h : Captures store captured) (id : FrameId) (name : String) :
    captured.bindings.get? id name = store.get? id name :=
  Store.get?_congr (h.chain id) fun frame _ ↦ h.bindings name frame

theorem closure? (h : Captures store captured) (id : FrameId) (name : String) :
    captured.closure? id name = store.closure? id name := by
  rw [ClosureStore.closure?, Store.closure?, h.chain]
  exact Store.findSome?_congr fun frame _ ↦ h.closures name frame

theorem empty : Captures {} {} where
  size := rfl
  tables := rfl
  outer _ := rfl
  bindings _ _ := rfl
  closures name id := by simp [stored?, Store.function?]

theorem openFrame (h : Captures store captured) (outer : Option FrameId) :
    Captures (store.openFrame outer).2 (captured.openFrame outer).2 where
  size := by
    rw [Store.size_openFrame, ← h.size]
    exact Store.size_openFrame _ _
  tables := by
    rw [Store.size_openFrame, ← h.tables]
    exact Array.size_push _
  outer id := by
    rw [Store.outer?_openFrame, ← h.size, ← h.outer]
    exact Store.outer?_openFrame _ _ _
  bindings name id := by
    rw [Store.binding?_openFrame, ← h.size, ← h.bindings]
    exact Store.binding?_openFrame _ _ _ _
  closures name id := by
    rw [stored?_openFrame, Store.function?_openFrame, h.tables, h.closures]
    split_ifs <;> rfl

theorem declare (h : Captures store captured) (id : FrameId) (name : String) (binding : Binding) :
    Captures (store.declare id name binding) (captured.declare id name binding) where
  size := by
    rw [Store.size_declare, ← h.size]
    exact Store.size_declare _ _ _ _
  tables := by
    rw [Store.size_declare]
    exact h.tables
  outer other := by
    rw [Store.outer?_declare, ← h.outer]
    exact Store.outer?_declare _ _ _ _ _
  bindings asked other := by
    rw [Store.binding?_declare, ← h.size, ← h.bindings]
    exact Store.binding?_declare _ _ _ _ _ _
  closures asked other := by
    rw [Store.function?_declare]
    exact h.closures asked other

theorem assign (h : Captures store captured) (id : FrameId) (name : String) (value : Value) :
    Captures (store.assign id name value) (captured.assign id name value) := by
  have howner : captured.bindings.owner? id name = store.owner? id name :=
    Store.owner?_congr (h.chain id) fun frame _ ↦ h.bindings name frame
  unfold ClosureStore.assign Store.assign
  rw [howner]
  exact h.declare _ name (.set value)

/-- The stored frame is the one that a look-up of the function puts to it. -/
theorem declareFunction (h : Captures store captured) (id : FrameId) (function : Function) :
    Captures (store.declareFunction id function) (captured.declareFunction id function) where
  size := by
    rw [Store.size_declareFunction]
    exact h.size
  tables := by
    rw [Store.size_declareFunction, ← h.tables]
    exact Array.size_modify
  outer other := by
    rw [Store.outer?_declareFunction]
    exact h.outer other
  bindings asked other := by
    rw [Store.binding?_declareFunction]
    exact h.bindings asked other
  closures asked other := by
    rw [stored?_declareFunction, Store.function?_declareFunction, h.tables, h.closures]
    split_ifs with hdeclared
    · rw [hdeclared.1]
      rfl
    · rfl

theorem change (h : Captures store captured) (change : Store.Change) :
    Captures (change.apply store) (captured.change change) := by
  rcases change with outer | ⟨env, name, binding⟩ | ⟨env, name, value⟩ | ⟨env, function⟩
  · exact h.openFrame outer
  · exact h.declare env name binding
  · exact h.assign env name value
  · exact h.declareFunction env function

theorem ofHistory (past : List Store.Change) :
    Captures (Store.ofHistory past) (ClosureStore.ofHistory past) := by
  induction past with
  | nil => exact .empty
  | cons change past ih => exact ih.change change

theorem isRepresentation : Scopes.IsRepresentation Captures where
  empty := .empty
  openFrame outer h := ⟨h.size, h.openFrame outer⟩
  get? env name h := h.get? env name
  declare env name binding h := h.declare env name binding
  assign env name value h := h.assign env name value
  declareFunction env function h := h.declareFunction env function
  closure? env name h := h.closure? env name

end Captures

end ClosureStore

/-- Closures that are put together on look-up are the stored ones. After any changes, made to any
frames, the look-up of a function finds the same function and the same frame. And a program comes to
the same outcome and output over stored closures, and leaves the same variables. -/
theorem closures_recomputed :
    (∀ (past : List Store.Change) (env : FrameId) (name : String),
      (Store.ofHistory past).closure? env name =
        (ClosureStore.ofHistory past).closure? env name) ∧
    ∀ (fuel : Nat) (evaluator : Evaluator) (root : Node),
      let recomputed := evaluator.run fuel root
      let stored := evaluator.runIn ClosureStore fuel root
      recomputed.outcome = stored.outcome ∧
        recomputed.evaluator.sink = stored.evaluator.sink ∧
        recomputed.scopes.frames.size = stored.scopes.bindings.frames.size ∧
        ∀ env name, recomputed.scopes.outer? env = stored.scopes.bindings.outer? env ∧
          recomputed.scopes.binding? name env = stored.scopes.bindings.binding? name env ∧
          recomputed.scopes.get? env name = stored.scopes.bindings.get? env name := by
  constructor
  · intro past env name
    exact ((ClosureStore.Captures.ofHistory past).closure? env name).symm
  · intro fuel evaluator root recomputed stored
    obtain ⟨houtcome, hevaluator, hscopes⟩ :=
      ClosureStore.Captures.isRepresentation.runIn fuel evaluator root
    refine ⟨houtcome.symm, (congrArg Evaluator.sink hevaluator).symm, hscopes.size.symm,
      fun env name ↦ ⟨(hscopes.outer env).symm, (hscopes.bindings name env).symm, ?_⟩⟩
    exact (hscopes.get? env name).symm

end Treewalk
