import Treewalk.Scope.Basic
import Treewalk.Scope.Table

/-!
# The store of frames

Frames are numbered in the order in which they were opened and never removed. A frame holds its
variables, its functions and the number of its outer frame. `Store.chain` is the way from a frame
outward; every look-up goes to the nearest frame on it that has the name. A function is stored
without the frame it closes over, since that is the frame that holds it.
-/

set_option autoImplicit false
set_option relaxedAutoImplicit false

namespace Treewalk

structure Frame where
  bindings : Table Binding := {}
  functions : Table Function := {}
  outer : Option FrameId := none

structure Store where
  frames : Array Frame := #[]

namespace Store

/-- At most `steps` frames of the way outward from a frame. -/
def chainWithin (store : Store) : Nat → FrameId → List FrameId
  | 0, _ => []
  | steps + 1, id =>
    match store.frames[id]? with
    | none => []
    | some frame => id :: frame.outer.elim [] (store.chainWithin steps)

/-- A frame and its outer frames, nearest first. Outer frames were opened earlier and have smaller
numbers, so there are never more of them than the bound allows. -/
def chain (store : Store) (id : FrameId) : List FrameId :=
  store.chainWithin (id + 1) id

/-- The binding of a name in a frame itself. -/
def binding? (store : Store) (name : String) (id : FrameId) : Option Binding :=
  store.frames[id]?.bind (·.bindings.get? name)

/-- The function of a name in a frame itself. -/
def function? (store : Store) (name : String) (id : FrameId) : Option Function :=
  store.frames[id]?.bind (·.functions.get? name)

def openFrame (store : Store) (outer : Option FrameId) : FrameId × Store :=
  (store.frames.size, ⟨store.frames.push { outer }⟩)

def get? (store : Store) (id : FrameId) (name : String) : Option Binding :=
  (store.chain id).findSome? (store.binding? name)

/-- The nearest frame that binds a variable. -/
def owner? (store : Store) (id : FrameId) (name : String) : Option FrameId :=
  (store.chain id).find? fun outer ↦ (store.binding? name outer).isSome

def declare (store : Store) (id : FrameId) (name : String) (binding : Binding) : Store :=
  ⟨store.frames.modify id fun frame ↦
    { frame with bindings := frame.bindings.insert name binding }⟩

def assign (store : Store) (id : FrameId) (name : String) (value : Value) : Store :=
  store.declare ((store.owner? id name).getD id) name (.set value)

def declareFunction (store : Store) (id : FrameId) (function : Function) : Store :=
  ⟨store.frames.modify id fun frame ↦
    { frame with functions := frame.functions.insert function.name function }⟩

def closure? (store : Store) (id : FrameId) (name : String) : Option Closure :=
  (store.chain id).findSome? fun outer ↦
    (store.function? name outer).map fun function ↦ ⟨function, outer⟩

instance : Scopes Store where
  empty := {}
  openFrame := openFrame
  get? := get?
  declare := declare
  assign := assign
  declareFunction := declareFunction
  closure? := closure?

end Store

end Treewalk
