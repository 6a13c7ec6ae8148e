import Treewalk.Syntax.Basic
import Treewalk.Value

/-!
# Nested scopes

Names live in frames, and every frame but the outermost ones has an outer frame. `Scopes` is what
an evaluation asks of a type of frame stores. Variables and functions are looked up along the
chain from a frame outward; declarations go into the frame itself; an assignment goes to the
nearest binding on the chain, and into the frame itself where there is none.
-/

set_option autoImplicit false
set_option relaxedAutoImplicit false

namespace Treewalk

abbrev FrameId := Nat

/-- What a declared variable holds. -/
inductive Binding where
  | unset
  | set (value : Value)
  deriving DecidableEq

/-- A declared function and the frame it was declared in, which its calls open their frames
under. -/
structure Closure where
  function : Function
  frame : FrameId

/-- What an evaluation asks of a type of stores of nested frames. -/
class Scopes (S : Type) where
  /-- A store without frames. -/
  empty : S
  /-- Opens a frame under an outer one, or an outermost one. -/
  openFrame : S → Option FrameId → FrameId × S
  /-- The nearest binding of a variable. -/
  get? : S → FrameId → String → Option Binding
  /-- Binds a variable in the frame itself. -/
  declare : S → FrameId → String → Binding → S
  /-- Gives a value to the nearest binding of a variable, or declares it in the frame itself. -/
  assign : S → FrameId → String → Value → S
  /-- Declares a function in the frame itself under its own name. -/
  declareFunction : S → FrameId → Function → S
  /-- The nearest function of a name. -/
  closure? : S → FrameId → String → Option Closure

end Treewalk
