import Treewalk.Eval.Monad

/-!
# Flow and loops

A statement comes to a `Flow`: it completes, or it returns from the function around it. The two
loops are stated over computations for their test and body. Each takes one unit of fuel a round,
and one more for the test that ends it. A `Progression` holds the numbers of a counting loop, all
of them fixed before its first round.
-/

set_option autoImplicit false
set_option relaxedAutoImplicit false

namespace Treewalk

inductive Flow where
  | normal
  /-- A return, with its value if it has one. -/
  | returned (value : Option Value)
  deriving DecidableEq

namespace EvalM

variable {S : Type}

/-- Runs the second computation unless the first returns. -/
@[inline]
def andThen (first second : EvalM S Flow) : EvalM S Flow := do
  match ← first with
  | .normal => second
  | .returned value => pure (.returned value)

def whileLoop (test : EvalM S Bool) (body : EvalM S Flow) : Nat → EvalM S Flow
  | 0 => outOfFuel
  | fuel + 1 => do
    if ← test then
      andThen body (whileLoop test body fuel)
    else
      pure .normal

end EvalM

/-- The numbers that a `for` loop counts through: from `start` by `step`, up to `stop` if that is
larger than `start` and down to it otherwise, whatever the sign of `step`. -/
structure Progression where
  start : Float
  stop : Float
  step : Float

namespace Progression

def isAscending (start stop : Float) : Bool :=
  start < stop

/-- The step of a loop that names none. -/
def defaultStep (start stop : Float) : Float :=
  if isAscending start stop then 1 else -1

/-- Whether the loop goes on with a number. -/
def includes (progression : Progression) (current : Float) : Bool :=
  if isAscending progression.start progression.stop then
    current ≤ progression.stop
  else
    current ≥ progression.stop

end Progression

namespace EvalM

variable {S : Type}

/-- The rounds of a `for` loop from `current` on: each sets the counter and then runs the body. -/
def forLoop (progression : Progression) (setCounter : Float → EvalM S Unit)
    (body : EvalM S Flow) : Nat → Float → EvalM S Flow
  | 0, _ => outOfFuel
  | fuel + 1, current => do
    if progression.includes current then
      setCounter current
      andThen body (forLoop progression setCounter body fuel (current + progression.step))
    else
      pure .normal

end EvalM

end Treewalk
