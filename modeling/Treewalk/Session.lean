import Treewalk.Evaluator

/-!
# Sessions

A session is one evaluator together with all frames that were opened while it was in use. Its steps
are evaluations in one of the frames, runs of programs, each in an outermost frame of its own, and
what the holder of the frames does to them directly. A step that fails does not end the session.
-/

set_option autoImplicit false
set_option relaxedAutoImplicit false

namespace Treewalk

namespace Store

/-- What the holder of frames can do to them. -/
inductive Change where
  | openFrame (outer : Option FrameId)
  | declare (env : FrameId) (name : String) (binding : Binding)
  | assign (env : FrameId) (name : String) (value : Value)
  | declareFunction (env : FrameId) (function : Function)

def Change.apply (store : Store) : Change → Store
  | openFrame outer => (store.openFrame outer).2
  | declare env name binding => store.declare env name binding
  | assign env name value => store.assign env name value
  | declareFunction env function => store.declareFunction env function

end Store

structure Session where
  evaluator : Evaluator := {}
  store : Store := {}

inductive Step where
  | change (change : Store.Change)
  | eval (env : FrameId) (node : Node)
  | run (root : Node)

namespace Session

/-- What a step comes to, with the value that it yields if it yields one, and the session then. -/
def step (fuel : Nat) (session : Session) : Step → Except Stop (Option Value) × Session
  | .change change => (.ok none, { session with store := change.apply session.store })
  | .eval env node =>
    let result := session.evaluator.eval fuel session.store env node
    (result.outcome, ⟨result.evaluator, result.scopes⟩)
  | .run root =>
    let result := session.evaluator.runBeside fuel session.store root
    (result.outcome.map fun _ ↦ none, ⟨result.evaluator, result.scopes⟩)

/-- The session after some steps, each with the fuel that it was given. -/
def after (session : Session) (history : List (Nat × Step)) : Session :=
  history.foldl (fun session past ↦ (session.step past.1 past.2).2) session

end Session

end Treewalk
