import Treewalk.Proofs.Scope.History
import Treewalk.Proofs.Simulation.Representation

/-!
# Recording the changes of a run

`Recorded` scopes are nothing but the record of the changes that were made to them, latest first,
and are looked up in the store that the record leads to. A run over them is the run over a store
(`run_recorded`). Its record shows every store that the run went through: these are the stores of
the ends of the record.
-/

set_option autoImplicit false
set_option relaxedAutoImplicit false

namespace Treewalk

/-- Scopes that keep the changes made to them, latest first. -/
structure Recorded where
  changes : List Store.Change := []

namespace Recorded

/-- The store that the changes lead to. -/
def store (recorded : Recorded) : Store :=
  .ofHistory recorded.changes

def record (recorded : Recorded) (change : Store.Change) : Recorded :=
  ⟨change :: recorded.changes⟩

instance : Scopes Recorded where
  empty := {}
  openFrame recorded outer :=
    ((recorded.store.openFrame outer).1, recorded.record (.openFrame outer))
  get? recorded := recorded.store.get?
  declare recorded env name binding := recorded.record (.declare env name binding)
  assign recorded env name value := recorded.record (.assign env name value)
  declareFunction recorded env function := recorded.record (.declareFunction env function)
  closure? recorded := recorded.store.closure?

/-- A store and a record that leads to it. -/
def LeadsTo (store : Store) (recorded : Recorded) : Prop :=
  recorded.store = store

theorem isRepresentation : Scopes.IsRepresentation LeadsTo where
  empty := rfl
  openFrame outer h := by
    obtain rfl := h
    exact ⟨rfl, rfl⟩
  get? env name h := by
    obtain rfl := h
    rfl
  declare env name binding h := by
    obtain rfl := h
    rfl
  assign env name value h := by
    obtain rfl := h
    rfl
  declareFunction env function h := by
    obtain rfl := h
    rfl
  closure? env name h := by
    obtain rfl := h
    rfl

end Recorded

/-- A run that is recorded comes to the same as the run, and its record leads to the store of the
run. -/
theorem run_recorded (fuel : Nat) (evaluator : Evaluator) (root : Node) :
    (evaluator.runIn Recorded fuel root).outcome = (evaluator.run fuel root).outcome ∧
      (evaluator.runIn Recorded fuel root).evaluator = (evaluator.run fuel root).evaluator ∧
      (evaluator.runIn Recorded fuel root).scopes.store = (evaluator.run fuel root).scopes :=
  Recorded.isRepresentation.runIn fuel evaluator root

end Treewalk
