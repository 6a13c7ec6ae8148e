import Treewalk.Proofs.Scope.History
import Treewalk.Proofs.Scope.Noninterference
import Treewalk.Proofs.Simulation.Invariant

/-!
# The functions that a run meets

A run calls no function but those that the frames it meets hold, and into these it declares no
function but those of its program. So what holds of the functions there at its start, and of every
function that the program declares, holds of all functions that it calls (`Store.AllFunctions`).

`IsSteady` is the soundness of an invariant of such runs: a relation between a fixed state and the
state of the run, in which the scopes do not matter, and the stops that the nodes of the program
account for.
-/

set_option autoImplicit false
set_option relaxedAutoImplicit false

namespace Treewalk

/-! ### Functions of frames -/

namespace Store

/-- Something holds of every function in these frames and of the name that it is stored under. -/
def AllFunctions (within : FrameId → Prop) (holds : String → Function → Prop) (store : Store) :
    Prop :=
  ∀ id name function, within id → store.function? name id = some function → holds name function

variable {within : FrameId → Prop} {holds : String → Function → Prop} {store : Store}
  {id : FrameId} {name : String}

theorem AllFunctions.declare (h : store.AllFunctions within holds) (id : FrameId) (name : String)
    (binding : Binding) : (store.declare id name binding).AllFunctions within holds := by
  intro other asked function hother hfunction
  rw [function?_declare] at hfunction
  exact h other asked function hother hfunction

theorem AllFunctions.openFrame (h : store.AllFunctions within holds) (outer : Option FrameId) :
    (store.openFrame outer).2.AllFunctions within holds := by
  intro other asked function hother hfunction
  rw [function?_openFrame] at hfunction
  split_ifs at hfunction
  exact h other asked function hother hfunction

theorem AllFunctions.declareFunction (h : store.AllFunctions within holds) (id : FrameId)
    {function : Function} (hholds : holds function.name function) :
    (store.declareFunction id function).AllFunctions within holds := by
  intro other asked found hother hfound
  rw [function?_declareFunction] at hfound
  split_ifs at hfound with hdeclared
  · obtain ⟨-, rfl, -⟩ := hdeclared
    cases hfound
    exact hholds
  · exact h other asked found hother hfound

theorem allFunctions_empty (within : FrameId → Prop) (holds : String → Function → Prop) :
    ({} : Store).AllFunctions within holds := by
  intro id name function _ hfunction
  simp [function?] at hfunction

/-- What holds of every function that a history declares holds of all that the frames come to
hold. -/
theorem allFunctions_ofHistory {past : List Change}
    (hpast : ∀ env function, .declareFunction env function ∈ past → holds function.name function) :
    (ofHistory past).AllFunctions within holds := by
  induction past with
  | nil => exact allFunctions_empty _ _
  | cons change past ih =>
    have hbefore := ih fun env function hmem ↦ hpast env function (List.mem_cons_of_mem _ hmem)
    rcases change with outer | ⟨env, name, binding⟩ | ⟨env, name, value⟩ | ⟨env, function⟩
    · exact hbefore.openFrame outer
    · exact hbefore.declare env name binding
    · exact hbefore.declare _ name (.set value)
    · exact hbefore.declareFunction env (hpast env function List.mem_cons_self)

/-- Frames that the outer links do not leave and of whose functions something holds. -/
structure Declares (within : FrameId → Prop) (holds : String → Function → Prop) (store : Store) :
    Prop where
  enclosed : store.Enclosed within
  functions : store.AllFunctions within holds

theorem Declares.declare (h : store.Declares within holds) (id : FrameId) (name : String)
    (binding : Binding) : (store.declare id name binding).Declares within holds where
  enclosed := h.enclosed.congr (size_declare _ _ _ _) fun _ ↦ outer?_declare _ _ _ _ _
  functions := h.functions.declare id name binding

theorem Declares.openFrame (h : store.Declares within holds) (hid : within id) :
    (store.openFrame (some id)).2.Declares within holds where
  enclosed := h.enclosed.openFrame hid
  functions := h.functions.openFrame (some id)

theorem Declares.declareFunction (h : store.Declares within holds) (id : FrameId)
    {function : Function} (hholds : holds function.name function) :
    (store.declareFunction id function).Declares within holds where
  enclosed := h.enclosed.congr (size_declareFunction _ _ _) fun _ ↦ outer?_declareFunction _ _ _ _
  functions := h.functions.declareFunction id hholds

/-- What is found along a chain stands in one of the frames. -/
theorem Declares.closure? (h : store.Declares within holds) (hid : within id) {closure : Closure}
    (hclosure : store.closure? id name = some closure) :
    within closure.frame ∧ holds name closure.function := by
  obtain ⟨hframe, hfunction⟩ := mem_chain_of_closure? hclosure
  have hwithin := forall_mem_chain h.enclosed.outer hid closure.frame hframe
  exact ⟨hwithin, h.functions closure.frame name closure.function hwithin hfunction⟩

end Store

/-! ### Invariants among these functions -/

variable {fragment : Fragment} {limit : Nat} {within : FrameId → Prop}
  {holds : String → Function → Prop} {steady : State Store → State Store → Prop}
  {ends : Stop → Prop}

/-- A relation of states that runs of the fragment keep, and stops that its nodes account for, if
something holds of every function that is called. -/
structure IsSteady (fragment : Fragment) (limit : Nat) (holds : String → Function → Prop)
    (steady : State Store → State Store → Prop) (ends : Stop → Prop) : Prop where
  declared : ∀ {function}, fragment.HasStmt function.declaration → holds function.name function
  body : ∀ {name function}, holds name function → fragment.HasBlock function.body
  scopes : ∀ {s t} scopes, steady s t → steady s { t with scopes }
  write : ∀ {s t} line bytes, steady s t → steady s { t with sink := t.sink.write line bytes }
  opened : ∀ {s t}, steady s t →
    steady { s with depth := s.depth + 1 } { t with depth := t.depth + 1 }
  closed : ∀ {s t after}, steady s t → steady { s with depth := s.depth + 1 } after →
    steady s { after with depth := after.depth - 1 }
  undeclared : ∀ {name line}, fragment.expr (.identifier name line) →
    ends (.error ⟨.undeclaredIdentifier name, line⟩)
  uninitialized : ∀ {name line}, fragment.expr (.identifier name line) →
    ends (.error ⟨.uninitializedIdentifier name, line⟩)
  unresolved : ∀ {name arguments line}, fragment.HasCall name arguments line →
    ends (.error ⟨.undeclaredFunction name, line⟩)
  arity : ∀ {name arguments line function}, fragment.HasCall name arguments line →
    holds name function → function.parameters.length ≠ arguments.length →
    ends (.error ⟨.arityMismatch function.name function.parameters.length arguments.length, line⟩)
  refused : ∀ {name arguments line}, fragment.HasCall name arguments line →
    ends (.error ⟨.stackOverflow limit, line⟩)
  unwritten : ∀ {s t value ending line}, fragment.stmt (.print value ending line) → steady s t →
    ends (.error ⟨.output t.sink.refusal.message, line⟩)
  expr_raises : ∀ {expr error}, fragment.expr expr → expr.Raises error → ends (.error error)
  stmt_raises : ∀ {stmt error}, fragment.stmt stmt → stmt.Raises error → ends (.error error)
  loop : ∀ {stmt}, fragment.stmt stmt → stmt.isLoop → ends .outOfFuel

namespace Simulation

/-- A run alone, in frames of whose functions something holds. -/
def among (within : FrameId → Prop) (holds : String → Function → Prop)
    (steady : State Store → State Store → Prop) (ends : Stop → Prop) : Simulation Store Store :=
  solo (fun s t ↦ steady s t ∧ t.scopes.Declares within holds) ends within within

section Among

variable {stage : Nat} {env : FrameId} {first : EvalM Store Unit}

section Scopes

variable (hscopes : ∀ {s t : State Store} scopes, steady s t → steady s { t with scopes })

include hscopes

/-- What the computations that change the scopes alone keep. -/
theorem among_scopes (change : Store → Store)
    (hchange : ∀ store : Store, store.Declares within holds →
      (change store).Declares within holds) :
    (among within holds steady ends).Agrees stage first
      (fun state ↦ (.ok (), { state with scopes := change state.scopes })) :=
  solo_agrees ⟨fun _ t hkeeps ↦ ⟨hscopes _ hkeeps.1, hchange t.scopes hkeeps.2⟩,
    fun _ _ _ _ hstop ↦ by cases hstop⟩

theorem among_assign (name : String) (value : Value) :
    (among within holds steady ends).Agrees stage first (EvalM.assign env name value) :=
  among_scopes hscopes (·.assign _ name value) fun _ h ↦ h.declare _ name _

theorem among_declare (name : String) (binding : Binding) :
    (among within holds steady ends).Agrees stage first (EvalM.declare env name binding) :=
  among_scopes hscopes (·.declare _ name binding) fun _ h ↦ h.declare _ name _

theorem among_declareFunction {function : Function} (hfunction : holds function.name function) :
    (among within holds steady ends).Agrees stage first (EvalM.declareFunction env function) :=
  among_scopes hscopes (·.declareFunction _ function) fun _ h ↦ h.declareFunction _ hfunction

theorem among_openFrame (hsite : within env) {first : EvalM Store FrameId} :
    (among within holds steady ends).Matches stage (fun _ _ inner ↦ within inner) first
      (EvalM.openFrame env) := by
  refine solo_matches ⟨fun s t hkeeps ↦ ?_, fun s t stop _ hstop ↦ by cases hstop⟩
    fun s t inner hkeeps hok ↦ ⟨inner, ?_⟩
  · exact ⟨hscopes _ hkeeps.1, hkeeps.2.openFrame hsite⟩
  · cases hok
    exact hkeeps.2.enclosed.unopened _ (Nat.le_refl _)

end Scopes

theorem among_read {name : String} {line : Line} {first : EvalM Store Value}
    (hundeclared : ends (.error ⟨.undeclaredIdentifier name, line⟩))
    (huninitialized : ends (.error ⟨.uninitializedIdentifier name, line⟩)) :
    (among within holds steady ends).Agrees stage first (EvalM.read env name line) := by
  refine solo_agrees ⟨fun s t hkeeps ↦ by rwa [EvalM.read_state], fun s t stop _ hstop ↦ ?_⟩
  rcases EvalM.read_stop hstop with ⟨-, rfl⟩ | ⟨-, rfl⟩
  · exact huninitialized
  · exact hundeclared

/-- A call is resolved to a function of which something holds under the name that is called. -/
theorem among_resolve (hsite : within env) {name : String} {count : Nat} {line : Line}
    {first : EvalM Store Closure} (hunresolved : ends (.error ⟨.undeclaredFunction name, line⟩))
    (harity : ∀ function : Function, holds name function → function.parameters.length ≠ count →
      ends (.error ⟨.arityMismatch function.name function.parameters.length count, line⟩)) :
    (among within holds steady ends).Matches stage
      (fun _ closure closure' ↦ closure' = closure ∧ within closure.frame ∧
        holds name closure.function)
      first (EvalM.resolve env name count line) := by
  refine solo_matches ⟨fun s t hkeeps ↦ by rwa [EvalM.resolve_state],
    fun s t stop hkeeps hstop ↦ ?_⟩ fun s t closure hkeeps hok ↦ ⟨closure, rfl, ?_⟩
  · rcases EvalM.resolve_stop hstop with ⟨-, rfl⟩ | ⟨closure, hclosure, hcount, rfl⟩
    · exact hunresolved
    · exact harity closure.function (hkeeps.2.closure? hsite hclosure).2 hcount
  · exact hkeeps.2.closure? hsite (EvalM.resolve_eq_ok_iff.mp hok).1

theorem among_write {line : Line} {text : String}
    (hwrite : ∀ {s t : State Store} bytes, steady s t →
      steady s { t with sink := t.sink.write line bytes })
    (hunwritten : ∀ {s t : State Store}, steady s t →
      ends (.error ⟨.output t.sink.refusal.message, line⟩)) :
    (among within holds steady ends).Agrees stage first (EvalM.write line text) := by
  refine solo_agrees ⟨fun s t hkeeps ↦ ⟨hwrite _ hkeeps.1, hkeeps.2⟩,
    fun s t stop hkeeps hstop ↦ ?_⟩
  rw [EvalM.write_stop hstop]
  exact hunwritten hkeeps.1

end Among

end Simulation

open Simulation

namespace IsSteady

theorem isSoundIn (hsteady : IsSteady fragment limit holds steady ends) :
    (among within holds steady ends).IsSoundIn fragment id (EvalM.deeper limit)
      (EvalM.deeper limit) where
  rewrites hbody := hbody
  site_mono _ hsite := hsite
  home_mono _ hhome := hhome
  site_of_home hhome := hhome
  read hidentifier _ :=
    among_read (hsteady.undeclared hidentifier) (hsteady.uninitialized hidentifier)
  resolve hcall hsite := by
    refine (among_resolve hsite (hsteady.unresolved hcall)
      fun _ hholds ↦ hsteady.arity hcall hholds).mono ?_
    rintro later _ closure ⟨rfl, hframe, hholds⟩
    exact ⟨closure.function.mapBlocks_id.symm, hsteady.body hholds, hframe⟩
  openFrame hsite := among_openFrame hsteady.scopes hsite
  assign name value _ := among_assign hsteady.scopes name value
  declare name value _ := among_declare hsteady.scopes name (.set value)
  declareUnset _ _ := among_declare hsteady.scopes _ .unset
  declareFunction hdeclaration _ := by
    rw [Function.mapBlocks_id]
    exact among_declareFunction hsteady.scopes (hsteady.declared hdeclaration)
  write text hprint := among_write (hsteady.write _) (hsteady.unwritten hprint)
  entered hcall hbody := by
    refine solo_agrees (Keeps.deeper (fun s t hkeeps _ ↦ ?_) (fun s t after hkeeps hafter ↦ ?_)
      (fun _ _ _ _ ↦ hsteady.refused hcall) (keeps_of_solo _ hbody))
    · exact ⟨hsteady.opened hkeeps.1, hkeeps.2⟩
    · exact ⟨hsteady.closed hkeeps.1 hafter.1, hafter.2⟩
  expr_raises := hsteady.expr_raises
  stmt_raises := hsteady.stmt_raises
  loop := hsteady.loop

/-- An evaluation of a node of the fragment, whose calls keep the invariant, keeps it. -/
theorem evaluate (hsteady : IsSteady fragment limit holds steady ends) {invoke : Invoke Store}
    (hinvoke : (among within holds steady ends).InvokesIn fragment id invoke invoke) (fuel : Nat)
    {env : FrameId} (henv : within env) {node : Node} (hnode : fragment.HasNode node) :
    Keeps (fun s t ↦ steady s t ∧ t.scopes.Declares within holds) ends
      (Treewalk.evaluate fuel invoke env node) := by
  have hagrees : (among within holds steady ends).Agrees 0 (Treewalk.evaluate fuel invoke env node)
      (Treewalk.evaluate fuel invoke env (node.mapBlocks id)) :=
    hsteady.isSoundIn.agrees_evaluate hinvoke (.refl fuel) hnode henv fun _ _ ↦ henv
  rw [node.mapBlocks_id] at hagrees
  exact keeps_of_solo 0 hagrees

end IsSteady

end Treewalk
