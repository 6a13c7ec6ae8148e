import Treewalk.Proofs.Error.Provenance
import Treewalk.Proofs.Scope.Recorded

/-!
# Where unset variables come from

A variable becomes unset by a declaration without a value and by nothing else
(`Store.unset_of_change`). A run records no such declaration but those that its program has
(`permits_evaluate`). So whatever store a run goes through, its unset variables have names that the
program declares without a value somewhere (`unset_only_where_declared`). The value of a call that
has none is asked for before it could get into a variable: what is assigned, bound to a parameter or
counted is always a value.
-/

set_option autoImplicit false
set_option relaxedAutoImplicit false

namespace Treewalk

/-! ### Changes that unset a variable -/

namespace Store

variable {past : List Change} {change : Change} {frame : FrameId} {name : String}

/-- A variable becomes unset by a declaration without a value, made in its frame. -/
theorem unset_of_change
    (h : (ofHistory (change :: past)).binding? name frame = some .unset) :
    (ofHistory past).binding? name frame = some .unset ∨ change = .declare frame name .unset := by
  rw [ofHistory_cons] at h
  rcases change with outer | ⟨env, written, binding⟩ | ⟨env, written, value⟩ | ⟨env, function⟩
  · rw [Change.apply, binding?_openFrame] at h
    split_ifs at h
    exact .inl h
  · rw [Change.apply, binding?_declare] at h
    split_ifs at h with hwritten
    · obtain ⟨rfl, rfl, -⟩ := hwritten
      cases h
      exact .inr rfl
    · exact .inl h
  · rw [Change.apply, assign, binding?_declare] at h
    split_ifs at h
    · cases h
    · exact .inl h
  · rw [Change.apply, binding?_declareFunction] at h
    exact .inl h

end Store

/-! ### Changes of a program -/

namespace Node

/-- The program declares a variable of this name without a value. -/
def DeclaresUnset (program : Node) (name : String) : Prop :=
  ∃ line, .declare name none line ∈ program.stmts

/-- What changes a run of the program makes: it declares a variable without a value, or a function,
only where the program does. -/
def Permits (program : Node) : Store.Change → Prop
  | .declare _ name .unset => program.DeclaresUnset name
  | .declareFunction _ function => program.Declares function.name function
  | _ => True

end Node

variable {program : Node} {past : List Store.Change} {frame env : FrameId} {name : String}

theorem declaresUnset_of_binding? (hpast : ∀ change ∈ past, program.Permits change)
    (h : (Store.ofHistory past).binding? name frame = some .unset) :
    program.DeclaresUnset name := by
  induction past with
  | nil => simp [Store.ofHistory, Store.binding?] at h
  | cons change past ih =>
    obtain ⟨hchange, hrest⟩ := List.forall_mem_cons.mp hpast
    rcases Store.unset_of_change h with hbefore | rfl
    · exact ih hrest hbefore
    · exact hchange

theorem declaresUnset_of_get? (hpast : ∀ change ∈ past, program.Permits change)
    (h : (Store.ofHistory past).get? env name = some .unset) : program.DeclaresUnset name := by
  obtain ⟨frame, -, hframe⟩ := List.exists_of_findSome?_eq_some h
  exact declaresUnset_of_binding? hpast hframe

/-! ### Runs -/

/-- If a variable was read that is unset, the program declares one of its name without a value. -/
def Stop.IsDeclaredUnset (program : Node) (stop : Stop) : Prop :=
  ∀ name line, stop = .error ⟨.uninitializedIdentifier name, line⟩ → program.DeclaresUnset name

namespace Simulation

/-- A run alone that makes no changes but those that the program permits. -/
def permitted (program : Node) : Simulation Recorded Recorded :=
  solo (fun _ t ↦ ∀ change ∈ t.scopes.changes, program.Permits change)
    (Stop.IsDeclaredUnset program) (fun _ ↦ True) (fun _ ↦ True)

variable {stage : Nat}

/-- A computation that does nothing but make one change. -/
theorem permitted_record {α : Type} (result : Recorded → α) (change : Store.Change)
    {post : Nat → α → α → Prop} {first : EvalM Recorded α} (hchange : program.Permits change)
    (hpost : ∀ recorded, post stage (result recorded) (result recorded)) :
    (permitted program).Matches stage post first
      (fun state ↦ (.ok (result state.scopes),
        { state with scopes := state.scopes.record change })) := by
  refine solo_matches ⟨fun s t hkeeps ↦ ?_, fun _ _ _ _ hstop ↦ by cases hstop⟩
    fun s t produced hkeeps hok ↦ ⟨produced, ?_⟩
  · exact List.forall_mem_cons.mpr ⟨hchange, hkeeps⟩
  · cases hok
    exact hpost t.scopes

theorem permitted_isSoundIn (program : Node) (limit : Nat) :
    (permitted program).IsSoundIn program.fragment id (EvalM.deeper limit)
      (EvalM.deeper limit) where
  rewrites hbody := hbody
  site_mono _ hsite := hsite
  home_mono _ hhome := hhome
  site_of_home hhome := hhome
  read _ _ := by
    refine solo_agrees ⟨fun s t hkeeps ↦ by rwa [EvalM.read_state], fun s t stop hkeeps hstop ↦ ?_⟩
    rcases EvalM.read_stop hstop with ⟨hunset, rfl⟩ | ⟨-, rfl⟩
    · rintro name line ⟨⟩
      exact declaresUnset_of_get? hkeeps hunset
    · nofun
  resolve _ _ := by
    refine solo_matches ⟨fun s t hkeeps ↦ by rwa [EvalM.resolve_state],
      fun s t stop _ hstop ↦ ?_⟩ fun s t closure hkeeps hok ↦ ⟨closure, ?_⟩
    · rcases EvalM.resolve_stop hstop with ⟨-, rfl⟩ | ⟨_, -, -, rfl⟩ <;> nofun
    · obtain ⟨-, hfunction⟩ := Store.mem_chain_of_closure? (EvalM.resolve_eq_ok_iff.mp hok).1
      have hdeclares : t.scopes.store.AllFunctions (fun _ ↦ True) program.Declares :=
        Store.allFunctions_ofHistory fun _ _ hmem ↦ hkeeps _ hmem
      obtain ⟨-, hdeclaration⟩ := hdeclares _ _ _ trivial hfunction
      exact ⟨closure.function.mapBlocks_id.symm, hdeclaration.block List.mem_cons_self, trivial⟩
  openFrame {_ _ env} _ :=
    permitted_record (fun recorded ↦ (recorded.store.openFrame (some env)).1)
      (.openFrame (some env)) trivial fun _ ↦ trivial
  assign name value _ :=
    permitted_record (fun _ ↦ ()) (.assign _ name value) trivial fun _ ↦ rfl
  declare name value _ :=
    permitted_record (fun _ ↦ ()) (.declare _ name (.set value)) trivial fun _ ↦ rfl
  declareUnset {_ _ _ name line} hstmt _ :=
    permitted_record (fun _ ↦ ()) (.declare _ name .unset) ⟨line, hstmt⟩ fun _ ↦ rfl
  declareFunction {_ _ _ function} hdeclaration _ := by
    rw [Function.mapBlocks_id]
    exact permitted_record (fun _ ↦ ()) (.declareFunction _ function) ⟨rfl, hdeclaration⟩
      fun _ ↦ rfl
  write text _ := by
    refine solo_agrees ⟨fun _ _ hkeeps ↦ hkeeps, fun s t stop _ hstop ↦ ?_⟩
    rw [EvalM.write_stop hstop]
    nofun
  entered _ hbody :=
    solo_agrees ((keeps_of_solo _ hbody).deeper (fun _ _ hkeeps _ ↦ hkeeps)
      (fun _ _ _ _ hafter ↦ hafter) fun _ _ _ _ ↦ nofun)
  expr_raises _ hraises := by
    rintro name line ⟨⟩
    exact absurd hraises.isOfValues Bool.false_ne_true
  stmt_raises _ hraises := by
    rintro name line ⟨⟩
    exact absurd hraises.isOfValues Bool.false_ne_true
  loop _ _ := nofun

end Simulation

open Simulation

/-- An evaluation of the program makes no changes but those that the program permits. -/
theorem permits_evaluate (program : Node) (limit fuel : Nat) (env : FrameId) :
    Keeps (fun _ t : State Recorded ↦ ∀ change ∈ t.scopes.changes, program.Permits change)
      (Stop.IsDeclaredUnset program) (evaluate fuel (calls limit fuel) env program) := by
  have hsound := permitted_isSoundIn program limit
  have hagrees : (permitted program).Agrees 0 (evaluate fuel (calls limit fuel) env program)
      (evaluate fuel (calls limit fuel) env (program.mapBlocks id)) :=
    hsound.agrees_evaluate (hsound.invokesIn_calls nofun (.refl fuel)) (.refl fuel)
      program.hasNode_fragment trivial fun _ _ ↦ trivial
  rw [program.mapBlocks_id] at hagrees
  exact keeps_of_solo 0 hagrees

/-- A run makes no changes but those that the program permits, and if it ends at a variable that is
unset, the program declares one of that name without a value. -/
theorem permits_run (fuel : Nat) (evaluator : Evaluator) (program : Node) :
    (∀ change ∈ (evaluator.runIn Recorded fuel program).scopes.changes, program.Permits change) ∧
      ∀ stop, (evaluator.runIn Recorded fuel program).outcome = .error stop →
        stop.IsDeclaredUnset program := by
  have hkeeps := permits_evaluate program evaluator.limit fuel 0
  let start : State Recorded :=
    ⟨(Scopes.openFrame (Scopes.empty : Recorded) none).2, evaluator.depth, evaluator.sink⟩
  have hstart : ∀ change ∈ start.scopes.changes, program.Permits change :=
    List.forall_mem_cons.mpr ⟨trivial, nofun⟩
  unfold Evaluator.runIn
  rw [Evaluator.runBeside_eq]
  refine ⟨hkeeps.state start start hstart, fun stop hstop ↦ ?_⟩
  rcases Evaluator.stop_of_concluded hstop with hstop | ⟨content, -, rfl⟩
  · exact hkeeps.stop start start stop hstart hstop
  · nofun

/-- In every store that a run goes through, an unset variable has a name that the program declares
without a value. It became unset by such a declaration, made in the very frame: no parameter, no
counter of a loop and no assignment, whether it declares the variable or finds it, ever leaves a
variable unset. So if a run ends at a variable that is unset, the program declares one of that name
without a value. -/
theorem unset_only_where_declared (fuel : Nat) (evaluator : Evaluator) (program : Node) :
    let run := evaluator.run fuel program
    let recorded := evaluator.runIn Recorded fuel program
    (recorded.outcome = run.outcome ∧ recorded.evaluator = run.evaluator ∧
      recorded.scopes.store = run.scopes) ∧
    (∀ past, past <:+ recorded.scopes.changes → ∀ frame name,
      (Store.ofHistory past).binding? name frame = some .unset → program.DeclaresUnset name) ∧
    (∀ change past, change :: past <:+ recorded.scopes.changes → ∀ frame name,
      (Store.ofHistory past).binding? name frame ≠ some .unset →
      (Store.ofHistory (change :: past)).binding? name frame = some .unset →
        change = .declare frame name .unset ∧ program.DeclaresUnset name) ∧
    ∀ name line, run.outcome = .error (.error ⟨.uninitializedIdentifier name, line⟩) →
      program.DeclaresUnset name := by
  intro run recorded
  obtain ⟨hpermits, hends⟩ := permits_run fuel evaluator program
  have hsame := run_recorded fuel evaluator program
  have hstores : ∀ past, past <:+ recorded.scopes.changes → ∀ frame name,
      (Store.ofHistory past).binding? name frame = some .unset → program.DeclaresUnset name :=
    fun past hpast frame name ↦
      declaresUnset_of_binding? fun change hchange ↦ hpermits change (hpast.subset hchange)
  refine ⟨hsame, hstores, fun change past hpast frame name hbefore hafter ↦ ?_,
    fun name line hfails ↦ ?_⟩
  · exact ⟨(Store.unset_of_change hafter).resolve_left hbefore, hstores _ hpast frame name hafter⟩
  · exact hends _ (hsame.1.trans hfails) name line rfl

/-- A function whose parameter has the name of a variable that the program leaves unset. The call is
given a value for it, and only the read outside fails. -/
def shadowsUnset : Node :=
  .stmt (.block [.declare "x" none 1, .function "f" ["x"] [.print (.identifier "x" 3) .newline 3] 2,
    .call "f" [.bool true 4] 4, .print (.identifier "x" 5) .newline 5] 1)

/-- The variable outside becomes unset by its declaration, before the function with the parameter is
declared and called, and the read of it at the end fails. -/
theorem unset_only_where_declared_shadowsUnset :
    let run := Evaluator.run 2 {} shadowsUnset
    let recorded := Evaluator.runIn Recorded 2 {} shadowsUnset
    let past := [.openFrame none]
    let change := .declare 0 "x" .unset
    run.outcome = .error (.error ⟨.uninitializedIdentifier "x", 5⟩) ∧
      change :: past <:+ recorded.scopes.changes ∧
      (Store.ofHistory past).binding? "x" 0 ≠ some .unset ∧
      (Store.ofHistory (change :: past)).binding? "x" 0 = some .unset ∧
      shadowsUnset.DeclaresUnset "x" := by
  intro run recorded past change
  have hfails : run.outcome = .error (.error ⟨.uninitializedIdentifier "x", 5⟩) := by rfl
  have hpast : change :: past <:+ recorded.scopes.changes :=
    ⟨[.declare 1 "x" (.set (.boolean true)), .openFrame (some 0),
      .declareFunction 0 ⟨"f", ["x"], [.print (.identifier "x" 3) .newline 3], 2⟩], by rfl⟩
  have hbefore : (Store.ofHistory past).binding? "x" 0 ≠ some .unset := by decide
  have hafter : (Store.ofHistory (change :: past)).binding? "x" 0 = some .unset := by rfl
  obtain ⟨-, -, -, hends⟩ := unset_only_where_declared 2 {} shadowsUnset
  exact ⟨hfails, hpast, hbefore, hafter, hends "x" 5 hfails⟩

end Treewalk
