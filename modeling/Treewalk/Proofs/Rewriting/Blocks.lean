import Treewalk.Evaluator
import Treewalk.Proofs.Scope.Chain
import Treewalk.Proofs.Simulation.Fragment

/-!
# Programs with rewritten blocks

If what a rule makes of a block always does the same as the block, then the rule is neutral and may
be applied to all blocks of a program at once, to the bodies of its functions too (`run_mapBlocks`).
The two runs hold different functions in their frames. They take the same steps all the same,
because the frames of the second hold those of the first, each with its blocks rewritten.

A rule may also be neutral but for some stops: where the block stops for such a reason, what the
rule makes of it goes on. Then the second run does as the first, unless the first is lost in this
way (`evaluate_mapBlocks_unless`).
-/

set_option autoImplicit false
set_option relaxedAutoImplicit false

namespace Treewalk

/-! ### Stores with rewritten functions -/

namespace Table

variable {α β : Type} (change : α → β)

/-- The table with every entry changed. -/
def map (table : Table α) : Table β :=
  ⟨table.entries.map fun entry ↦ (entry.1, change entry.2)⟩

theorem get?_map (table : Table α) (name : String) :
    (table.map change).get? name = (table.get? name).map change := by
  obtain ⟨entries⟩ := table
  unfold map get?
  induction entries with
  | nil => rfl
  | cons entry rest ih =>
    obtain ⟨key, value⟩ := entry
    by_cases hname : name = key
    · simp [hname]
    · simpa [List.lookup_cons, beq_eq_false_iff_ne.mpr hname] using ih

theorem map_insert (table : Table α) (name : String) (entry : α) :
    (table.insert name entry).map change = (table.map change).insert name (change entry) := by
  obtain ⟨entries⟩ := table
  unfold map insert
  congr 1
  induction entries with
  | nil => rfl
  | cons pair rest ih =>
    by_cases hname : name = pair.1
    · simp [insertEntry, hname]
    · simpa [insertEntry, hname] using ih

end Table

namespace Store

variable (change : Function → Function) (store : Store) (id : FrameId) (name : String)

/-- The store with every function changed. -/
def mapFunctions : Store :=
  ⟨store.frames.map fun frame ↦ { frame with functions := frame.functions.map change }⟩

theorem ext_frames {first second : Store}
    (h : ∀ id : FrameId, first.frames[id]? = second.frames[id]?) : first = second := by
  obtain ⟨frames⟩ := first
  obtain ⟨frames'⟩ := second
  exact congrArg mk (Array.ext_getElem? h)

theorem getElem?_mapFunctions :
    (store.mapFunctions change).frames[id]? =
      store.frames[id]?.map fun frame ↦ { frame with functions := frame.functions.map change } :=
  Array.getElem?_map

theorem size_mapFunctions : (store.mapFunctions change).frames.size = store.frames.size :=
  Array.size_map

theorem outer?_mapFunctions : (store.mapFunctions change).outer? id = store.outer? id := by
  unfold outer?
  rw [getElem?_mapFunctions]
  cases store.frames[id]? <;> rfl

theorem binding?_mapFunctions :
    (store.mapFunctions change).binding? name id = store.binding? name id := by
  unfold binding?
  rw [getElem?_mapFunctions]
  cases store.frames[id]? <;> rfl

theorem function?_mapFunctions :
    (store.mapFunctions change).function? name id = (store.function? name id).map change := by
  unfold function?
  rw [getElem?_mapFunctions]
  cases store.frames[id]? with
  | none => rfl
  | some frame => exact frame.functions.get?_map change name

theorem chain_mapFunctions : (store.mapFunctions change).chain id = store.chain id :=
  chain_congr (store.size_mapFunctions change) (store.outer?_mapFunctions change) id

theorem get?_mapFunctions : (store.mapFunctions change).get? id name = store.get? id name :=
  get?_congr (store.chain_mapFunctions change id)
    fun frame _ ↦ store.binding?_mapFunctions change frame name

/-- A look-up comes to the same function, changed, in the same frame. -/
theorem closure?_mapFunctions :
    (store.mapFunctions change).closure? id name =
      (store.closure? id name).map fun closure ↦
        { closure with function := change closure.function } := by
  unfold closure?
  rw [chain_mapFunctions, List.map_findSome?]
  refine findSome?_congr fun frame _ ↦ ?_
  rw [function?_mapFunctions, Function.comp_apply, Option.map_map, Option.map_map]
  rfl

theorem openFrame_mapFunctions (outer : Option FrameId) :
    (store.mapFunctions change).openFrame outer =
      ((store.openFrame outer).1, (store.openFrame outer).2.mapFunctions change) := by
  have hsize := store.size_mapFunctions change
  unfold openFrame mapFunctions at *
  rw [hsize, Array.map_push]
  rfl

theorem mapFunctions_declare (binding : Binding) :
    (store.declare id name binding).mapFunctions change =
      (store.mapFunctions change).declare id name binding := by
  refine ext_frames fun other ↦ ?_
  rw [getElem?_mapFunctions, getElem?_declare, getElem?_declare, getElem?_mapFunctions]
  split_ifs
  · rw [Option.map_map, Option.map_map]
    rfl
  · rfl

theorem mapFunctions_assign (value : Value) :
    (store.assign id name value).mapFunctions change =
      (store.mapFunctions change).assign id name value := by
  have howner : (store.mapFunctions change).owner? id name = store.owner? id name :=
    owner?_congr (store.chain_mapFunctions change id)
      fun frame _ ↦ store.binding?_mapFunctions change frame name
  unfold assign
  rw [howner, mapFunctions_declare]

theorem mapFunctions_declareFunction (hname : ∀ function, (change function).name = function.name)
    (function : Function) :
    (store.declareFunction id function).mapFunctions change =
      (store.mapFunctions change).declareFunction id (change function) := by
  refine ext_frames fun other ↦ ?_
  rw [getElem?_mapFunctions, getElem?_declareFunction, getElem?_declareFunction,
    getElem?_mapFunctions, hname]
  split_ifs
  · rw [Option.map_map, Option.map_map]
    refine congrArg (Option.map · _) (funext fun frame ↦ ?_)
    simp only [Function.comp_apply, Table.map_insert]
  · rfl

end Store

/-! ### Runs side by side -/

/-- The state with the blocks of all functions rewritten. -/
def State.mapBlocks (rule : List Stmt → List Stmt) (state : State Store) : State Store :=
  { state with scopes := state.scopes.mapFunctions (Function.mapBlocks rule) }

def Closure.mapBlocks (rule : List Stmt → List Stmt) (closure : Closure) : Closure :=
  { closure with function := closure.function.mapBlocks rule }

theorem resolve_mapBlocks (rule : List Stmt → List Stmt) (env : FrameId) (name : String)
    (count : Nat) (line : Line) (state : State Store) :
    EvalM.resolve env name count line (state.mapBlocks rule) =
      ((EvalM.resolve env name count line state).1.map (Closure.mapBlocks rule),
        state.mapBlocks rule) := by
  have hclosure : Scopes.closure? (state.mapBlocks rule).scopes env name =
      (Scopes.closure? state.scopes env name).map (Closure.mapBlocks rule) :=
    state.scopes.closure?_mapFunctions _ env name
  unfold EvalM.resolve
  rw [hclosure]
  cases Scopes.closure? state.scopes env name with
  | none => rfl
  | some closure =>
    by_cases harity : closure.function.parameters.length = count
    · simp [Closure.mapBlocks, Function.mapBlocks, harity, Except.map]
    · simp [Closure.mapBlocks, Function.mapBlocks, harity, Except.map]

/-- What the rule makes of a block does the same as the block. -/
def IsNeutral (T : Type) [Scopes T] (rule : List Stmt → List Stmt) : Prop :=
  ∀ (fuel : Nat) (invoke : Invoke T) (env : FrameId) (body : List Stmt),
    execBlock fuel invoke env (rule body) = execBlock fuel invoke env body

/-- The second computation, from a state, does the same as the first, except that it has a result
where the first is lost. -/
def SameUnless {S α : Type} (lost : Stop → Prop) (first second : EvalM S α) (state : State S) :
    Prop :=
  second state = first state ∨
    ∃ stop result after, lost stop ∧ first state = (.error stop, after) ∧
      second state = (.ok result, after)

/-- What the rule makes of a block does the same as the block, except where the block is lost. -/
def IsNeutralUnless (lost : Stop → Prop) (T : Type) [Scopes T] (rule : List Stmt → List Stmt) :
    Prop :=
  ∀ (fuel : Nat) (invoke : Invoke T) (env : FrameId) (body : List Stmt) (state : State T),
    SameUnless lost (execBlock fuel invoke env body) (execBlock fuel invoke env (rule body)) state

theorem IsNeutral.unless {T : Type} [Scopes T] {rule : List Stmt → List Stmt}
    (h : IsNeutral T rule) (lost : Stop → Prop) : IsNeutralUnless lost T rule :=
  fun fuel invoke env body state ↦ .inl (congrFun (h fuel invoke env body) state)

namespace Simulation

variable {rule : List Stmt → List Stmt} {lost : Stop → Prop} {α β : Type} {stage : Nat}

/-- A run of a program and one of the program rewritten, which part if the first is lost. -/
def rewriting (rule : List Stmt → List Stmt) (lost : Stop → Prop) : Simulation Store Store where
  linked _ s t := t = s.mapBlocks rule
  parted _ stop _ t := lost stop ∧ ∃ s : State Store, t = s.mapBlocks rule
  ends _ := True
  site _ env env' := env' = env
  home _ env env' := env' = env

/-- A computation that does the same among the functions rewritten, up to a change of its result. -/
theorem rewriting_matches {first : EvalM Store α} {second : EvalM Store β} (change : α → β)
    {post : Nat → α → β → Prop}
    (h : ∀ state, second (state.mapBlocks rule) =
      ((first state).1.map change, (first state).2.mapBlocks rule))
    (hpost : ∀ result, post stage result (change result)) :
    (rewriting rule lost).Matches stage post first second where
  together s t hlinked := by
    obtain rfl := hlinked
    rw [h s]
    rcases first s with ⟨stop | result, after⟩
    · exact .stopped (Nat.le_refl stage) rfl
    · exact .completed (Nat.le_refl stage) rfl (hpost result)
  alone stop _ t hparted := by
    obtain ⟨hlost, s, rfl⟩ := hparted
    rw [h s]
    rcases first s with ⟨_ | result, after⟩
    · exact .stop ⟨hlost, _, rfl⟩ trivial
    · refine ⟨stage, Nat.le_refl stage, ⟨hlost, _, rfl⟩, fun _ hok ↦ ?_, fun _ _ ↦ trivial⟩
      cases hok
      exact ⟨result, hpost result⟩

/-- A computation that does the same whether or not the functions are rewritten. -/
theorem rewriting_same {computation : EvalM Store α} {post : Nat → α → α → Prop}
    (h : ∀ state, computation (state.mapBlocks rule) =
      ((computation state).1, (computation state).2.mapBlocks rule))
    (hpost : ∀ result, post stage result result) :
    (rewriting rule lost).Matches stage post computation computation :=
  rewriting_matches id (fun state ↦ by rw [h state, Except.map_id, id]) hpost

theorem rewriting_scopes (change change' : Store → Store)
    (h : ∀ store : Store, (change store).mapFunctions (Function.mapBlocks rule) =
      change' (store.mapFunctions (Function.mapBlocks rule))) :
    (rewriting rule lost).Agrees stage
      (fun state ↦ (.ok (), { state with scopes := change state.scopes }))
      (fun state ↦ (.ok (), { state with scopes := change' state.scopes })) := by
  refine rewriting_matches id (fun state ↦ ?_) fun _ ↦ rfl
  have hscopes := congrArg (fun scopes ↦ (⟨scopes, state.depth, state.sink⟩ : State Store))
    (h state.scopes)
  exact Prod.ext rfl hscopes.symm

theorem rewriting_levels (limit : Nat) : (rewriting rule lost).Levels limit limit where
  enter hlinked hroom := by
    obtain rfl := hlinked
    exact ⟨hroom, rfl⟩
  refuse _ hlinked hfull := by
    obtain rfl := hlinked
    exact .inl ⟨rfl, hfull⟩
  leave hlinked := by
    obtain rfl := hlinked
    rfl
  leave_first hparted := hparted
  move_second depth hparted := by
    obtain ⟨hlost, s, rfl⟩ := hparted
    exact ⟨hlost, { s with depth }, rfl⟩
  ends _ := trivial

/-- Where the second computation goes on and the first is lost, the runs part. -/
theorem rewriting_unless {first second second' : EvalM Store α}
    (hsecond : ∀ state, SameUnless lost second second' state)
    (h : (rewriting rule lost).Agrees stage first second) :
    (rewriting rule lost).Agrees stage first second' where
  together s t hlinked := by
    have hjoined := h.together s t hlinked
    rcases hsecond t with hsame | ⟨stop, result, after, hlost, hstops, hresult⟩
    · rwa [hsame]
    · rw [hstops] at hjoined
      rw [hresult]
      generalize first s = left at hjoined ⊢
      cases hjoined with
      | stopped hlater hlinked =>
        exact .parted ⟨_, hlater, ⟨hlost, _, hlinked⟩, fun result _ ↦ ⟨result, rfl⟩, nofun⟩
      | parted hparted =>
        obtain ⟨later, hlater, hafter, -, -⟩ := hparted
        exact .parted ⟨later, hlater, hafter, fun result _ ↦ ⟨result, rfl⟩, nofun⟩
  alone stop s t hparted := by
    have halone := h.alone stop s t hparted
    rcases hsecond t with hsame | ⟨_, result, after, -, hstops, hresult⟩
    · rwa [hsame]
    · rw [hstops] at halone
      rw [hresult]
      obtain ⟨later, hlater, hafter, -, -⟩ := halone
      exact ⟨later, hlater, hafter, fun result _ ↦ ⟨result, rfl⟩, nofun⟩

theorem rewriting_isSoundIn (hrule : IsNeutralUnless lost Store rule) (limit : Nat) :
    (rewriting rule lost).IsSoundIn .everything rule (EvalM.deeper limit) (EvalM.deeper limit) where
  rewrites hbody := rewriting_unless (hrule _ _ _ _) hbody
  site_mono _ hsite := hsite
  home_mono _ hhome := hhome
  site_of_home hhome := hhome
  read {_ _ env name line} _ hsite := by
    obtain rfl := hsite
    refine rewriting_same (fun state ↦ Prod.ext ?_ ?_) fun _ ↦ rfl
    · exact EvalM.read_congr (state.scopes.get?_mapFunctions _ _ name) line
    · rw [EvalM.read_state, EvalM.read_state]
  resolve {_ _ env name arguments line} _ hsite := by
    obtain rfl := hsite
    refine rewriting_matches (Closure.mapBlocks rule) (fun state ↦ ?_) fun closure ↦ ?_
    · rw [resolve_mapBlocks, EvalM.resolve_state]
    · exact ⟨rfl, fun stmt _ ↦ Fragment.hasStmt_everything stmt, rfl⟩
  openFrame {_ _ env} hsite := by
    obtain rfl := hsite
    refine rewriting_same (fun state ↦ ?_) fun _ ↦ rfl
    have hopened : Scopes.openFrame (state.mapBlocks rule).scopes (some env) = _ :=
      state.scopes.openFrame_mapFunctions (Function.mapBlocks rule) (some env)
    rw [EvalM.openFrame, hopened]
    rfl
  assign name value hhome := by
    obtain rfl := hhome
    exact rewriting_scopes (·.assign _ name value) (·.assign _ name value) fun store ↦
      store.mapFunctions_assign _ _ name value
  declare name value hhome := by
    obtain rfl := hhome
    exact rewriting_scopes (·.declare _ name (.set value)) (·.declare _ name (.set value))
      fun store ↦ store.mapFunctions_declare _ _ name (.set value)
  declareUnset _ hhome := by
    obtain rfl := hhome
    exact rewriting_scopes (·.declare _ _ .unset) (·.declare _ _ .unset) fun store ↦
      store.mapFunctions_declare _ _ _ .unset
  declareFunction {_ _ _ function} _ hhome := by
    obtain rfl := hhome
    exact rewriting_scopes (·.declareFunction _ function)
      (·.declareFunction _ (function.mapBlocks rule)) fun store ↦
      store.mapFunctions_declareFunction (Function.mapBlocks rule) _ (fun _ ↦ rfl) function
  write text _ := rewriting_same (fun _ ↦ rfl) fun _ ↦ rfl
  entered _ hbody := hbody.deeper (rewriting_levels limit) _
  expr_raises _ _ := trivial
  stmt_raises _ _ := trivial
  loop _ _ := trivial

end Simulation

open Simulation

variable {rule : List Stmt → List Stmt}

/-- A node with its blocks rewritten, among functions with their blocks rewritten, does as the node
does among the functions as they are, unless that is lost. -/
theorem evaluate_mapBlocks_unless {lost : Stop → Prop} (hrule : IsNeutralUnless lost Store rule)
    (limit fuel : Nat) (env : FrameId) (node : Node) (state : State Store) :
    evaluate fuel (calls limit fuel) env (node.mapBlocks rule) (state.mapBlocks rule) =
        ((evaluate fuel (calls limit fuel) env node state).1,
          (evaluate fuel (calls limit fuel) env node state).2.mapBlocks rule) ∨
      ∃ stop, lost stop ∧ (evaluate fuel (calls limit fuel) env node state).1 = .error stop := by
  have hsound := rewriting_isSoundIn hrule limit
  have hagrees : (rewriting rule lost).Agrees 0 (evaluate fuel (calls limit fuel) env node)
      (evaluate fuel (calls limit fuel) env (node.mapBlocks rule)) :=
    hsound.agrees_evaluate (hsound.invokesIn_calls trivial (.refl fuel)) (.refl fuel)
      (Fragment.hasNode_everything node) rfl fun _ _ ↦ rfl
  have hjoined := hagrees.together state (state.mapBlocks rule) rfl
  generalize evaluate fuel (calls limit fuel) env node state = left,
    evaluate fuel (calls limit fuel) env (node.mapBlocks rule) (state.mapBlocks rule) = right
    at hjoined ⊢
  cases hjoined with
  | completed _ hlinked hresult => exact .inl (Prod.ext (congrArg Except.ok hresult.symm) hlinked)
  | stopped _ hlinked => exact .inl (Prod.ext rfl hlinked)
  | parted hparted =>
    obtain ⟨_, _, ⟨hlost, -⟩, -⟩ := hparted
    exact .inr ⟨_, hlost, rfl⟩

/-- A node with its blocks rewritten, among functions with their blocks rewritten, does as the node
does among the functions as they are. -/
theorem evaluate_mapBlocks (hrule : IsNeutral Store rule) (limit fuel : Nat) (env : FrameId)
    (node : Node) (state : State Store) :
    evaluate fuel (calls limit fuel) env (node.mapBlocks rule) (state.mapBlocks rule) =
      ((evaluate fuel (calls limit fuel) env node state).1,
        (evaluate fuel (calls limit fuel) env node state).2.mapBlocks rule) :=
  (evaluate_mapBlocks_unless (hrule.unless fun _ ↦ False) limit fuel env node state).resolve_right
    fun ⟨_, hlost, _⟩ ↦ hlost

theorem initial_mapBlocks (rule : List Stmt → List Stmt) (depth : Nat) (sink : Sink) :
    (Evaluator.initial depth sink).mapBlocks rule = Evaluator.initial depth sink := by
  have hopened := Store.openFrame_mapFunctions (Function.mapBlocks rule) {} none
  have hempty : ({} : Store).mapFunctions (Function.mapBlocks rule) = {} := by
    simp [Store.mapFunctions]
  rw [hempty] at hopened
  have hscopes := congrArg Prod.snd hopened
  exact congrArg (fun scopes ↦ (⟨scopes, depth, sink⟩ : State Store)) hscopes.symm

/-- A program may have all its blocks rewritten by a neutral rule: its runs come to the same and
write the same, with the same fuel. -/
theorem run_mapBlocks (hrule : IsNeutral Store rule) (fuel : Nat) (evaluator : Evaluator)
    (root : Node) :
    let original := evaluator.run fuel root
    let rewritten := evaluator.run fuel (root.mapBlocks rule)
    rewritten.outcome = original.outcome ∧ rewritten.evaluator = original.evaluator := by
  intro original rewritten
  have hevaluate := evaluate_mapBlocks hrule evaluator.limit fuel 0 root
    (Evaluator.initial evaluator.depth evaluator.sink)
  rw [initial_mapBlocks] at hevaluate
  simp only [original, rewritten, Evaluator.run_eq, hevaluate, root.line_mapBlocks]
  exact ⟨rfl, rfl⟩

end Treewalk
