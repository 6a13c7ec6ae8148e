import Treewalk.Proofs.Scope.Recorded
import Treewalk.Proofs.Simulation.Declared

/-!
# Scope chains in reachable stores

Whatever is done to the frames directly and whatever is evaluated in them, to whatever end, every
step adds changes to one history (`Proceeds.follows`). So what a history alone implies holds of
every store that is passed on the way (`InOrder`): a frame keeps the link that it was opened under,
this leads to a frame that was open by then, and functions stand under their own names.

Hence a search outward ends without a bound on its steps (`searches_iff`), and what is looked up
along a chain is what the search comes to.
-/

set_option autoImplicit false
set_option relaxedAutoImplicit false

namespace Treewalk

namespace Store

/-! ### Links along a history -/

section Links

variable {store : Store} {past later : List Change} {id : FrameId}

theorem size_apply (change : Change) (store : Store) :
    store.frames.size ≤ (change.apply store).frames.size := by
  rcases change with outer | ⟨env, name, binding⟩ | ⟨env, name, value⟩ | ⟨env, function⟩
  · rw [Change.apply, size_openFrame]
    exact Nat.le_succ _
  · rw [Change.apply, size_declare]
  · rw [Change.apply, size_assign]
  · rw [Change.apply, size_declareFunction]

/-- A change leaves the links of the frames that are open. -/
theorem outer?_apply (change : Change) (hid : id < store.frames.size) :
    (change.apply store).outer? id = store.outer? id := by
  rcases change with outer | ⟨env, name, binding⟩ | ⟨env, name, value⟩ | ⟨env, function⟩
  · rw [Change.apply, outer?_openFrame, if_neg (Nat.ne_of_lt hid)]
  · exact outer?_declare _ _ _ _ _
  · exact outer?_assign _ _ _ _ _
  · exact outer?_declareFunction _ _ _ _

theorem size_ofHistory (hpast : past <:+ later) :
    (ofHistory past).frames.size ≤ (ofHistory later).frames.size := by
  obtain ⟨changes, rfl⟩ := hpast
  induction changes with
  | nil => exact Nat.le_refl _
  | cons change changes ih => exact Nat.le_trans ih (size_apply change _)

/-- No link changes once its frame is open. -/
theorem outer?_ofHistory (hpast : past <:+ later) (hid : id < (ofHistory past).frames.size) :
    (ofHistory later).outer? id = (ofHistory past).outer? id := by
  obtain ⟨changes, rfl⟩ := hpast
  induction changes with
  | nil => rfl
  | cons change changes ih =>
    have hopen : id < (ofHistory (changes ++ past)).frames.size :=
      Nat.lt_of_lt_of_le hid (size_ofHistory (List.suffix_append _ _))
    exact (outer?_apply change hopen).trans ih

/-- The number of a frame says how many were open when it was opened. -/
theorem exists_opening (hid : id < (ofHistory past).frames.size) :
    ∃ earlier, .openFrame ((ofHistory past).outer? id) :: earlier <:+ past ∧
      (ofHistory earlier).frames.size = id := by
  induction past with
  | nil => cases hid
  | cons change past ih =>
    by_cases hbefore : id < (ofHistory past).frames.size
    · obtain ⟨earlier, hopening, hsize⟩ := ih hbefore
      rw [ofHistory_cons, outer?_apply change hbefore]
      exact ⟨earlier, hopening.trans (List.suffix_cons _ _), hsize⟩
    · rcases change with outer | ⟨env, name, binding⟩ | ⟨env, name, value⟩ | ⟨env, function⟩
      · rw [ofHistory_cons, Change.apply, size_openFrame] at hid
        obtain rfl : id = (ofHistory past).frames.size :=
          Nat.le_antisymm (Nat.le_of_lt_succ hid) (Nat.le_of_not_lt hbefore)
        have hlink : (ofHistory (.openFrame outer :: past)).outer? (ofHistory past).frames.size =
            outer := (outer?_openFrame _ _ _).trans (if_pos rfl)
        exact ⟨past, by simp only [hlink, List.suffix_refl], rfl⟩
      -- No other change opens a frame.
      all_goals exact absurd (by simpa [ofHistory_cons, Change.apply] using hid) hbefore

end Links

/-- What a history makes of its frames: they are numbered as they were opened, each under the link
that it still has, links lead to older frames, and functions stand under their own names. -/
structure InOrder (past : List Change) : Prop where
  opening : ∀ id < (ofHistory past).frames.size, ∃ earlier,
    .openFrame ((ofHistory past).outer? id) :: earlier <:+ past ∧
      (ofHistory earlier).frames.size = id
  outward : ∀ id outer, (ofHistory past).outer? id = some outer → outer < id
  named : ∀ id name function, (ofHistory past).function? name id = some function →
    function.name = name

theorem inOrder_of_isHistory {past : List Change} (hpast : isHistory past) : InOrder past where
  opening _ hid := exists_opening hid
  outward := (mirrors_ofHistory hpast).wellFormed
  named id name function hfunction := by
    have hnamed : (ofHistory past).AllFunctions (fun _ ↦ True) fun name function ↦
        function.name = name := allFunctions_ofHistory fun _ _ _ ↦ rfl
    exact hnamed id name function trivial hfunction

/-! ### Searches outward -/

section Searches

variable {store : Store} {α : Type} {look : FrameId → Option α} {id : FrameId}

/-- A search from a frame outward, with no bound on its steps. It comes to what it finds in a
frame, or to nothing once it is beyond the last. -/
inductive Searches (store : Store) (look : FrameId → Option α) :
    Option FrameId → Option α → Prop
  | beyond : Searches store look none none
  | found {id : FrameId} {a : α} (hlook : look id = some a) :
      Searches store look (some id) (some a)
  | outward {id : FrameId} {result : Option α} (hlook : look id = none)
      (hrest : Searches store look (store.outer? id) result) : Searches store look (some id) result

/-- A search from an open frame ends, and finds what is nearest on the chain. -/
theorem searches_iff (hstore : store.WellFormed) (hid : id < store.frames.size)
    {result : Option α} :
    store.Searches look (some id) result ↔ result = (store.chain id).findSome? look := by
  induction id using Nat.strongRecOn with
  | ind id ih =>
    rw [chain_eq hstore, if_pos hid, List.findSome?_cons]
    rcases hlook : look id with _ | a
    · -- What is left is the search from the outer link, if there is one.
      have hrest : store.Searches look (some id) result ↔
          store.Searches look (store.outer? id) result := by
        refine ⟨fun h ↦ ?_, .outward hlook⟩
        cases h with
        | found hfound => cases hlook.symm.trans hfound
        | outward _ hrest => exact hrest
      rw [hrest]
      rcases houter : store.outer? id with _ | outer
      · refine ⟨fun h ↦ ?_, ?_⟩
        · cases h
          rfl
        · rintro rfl
          exact .beyond
      · have hlt := hstore id outer houter
        exact ih outer hlt (Nat.lt_trans hlt hid)
    · refine ⟨fun h ↦ ?_, ?_⟩
      · cases h with
        | found hfound => exact hfound.symm.trans hlook
        | outward hnone _ => cases hnone.symm.trans hlook
      · rintro rfl
        exact .found hlook

variable (store)

/-- The frame itself or one of those that its outer links lead to. -/
def Reaches : FrameId → FrameId → Prop :=
  Relation.ReflTransGen fun id outer ↦ store.outer? id = some outer

variable {store}

theorem reaches_of_mem_chain {frame : FrameId} (hframe : frame ∈ store.chain id) :
    store.Reaches id frame :=
  forall_mem_chain (fun _ _ hreaches houter ↦ hreaches.tail houter) .refl frame hframe

/-- The three searches for a name, each without a bound on its steps, come to what the store
finds. A function is found in the frame or in one outward of it, under its own name. -/
structure LooksUp (store : Store) (env : FrameId) (name : String) : Prop where
  get : ∀ result, store.Searches (store.binding? name) (some env) result ↔
    result = store.get? env name
  assign : ∃ found,
    (∀ result, store.Searches (Option.guard fun id ↦ (store.binding? name id).isSome) (some env)
      result ↔ result = found) ∧
    ∀ value, store.assign env name value = store.declare (found.getD env) name (.set value)
  getFunction : ∀ result,
    store.Searches (fun id ↦ (store.function? name id).map fun function ↦ ⟨function, id⟩) (some env)
      result ↔ result = store.closure? env name
  found : ∀ closure, store.closure? env name = some closure →
    store.Reaches env closure.frame ∧
      store.function? name closure.frame = some closure.function ∧ closure.function.name = name

theorem InOrder.looksUp {past : List Change} (h : InOrder past) {env : FrameId}
    (henv : env < (ofHistory past).frames.size) (name : String) :
    (ofHistory past).LooksUp env name where
  get _ := searches_iff h.outward henv
  assign := by
    refine ⟨(ofHistory past).owner? env name, fun result ↦ ?_, fun value ↦ rfl⟩
    rw [searches_iff h.outward henv, owner?, List.find?_eq_findSome?_guard]
  getFunction _ := searches_iff h.outward henv
  found closure hclosure := by
    obtain ⟨hframe, hfunction⟩ := mem_chain_of_closure? hclosure
    exact ⟨reaches_of_mem_chain hframe, hfunction, h.named _ _ _ hfunction⟩

end Searches

/-! ### Records that go on -/

/-- A record goes on from some changes, as a history. -/
structure Follows (base : List Change) (recorded : Recorded) : Prop where
  history : isHistory recorded.changes
  later : base <:+ recorded.changes

theorem Follows.record {base : List Change} {recorded : Recorded} (h : Follows base recorded)
    {change : Change} (hchange : change.refersWithin (opened recorded.changes)) :
    Follows base (recorded.record change) where
  history := Bool.and_eq_true_iff.mpr ⟨hchange, h.history⟩
  later := h.later.trans (List.suffix_cons _ _)

theorem Follows.size {base : List Change} {recorded : Recorded} (h : Follows base recorded) :
    recorded.store.frames.size = opened recorded.changes :=
  (mirrors_ofHistory h.history).size

end Store

/-! ### Evaluations -/

namespace Simulation

open Store

/-- A run alone in frames that are open, whose record goes on from some changes. -/
def following (base : List Change) : Simulation Recorded Recorded where
  linked _ _ _ := False
  parted stage _ _ t := stage ≤ Store.opened t.scopes.changes ∧ Follows base t.scopes
  ends _ := True
  site stage _ env := env < stage
  home stage _ env := env < stage

variable {base : List Change} {stage : Nat} {α : Type}

theorem following_levels (limit : Nat) : (following base).Levels limit limit where
  enter hlinked := hlinked.elim
  refuse _ hlinked := hlinked.elim
  leave hlinked := hlinked.elim
  leave_first hparted := hparted
  move_second _ hparted := hparted
  ends _ := trivial

/-- A computation that changes nothing in the scopes. -/
theorem following_reads {post : Nat → α → α → Prop} {first second : EvalM Recorded α}
    (hscopes : ∀ t, (second t).2.scopes = t.scopes)
    (hpost : ∀ t result, Follows base t.scopes → (second t).1 = .ok result →
      post (Store.opened t.scopes.changes) result result) :
    (following base).Matches stage post first second where
  together _ _ hlinked := hlinked.elim
  alone _ _ t hparted := by
    obtain ⟨hstage, hfollows⟩ := hparted
    refine ⟨Store.opened t.scopes.changes, hstage, ⟨?_, ?_⟩,
      fun result hok ↦ ⟨result, hpost t result hfollows hok⟩, fun _ _ ↦ trivial⟩
    · rw [hscopes]
    · rwa [hscopes]

/-- A computation that does nothing but make one change, in frames that are open. -/
theorem following_record (result : Recorded → α) (change : Change) {post : Nat → α → α → Prop}
    {first : EvalM Recorded α} (hchange : change.refersWithin stage)
    (hpost : ∀ recorded, Follows base recorded →
      post (Store.opened (change :: recorded.changes)) (result recorded) (result recorded)) :
    (following base).Matches stage post first
      (fun state ↦ (.ok (result state.scopes),
        { state with scopes := state.scopes.record change })) where
  together _ _ hlinked := hlinked.elim
  alone _ _ t hparted := by
    obtain ⟨hstage, hfollows⟩ := hparted
    refine ⟨Store.opened (change :: t.scopes.changes),
      Nat.le_trans hstage (opened_le_opened_cons change _),
      ⟨Nat.le_refl _, hfollows.record (Change.refersWithin_mono hstage hchange)⟩,
      fun produced hok ↦ ⟨produced, ?_⟩, fun _ _ ↦ trivial⟩
    cases hok
    exact hpost t.scopes hfollows

theorem following_isSound (base : List Change) (limit : Nat) :
    (following base).IsSound (EvalM.deeper limit) (EvalM.deeper limit) where
  site_mono hlater hsite := Nat.lt_of_lt_of_le hsite hlater
  home_mono hlater hhome := Nat.lt_of_lt_of_le hhome hlater
  site_of_home hhome := hhome
  read name line _ :=
    following_reads (fun t ↦ by rw [EvalM.read_state]) fun _ _ _ _ ↦ rfl
  resolve name count line _ := by
    refine following_reads (fun t ↦ by rw [EvalM.resolve_state]) fun t closure hfollows hok ↦ ?_
    have hclosure := lt_size_of_closure? (EvalM.resolve_eq_ok_iff.mp hok).1
    exact ⟨rfl, hfollows.size ▸ hclosure⟩
  openFrame {_ _ env} hsite := by
    refine following_record (fun recorded ↦ (recorded.store.openFrame (some env)).1)
      (.openFrame (some env)) (decide_eq_true hsite) fun recorded hfollows ↦ ?_
    exact Nat.lt_succ_of_le (Nat.le_of_eq hfollows.size)
  assign name value hhome :=
    following_record (fun _ ↦ ()) (.assign _ name value) (decide_eq_true hhome) fun _ _ ↦ rfl
  declare name binding hhome :=
    following_record (fun _ ↦ ()) (.declare _ name binding) (decide_eq_true hhome) fun _ _ ↦ rfl
  declareFunction function hhome :=
    following_record (fun _ ↦ ()) (.declareFunction _ function) (decide_eq_true hhome) fun _ _ ↦ rfl
  write _ line text := following_reads (fun _ ↦ rfl) fun _ _ _ _ ↦ rfl
  entered line hbody := hbody.deeper (following_levels limit) line
  fault _ _ _ := trivial
  outOfFuel := trivial

end Simulation

open Simulation

/-- Whatever it comes to, an evaluation in an open frame goes on with the history. -/
theorem follows_evaluate (limit fuel : Nat) {env : FrameId} (node : Node) (state : State Recorded)
    (hhistory : Store.isHistory state.scopes.changes)
    (henv : env < Store.opened state.scopes.changes) :
    Store.Follows state.scopes.changes
      (evaluate fuel (calls limit fuel) env node state).2.scopes := by
  have hsound := following_isSound state.scopes.changes limit
  have hagrees : (following state.scopes.changes).Agrees (Store.opened state.scopes.changes)
      (evaluate fuel (calls limit fuel) env node) (evaluate fuel (calls limit fuel) env node) :=
    hsound.agrees_evaluate (hsound.invokes_calls (.refl fuel)) (.refl fuel) node henv
      fun _ _ ↦ henv
  obtain ⟨_, _, ⟨-, hafter⟩, -⟩ := hagrees.alone .outOfFuel state state
    ⟨Nat.le_refl _, hhistory, List.suffix_refl _⟩
  exact hafter

/-! ### Steps -/

/-- A store together with a record of all changes that led to it. -/
structure Observed where
  store : Store := {}
  record : Recorded := {}

/-- Whether a step is made in open frames only, when so many are open. -/
def Step.refersWithin (count : Nat) : Step → Bool
  | change made => made.refersWithin count
  | eval env _ => env < count
  | run _ => true

/-- A step over a record. -/
def Recorded.step (evaluator : Evaluator) (fuel : Nat) (recorded : Recorded) : Step → Recorded
  | .change change => recorded.record change
  | .eval env node => (evaluator.eval fuel recorded env node).scopes
  | .run root => (evaluator.runBeside fuel recorded root).scopes

/-- One step, by any evaluator, with any fuel and to any outcome, in frames that are open. -/
inductive Proceeds : Observed → Observed → Prop
  | step {before : Observed} (evaluator : Evaluator) (fuel : Nat) (step : Step)
      (hstep : step.refersWithin before.store.frames.size) :
      Proceeds before ⟨(Session.step fuel ⟨evaluator, before.store⟩ step).2.store,
        before.record.step evaluator fuel step⟩

/-- What is observed can be reached from nothing. -/
def Observed.IsReachable (observed : Observed) : Prop :=
  Relation.ReflTransGen Proceeds {} observed

/-- The record is a history, and it is that of the store. -/
structure Observed.IsFaithful (observed : Observed) : Prop where
  history : Store.isHistory observed.record.changes
  leads : observed.record.store = observed.store

variable {before after : Observed}

theorem Observed.IsFaithful.size (h : before.IsFaithful) :
    before.store.frames.size = Store.opened before.record.changes := by
  rw [← h.leads]
  exact (Store.mirrors_ofHistory h.history).size

/-- A change in open frames, observed. -/
theorem Observed.IsFaithful.change (h : before.IsFaithful) (change : Store.Change)
    (hchange : change.refersWithin before.store.frames.size) :
    IsFaithful ⟨change.apply before.store, before.record.record change⟩ ∧
      before.record.changes <:+ change :: before.record.changes := by
  have hfollows := Store.Follows.record ⟨h.history, List.suffix_refl _⟩ (h.size ▸ hchange)
  exact ⟨⟨hfollows.history, congrArg change.apply h.leads⟩, hfollows.later⟩

/-- An evaluation in an open frame, observed. -/
theorem Observed.IsFaithful.evaluate (h : before.IsFaithful) (limit fuel depth : Nat) (sink : Sink)
    {env : FrameId} (henv : env < before.store.frames.size) (node : Node) :
    let recorded := (Treewalk.evaluate fuel (calls limit fuel) env node
      ⟨before.record, depth, sink⟩).2.scopes
    IsFaithful ⟨(Treewalk.evaluate fuel (calls limit fuel) env node
      ⟨before.store, depth, sink⟩).2.scopes, recorded⟩ ∧
      before.record.changes <:+ recorded.changes := by
  intro recorded
  have hfollows := follows_evaluate limit fuel node ⟨before.record, depth, sink⟩ h.history
    (h.size ▸ henv)
  obtain ⟨-, hafter⟩ := Recorded.isRepresentation.evaluate limit fuel env node
    (s := ⟨before.store, depth, sink⟩) (t := ⟨before.record, depth, sink⟩) ⟨rfl, rfl, h.leads⟩
  exact ⟨⟨hfollows.history, hafter.scopes⟩, hfollows.later⟩

/-- A step goes on with the history, and the record leads to the store again. -/
theorem Proceeds.follows (h : Proceeds before after) (hbefore : before.IsFaithful) :
    after.IsFaithful ∧ before.record.changes <:+ after.record.changes := by
  obtain ⟨evaluator, fuel, step, hstep⟩ := h
  cases step with
  | change change => exact hbefore.change change hstep
  | eval env node =>
    rw [Recorded.step, Session.step, Evaluator.eval_eq, Evaluator.eval_eq]
    exact hbefore.evaluate _ _ _ _ (of_decide_eq_true hstep) node
  | run root =>
    -- A run is an evaluation in the outermost frame that it opens first.
    obtain ⟨hopened, hlater⟩ := hbefore.change (.openFrame none) rfl
    have hroot : (Scopes.openFrame before.record none).1 = before.store.frames.size :=
      congrArg (·.frames.size) hbefore.leads
    obtain ⟨hafter, hrest⟩ := hopened.evaluate evaluator.limit fuel evaluator.depth evaluator.sink
      (Nat.lt_of_lt_of_eq (Nat.lt_succ_self _) (Store.size_openFrame _ _).symm) root
    rw [Recorded.step, Session.step, Evaluator.runBeside_eq, Evaluator.runBeside_eq, hroot]
    exact ⟨hafter, hlater.trans hrest⟩

theorem follows_of_proceeds (h : Relation.ReflTransGen Proceeds before after)
    (hbefore : before.IsFaithful) :
    after.IsFaithful ∧ before.record.changes <:+ after.record.changes := by
  induction h with
  | refl => exact ⟨hbefore, List.suffix_refl _⟩
  | tail _ hstep ih =>
    obtain ⟨hmiddle, hfirst⟩ := ih
    obtain ⟨hafter, hlast⟩ := hstep.follows hmiddle
    exact ⟨hafter, hfirst.trans hlast⟩

/-- In every store that is passed by steps of any kind and outcome, those within evaluations
included, outer links lead to frames that were opened earlier and functions stand under their own
names; and from one such store to a later one, no link of a frame changes. So from every frame of
each of them the searches for a variable, for where to assign it and for a function end, and a
function that is found stands in the frame or in one outward of it, under the name that was asked
for. -/
theorem scope_chains_well_founded (hbefore : before.IsReachable)
    (hafter : Relation.ReflTransGen Proceeds before after) :
    (Store.ofHistory before.record.changes = before.store ∧
      Store.ofHistory after.record.changes = after.store ∧
      before.record.changes <:+ after.record.changes) ∧
    (∀ past later, past <:+ later → later <:+ after.record.changes →
      ∀ id < (Store.ofHistory past).frames.size, id < (Store.ofHistory later).frames.size ∧
        (Store.ofHistory later).outer? id = (Store.ofHistory past).outer? id) ∧
    ∀ past, past <:+ after.record.changes → Store.InOrder past ∧
      ∀ env < (Store.ofHistory past).frames.size, ∀ name,
        (Store.ofHistory past).LooksUp env name := by
  obtain ⟨hfirst, -⟩ := follows_of_proceeds hbefore ⟨rfl, rfl⟩
  obtain ⟨hlast, hchanges⟩ := follows_of_proceeds hafter hfirst
  refine ⟨⟨hfirst.leads, hlast.leads, hchanges⟩, fun past later hpast _ id hid ↦ ⟨?_, ?_⟩,
    fun past hpast ↦ ?_⟩
  · exact Nat.lt_of_lt_of_le hid (Store.size_ofHistory hpast)
  · exact Store.outer?_ofHistory hpast hid
  · have horder := Store.inOrder_of_isHistory (Store.isHistory_of_suffix hpast hlast.history)
    exact ⟨horder, fun env henv name ↦ horder.looksUp henv name⟩

/-- A call fails in a branch of the function that was declared outermost. -/
def failsInside : Node :=
  .stmt (.block [
    .function "f" [] [.ifThen (.bool true 2) [.print (.identifier "x" 3) .newline 3] 2] 1,
    .call "f" [] 4] 1)

/-- The frames that the failed evaluation leaves are in order: from the innermost the function is
found in the outermost. -/
theorem scope_chains_well_founded_failsInside :
    let opening : Step := .change (.openFrame none)
    let before : Observed := ⟨(Session.step 2 {} opening).2.store, Recorded.step {} 2 {} opening⟩
    let failing : Step := .eval 0 failsInside
    let failed := Session.step 2 ⟨{}, before.store⟩ failing
    let after : Observed := ⟨failed.2.store, before.record.step {} 2 failing⟩
    before.IsReachable ∧ Relation.ReflTransGen Proceeds before after ∧
      failed.1 = .error (.error ⟨.undeclaredIdentifier "x", 3⟩) ∧
      after.store.frames.size = 3 ∧ after.store.LooksUp 2 "f" ∧ after.store.Reaches 2 0 := by
  intro opening before failing failed after
  have hbefore : before.IsReachable := .single (.step {} 2 opening rfl)
  have hafter : Relation.ReflTransGen Proceeds before after :=
    .single (.step {} 2 failing (by decide))
  have hsize : after.store.frames.size = 3 := by rfl
  have hfound : (after.store.closure? 2 "f").map Closure.frame = some 0 := by decide
  obtain ⟨⟨-, hleads, -⟩, -, hpassed⟩ := scope_chains_well_founded hbefore hafter
  obtain ⟨-, hlooks⟩ := hpassed _ (List.suffix_refl _)
  rw [hleads] at hlooks
  have hlooks := hlooks 2 (hsize ▸ Nat.lt_succ_self 2) "f"
  obtain ⟨closure, hclosure, hframe⟩ := Option.map_eq_some_iff.mp hfound
  exact ⟨hbefore, hafter, by rfl, hsize, hlooks, hframe ▸ (hlooks.found closure hclosure).1⟩

end Treewalk
