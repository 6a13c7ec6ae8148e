import Treewalk.Proofs.Call.Protocol
import Treewalk.Proofs.Scope.Renumbering

/-!
# Forwarded results

A return whose operand is a call passes on what that call comes to, a missing value included. Along
a chain of functions each of which returns the call of the next (`Forwards`), a call of the first
comes to what the body of the last comes to in a frame of its own, that many calls deeper, and has
the effects of that body alone (`forwarded_result`). Each call of the chain opens a frame, which
stays empty and which nothing leads to: all that it changes is the numbers of later frames.
-/

set_option autoImplicit false
set_option relaxedAutoImplicit false

namespace Treewalk

namespace Store

variable {store : Store} {frame : FrameId} {name : String}

/-! ### Frames of a chain of calls -/

/-- Opens a number of frames under one frame. -/
def openedUnder (frame : FrameId) : Nat → Store → Store
  | 0, store => store
  | count + 1, store => openedUnder frame count (store.openFrame (some frame)).2

theorem frames_openedUnder (frame : FrameId) (count : Nat) (store : Store) :
    (store.openedUnder frame count).frames =
      store.frames ++ Array.replicate count { outer := some frame } := by
  induction count generalizing store with
  | zero => simp [openedUnder]
  | succ count ih =>
    let opened : Frame := { outer := some frame }
    have hmore : #[opened] ++ Array.replicate count opened =
        Array.replicate (count + 1) opened := by
      rw [Nat.add_comm, ← Array.replicate_append_replicate]
      rfl
    rw [openedUnder, ih, openFrame, ← Array.append_singleton, Array.append_assoc, hmore]

/-- Where a frame stands once frames were opened in between. -/
def past (size count id : Nat) : Nat :=
  if id < size then id else id + count

theorem past_of_lt {size count id : Nat} (h : id < size) : past size count id = id :=
  if_pos h

theorem past_of_le {size count id : Nat} (h : size ≤ id) : past size count id = id + count :=
  if_neg h.not_gt

theorem strictMono_past (size count : Nat) : StrictMono (past size count) := by
  intro id other hlt
  unfold past
  split_ifs <;> omega

/-- Frames up to the first that was moved lead to frames that were not. -/
theorem map_renumbered_of_lt (hstore : store.WellFormed) {place : FrameId → FrameId} {id : FrameId}
    (hplace : ∀ outer < id, place outer = outer) :
    store.frames[id]?.map (Frame.renumbered place) = store.frames[id]? := by
  cases hframe : store.frames[id]? with
  | none => rfl
  | some frame =>
    obtain ⟨bindings, functions, _ | outer⟩ := frame
    · rfl
    · have houter : store.outer? id = some outer := by rw [outer?, hframe]; rfl
      simp [Frame.renumbered, hplace outer (hstore id outer houter)]

/-- A frame that is opened after others of its kind differs in its number only. -/
theorem renumbered_openedUnder (hstore : store.WellFormed) (hframe : frame < store.frames.size)
    (count : Nat) :
    (store.openFrame (some frame)).2.Renumbered (past store.frames.size count)
      (store.openedUnder frame (count + 1)) where
  frame id := by
    rw [frames_openedUnder, getElem?_openFrame, Array.getElem?_append, Array.getElem?_replicate]
    rcases Nat.lt_trichotomy id store.frames.size with hlt | rfl | hgt
    · rw [past_of_lt hlt, if_pos hlt, if_neg hlt.ne]
      exact (map_renumbered_of_lt hstore fun outer houter ↦ past_of_lt (houter.trans hlt)).symm
    · rw [past_of_le le_rfl, if_neg (by omega), if_pos (by omega), if_pos rfl]
      simp only [Frame.renumbered, Option.map_some, past_of_lt hframe]
    · rw [past_of_le hgt.le, if_neg (by omega), if_neg (by omega), if_neg hgt.ne',
        Array.getElem?_eq_none hgt.le]
      rfl
  unopened offset := by
    rw [frames_openedUnder, size_openFrame, Array.size_append, Array.size_replicate,
      past_of_le (Nat.le_add_right_of_le (Nat.le_succ _))]
    show (_ : Nat) = _
    omega

/-- In a frame under the one that declares a function, the function is found. -/
theorem closure?_openFrame_under (hstore : store.WellFormed) {function : Function}
    (h : store.function? name frame = some function) :
    (store.openFrame (some frame)).2.closure? store.frames.size name =
      some ⟨function, frame⟩ :=
  (closure?_openFrame_new hstore (lt_size_of_function? h) name).trans (closure?_of_function? h)

end Store

/-! ### Chains of calls -/

/-- A function in a frame that returns the call of another one there, which does so in turn, and so
on up to a last function with a body of its own, this many calls on. -/
inductive Forwards (store : Store) (frame : FrameId) (body : List Stmt) : String → Nat → Prop
  | last {name : String} {line : Line}
      (hfunction : store.function? name frame = some ⟨name, [], body, line⟩) :
      Forwards store frame body name 0
  | next {name other : String} {call ret line : Line} {count : Nat}
      (hfunction : store.function? name frame =
        some ⟨name, [], [.ret (some (.call other [] call)) ret], line⟩)
      (hrest : Forwards store frame body other count) :
      Forwards store frame body name (count + 1)

namespace Forwards

variable {store : Store} {frame : FrameId} {body : List Stmt} {name : String} {count : Nat}

theorem exists_function (h : Forwards store frame body name count) :
    ∃ function, store.function? name frame = some function := by
  cases h with
  | last hfunction => exact ⟨_, hfunction⟩
  | next hfunction _ => exact ⟨_, hfunction⟩

theorem lt_size (h : Forwards store frame body name count) : frame < store.frames.size := by
  obtain ⟨function, hfunction⟩ := h.exists_function
  exact Store.lt_size_of_function? hfunction

theorem openFrame (h : Forwards store frame body name count) (outer : Option FrameId) :
    Forwards (store.openFrame outer).2 frame body name count := by
  have hkept : ∀ {name function}, store.function? name frame = some function →
      (store.openFrame outer).2.function? name frame = some function := fun hfunction ↦ by
    rwa [Store.function?_openFrame, if_neg (Store.lt_size_of_function? hfunction).ne]
  induction h with
  | last hfunction => exact .last (hkept hfunction)
  | next hfunction _ ih => exact .next (hkept hfunction) ih

end Forwards

section Calls

variable {limit : Nat} {state : State Store}

/-- What a body comes to for the outermost of so many calls that end with it. -/
def leaving (count : Nat) (ran : Except Stop Flow × State Store) :
    Except Stop (Option Value) × State Store :=
  (ran.1.map fun flow ↦ (Result.flow flow).yielded,
    { ran.2 with depth := ran.2.depth - count })

theorem leaving_one_leaving (count : Nat) (ran : Except Stop Flow × State Store) :
    leaving 1 ((leaving count ran).1.map Flow.returned, (leaving count ran).2) =
      leaving (count + 1) ran := by
  obtain ⟨stop | flow, after⟩ := ran <;> rfl

/-- A call without arguments runs the body in a frame of its own, one call deeper. -/
theorem evalCall_of_room {env : FrameId} {name : String} {closure : Closure}
    (hclosure : state.scopes.closure? env name = some closure)
    (hparameters : closure.function.parameters = []) (hroom : state.depth < limit) (fuel : Nat)
    (line : Line) :
    evalCall (calls limit (fuel + 1)) env name [] line state =
      leaving 1 (execBlock fuel (calls limit fuel) state.scopes.frames.size closure.function.body
        ⟨(state.scopes.openFrame (some closure.frame)).2, state.depth + 1, state.sink⟩) := by
  have hcall : evalCall (calls limit (fuel + 1)) env name [] line state =
      calls limit (fuel + 1) closure [] line state := by
    have harguments : evalArguments (calls limit (fuel + 1)) env [] state = (.ok [], state) := rfl
    exact (evalCall_eq hclosure harguments line).trans
      (if_pos (congrArg List.length hparameters))
  rw [hcall, calls_of_room hroom, State.entering, hparameters]
  rfl

/-- A body that returns a call comes to what the call comes to. -/
theorem execBlock_forward (fuel : Nat) (invoke : Invoke Store) (env : FrameId) (name : String)
    (call ret : Line) (state : State Store) :
    execBlock fuel invoke env [.ret (some (.call name [] call)) ret] state =
      ((evalCall invoke env name [] call state).1.map Flow.returned,
        (evalCall invoke env name [] call state).2) := by
  simp only [execBlock, execStmt, evalResult, EvalM.andThen, bind_assoc, pure_bind]
  exact EvalM.bind_pure_apply _ _ _

/-- Along a chain, every call opens a frame and nothing else, up to the body of the last. -/
theorem evalCall_forwards {count : Nat} {frame env : FrameId} {name : String} {body : List Stmt}
    {function : Function} (hstore : state.scopes.WellFormed)
    (hchain : Forwards state.scopes frame body name count)
    (hfound : state.scopes.closure? env name = some ⟨function, frame⟩)
    (hroom : state.depth + count < limit) (fuel : Nat) (line : Line) :
    evalCall (calls limit (fuel + count + 1)) env name [] line state =
      leaving (count + 1) (execBlock fuel (calls limit fuel) (state.scopes.frames.size + count) body
        ⟨state.scopes.openedUnder frame (count + 1), state.depth + count + 1, state.sink⟩) := by
  have hdeclared := (Store.mem_chain_of_closure? hfound).2
  induction count generalizing state env name function line with
  | zero =>
    cases hchain with
    | last hfunction =>
      obtain rfl := Option.some.inj (hdeclared.symm.trans hfunction)
      exact evalCall_of_room hfound rfl hroom fuel line
  | succ count ih =>
    have hframe := hchain.lt_size
    cases hchain with
    | @next _ other call ret _ _ hfunction hrest =>
      obtain rfl := Option.some.inj (hdeclared.symm.trans hfunction)
      obtain ⟨function, hother⟩ := hrest.exists_function
      have hinside := Store.closure?_openFrame_under hstore hother
      have hopened : (state.scopes.openFrame (some frame)).2.WellFormed :=
        hstore.openFrame fun _ houter ↦ Option.some.inj houter ▸ hframe
      have hroom' : state.depth + 1 + count < limit := by omega
      have hnext := @ih ⟨_, state.depth + 1, state.sink⟩ _ _ _ hopened
        (hrest.openFrame (some frame)) hinside hroom' call (Store.mem_chain_of_closure? hinside).2
      have hsize : (state.scopes.openFrame (some frame)).2.frames.size + count =
          state.scopes.frames.size + (count + 1) := by
        rw [Store.size_openFrame, Nat.add_assoc, Nat.add_comm 1]
      have hdepth : state.depth + 1 + count + 1 = state.depth + (count + 1) + 1 := by omega
      rw [hsize, hdepth] at hnext
      rw [evalCall_of_room hfound rfl (by omega)]
      dsimp only
      rw [execBlock_forward]
      exact (congrArg (fun called ↦ leaving 1 (called.1.map Flow.returned, called.2)) hnext).trans
        (leaving_one_leaving (count + 1) _)

/-- A call of the first function of a chain comes to what the body of the last comes to in a frame
of its own, as many calls deeper, with the output and the effects of that body and no others. As a
statement it completes where the body does. As an expression it fails if there is no value, and this
is charged to the call itself and not to those that forward it. -/
theorem forwarded_result {count : Nat} {frame env : FrameId} {name : String} {body : List Stmt}
    {function : Function} (hstore : state.scopes.WellFormed)
    (hchain : Forwards state.scopes frame body name count)
    (hfound : state.scopes.closure? env name = some ⟨function, frame⟩)
    (hroom : state.depth + count < limit) (fuel : Nat) (line : Line) :
    let ran := (EvalM.openFrame frame >>= fun inner ↦
        execBlock fuel (calls limit fuel) inner body)
      { state with depth := state.depth + count + 1 }
    let invoke := calls limit (fuel + count + 1)
    let called := evalCall invoke env name [] line state
    called.1 = ran.1.map (fun flow ↦ (Result.flow flow).yielded) ∧
      called.2.sink = ran.2.sink ∧ called.2.depth = state.depth ∧
      (∀ id < state.scopes.frames.size,
        called.2.scopes.frames[id]? = ran.2.scopes.frames[id]?) ∧
      execStmt (fuel + count + 1) invoke env (.call name [] line) state =
        (called.1.map fun _ ↦ .normal, called.2) ∧
      evalExpr invoke env (.call name [] line) state =
        (called.1.bind fun
          | some value => .ok value
          | none => .error (.error ⟨.missingReturnValue name, line⟩), called.2) := by
  intro ran invoke called
  have hframe := hchain.lt_size
  let first : State Store :=
    ⟨(state.scopes.openFrame (some frame)).2, state.depth + count + 1, state.sink⟩
  have hstates : Represents (Store.Renumbered (Store.past state.scopes.frames.size count)) first
      ⟨state.scopes.openedUnder frame (count + 1), state.depth + count + 1, state.sink⟩ :=
    ⟨rfl, rfl, Store.renumbered_openedUnder hstore hframe count⟩
  obtain ⟨houtcome, hafter, hwell⟩ := execBlock_renumbered (Store.strictMono_past _ _) limit fuel
    body hstates (hstore.openFrame fun _ houter ↦ Option.some.inj houter ▸ hframe)
    (by rw [Store.size_openFrame]; exact Nat.lt_succ_self state.scopes.frames.size)
  rw [Store.past_of_le le_rfl] at houtcome hafter
  have hcalled := evalCall_forwards hstore hchain hfound hroom fuel line
  have hstmt : execStmt (fuel + count + 1) invoke env (.call name [] line) state =
      (called.1.map fun _ ↦ .normal, called.2) := by
    rw [execStmt]
    exact EvalM.bind_pure_apply _ _ _
  have hdepth := depth_evaluate limit (fuel + count + 1) env (.stmt (.call name [] line)) state
  rw [evaluate, EvalM.bind_pure_apply, hstmt] at hdepth
  refine ⟨?_, ?_, hdepth, fun id hid ↦ ?_, hstmt, ?_⟩
  · exact (congrArg Prod.fst hcalled).trans (congrArg (Except.map _) houtcome)
  · exact (congrArg (·.2.sink) hcalled).trans hafter.sink
  · have hplace := hafter.scopes.frame id
    rw [Store.past_of_lt hid, Store.map_renumbered_of_lt hwell fun outer houter ↦
      Store.past_of_lt (houter.trans hid)] at hplace
    exact (congrArg (·.2.scopes.frames[id]?) hcalled).trans hplace
  · exact evalExpr_call_apply invoke env name [] line state

end Calls

/-- A frame with a function that returns the call of another one, which prints and has no value,
and a frame under it. -/
def Store.relayed : Store where
  frames := #[
    { functions := ⟨[("f", ⟨"f", [], [.ret (some (.call "g" [] 2)) 2], 1⟩),
        ("g", ⟨"g", [], [.print (.bool true 4) .newline 4], 3⟩)]⟩ },
    { outer := some 0 }]

theorem Store.wellFormed_relayed : Store.relayed.WellFormed := by
  intro id outer houter
  rcases id with _ | _ | id
  · cases houter
  · cases houter
    exact Nat.zero_lt_one
  · cases houter

theorem Store.forwards_relayed :
    Forwards Store.relayed 0 [.print (.bool true 4) .newline 4] "f" 1 :=
  .next rfl (.last rfl)

/-- Where the call of the first function is read, the missing value is charged to it, and the last
function has printed once. -/
theorem forwarded_result_relayed :
    let state : State Store := ⟨Store.relayed, 0, {}⟩
    let read := evalExpr (calls 2 2) 1 (.call "f" [] 5) state
    read.1 = .error (.error ⟨.missingReturnValue "f", 5⟩) ∧ read.2.depth = 0 ∧
      read.2.sink.chunks = #[⟨4, utf8 "true\n"⟩] ∧
      (execStmt 2 (calls 2 2) 1 (.call "f" [] 5) state).1 = .ok .normal := by
  intro state read
  obtain ⟨houtcome, hsink, hdepth, -, hstmt, hexpr⟩ :=
    @forwarded_result 2 state 1 0 1 "f" _ _ Store.wellFormed_relayed Store.forwards_relayed rfl
      (by decide) 0 5
  rw [show read = _ from hexpr, hstmt, hsink, houtcome]
  exact ⟨rfl, hdepth, by decide +kernel, rfl⟩

end Treewalk
