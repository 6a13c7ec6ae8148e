import Treewalk.Proofs.Call.DepthBalance
import Treewalk.Proofs.Eval.Sequence
import Treewalk.Proofs.Scope.Opened

/-!
# The protocol of a call

A call finds its function and compares the number of arguments before it evaluates any of them. It
evaluates them from left to right in the frame of the caller, up to the first that stops, and is
refused at the limit only after that. The body starts in a frame of its own under the frame of the
declaration (`Entered`). There a parameter reads as the argument at its last occurrence, and every
other name resolves as it does from the frame of the declaration. This is `call_protocol`.

Whatever the arguments come to, the tables of functions along the chain of the caller stay as they
are (`closure?_evalArguments`), so it makes no difference that the function is found before them.
-/

set_option autoImplicit false
set_option relaxedAutoImplicit false

namespace Treewalk

/-! ### Parameters in a frame -/

namespace Store

/-- Sets variables in a frame itself, in order. -/
def bindAll (store : Store) (id : FrameId) : List (String × Value) → Store
  | [] => store
  | pair :: rest => (store.declare id pair.1 (.set pair.2)).bindAll id rest

section BindAll

variable {store : Store} {id : FrameId} {name : String} {pairs : List (String × Value)}

/-- What none of the declarations changes is the same after all of them. -/
theorem bindAll_congr {α : Type} (view : Store → α)
    (hview : ∀ store, ∀ pair ∈ pairs, view (store.declare id pair.1 (.set pair.2)) = view store)
    (store : Store) : view (store.bindAll id pairs) = view store := by
  induction pairs generalizing store with
  | nil => rfl
  | cons pair rest ih =>
    rw [bindAll, ih fun store pair hpair ↦ hview store pair (List.mem_cons_of_mem _ hpair)]
    exact hview store pair List.mem_cons_self

variable (store id name pairs)

@[simp] theorem size_bindAll : (store.bindAll id pairs).frames.size = store.frames.size :=
  bindAll_congr (·.frames.size) (fun _ _ _ ↦ size_declare _ _ _ _) store

@[simp] theorem outer?_bindAll (other : FrameId) :
    (store.bindAll id pairs).outer? other = store.outer? other :=
  bindAll_congr (·.outer? other) (fun _ _ _ ↦ outer?_declare _ _ _ _ _) store

@[simp] theorem function?_bindAll (other : FrameId) :
    (store.bindAll id pairs).function? name other = store.function? name other :=
  bindAll_congr (·.function? name other) (fun _ _ _ ↦ function?_declare _ _ _ _ _ _) store

theorem chain_bindAll (other : FrameId) :
    (store.bindAll id pairs).chain other = store.chain other :=
  chain_congr (size_bindAll _ _ _) (outer?_bindAll _ _ _) other

theorem closure?_bindAll (other : FrameId) :
    (store.bindAll id pairs).closure? other name = store.closure? other name :=
  closure?_congr (chain_bindAll _ _ _ other) fun frame _ ↦ function?_bindAll _ _ _ _ frame

variable {store id name pairs}

theorem getElem?_bindAll_of_ne {other : FrameId} (hother : id ≠ other) :
    (store.bindAll id pairs).frames[other]? = store.frames[other]? :=
  bindAll_congr (·.frames[other]?)
    (fun _ _ _ ↦ (getElem?_declare _ _ _ _ _).trans (if_neg hother)) store

theorem binding?_bindAll_of_forall_ne (hname : ∀ pair ∈ pairs, pair.1 ≠ name) (other : FrameId) :
    (store.bindAll id pairs).binding? name other = store.binding? name other := by
  refine bindAll_congr (·.binding? name other) (fun store pair hpair ↦ ?_) store
  rw [binding?_declare, if_neg]
  exact fun h ↦ hname pair hpair h.2.1.symm

theorem get?_bindAll_of_forall_ne (hname : ∀ pair ∈ pairs, pair.1 ≠ name) (other : FrameId) :
    (store.bindAll id pairs).get? other name = store.get? other name :=
  get?_congr (chain_bindAll _ _ _ other) fun frame _ ↦ binding?_bindAll_of_forall_ne hname frame

/-- A name that is set more than once keeps its last value. -/
theorem binding?_bindAll_last (hid : id < store.frames.size) (value : Value)
    {earlier later : List (String × Value)} (hlater : ∀ pair ∈ later, pair.1 ≠ name) :
    (store.bindAll id (earlier ++ (name, value) :: later)).binding? name id =
      some (.set value) := by
  induction earlier generalizing store with
  | nil =>
    rw [List.nil_append, bindAll, binding?_bindAll_of_forall_ne hlater, binding?_declare,
      if_pos ⟨rfl, rfl, hid⟩]
  | cons pair rest ih =>
    rw [List.cons_append, bindAll]
    exact ih (by rwa [size_declare])

end BindAll

end Store

/-! ### The frame of a call -/

/-- The body of a function may start here: in a new frame under that of the declaration, one call
deeper, with nothing else changed. There a parameter reads as the argument at its last occurrence,
and what is no parameter is found where it is found from the frame of the declaration. -/
structure Entered (closure : Closure) (values : List Value) (before : State Store)
    (inner : FrameId) (start : State Store) : Prop where
  depth : start.depth = before.depth + 1
  sink : start.sink = before.sink
  unopened : before.scopes.frames.size ≤ inner
  outer : start.scopes.outer? inner = some closure.frame
  frames : ∀ id < before.scopes.frames.size,
    start.scopes.frames[id]? = before.scopes.frames[id]?
  parameters : ∀ earlier parameter later,
    closure.function.parameters = earlier ++ parameter :: later → parameter ∉ later →
      ∃ value, values[earlier.length]? = some value ∧
        start.scopes.get? inner parameter = some (.set value)
  otherVariables : ∀ name ∉ closure.function.parameters,
    start.scopes.get? inner name = before.scopes.get? closure.frame name
  functions : ∀ name, start.scopes.closure? inner name = before.scopes.closure? closure.frame name

section Entry

variable {closure : Closure} {values : List Value} {state : State Store}

/-- Opens a frame with the parameters of a function set to values. -/
def State.entering (state : State Store) (closure : Closure) (values : List Value) : State Store :=
  { state with
    scopes := (state.scopes.openFrame (some closure.frame)).2.bindAll state.scopes.frames.size
      (closure.function.parameters.zip values) }

theorem entered_of_room (hstore : state.scopes.WellFormed)
    (hframe : closure.frame < state.scopes.frames.size)
    (hlength : closure.function.parameters.length = values.length) :
    Entered closure values state state.scopes.frames.size
      { state.entering closure values with depth := state.depth + 1 } where
  depth := rfl
  sink := rfl
  unopened := Nat.le_refl _
  outer := by
    rw [State.entering, Store.outer?_bindAll, Store.outer?_openFrame, if_pos rfl]
  frames id hid := by
    rw [State.entering, Store.getElem?_bindAll_of_ne (Nat.ne_of_gt hid), Store.getElem?_openFrame,
      if_neg (Nat.ne_of_lt hid)]
  parameters earlier parameter later hparameters hlast := by
    have hlt : earlier.length < values.length := by
      rw [← hlength, hparameters, List.length_append, List.length_cons]
      omega
    have hvalues : values = values.take earlier.length ++
        values[earlier.length] :: values.drop (earlier.length + 1) := by
      rw [← List.drop_eq_getElem_cons hlt, List.take_append_drop]
    have hzip : closure.function.parameters.zip values =
        earlier.zip (values.take earlier.length) ++
          (parameter, values[earlier.length]) :: later.zip (values.drop (earlier.length + 1)) := by
      rw [hparameters]
      conv_lhs => rw [hvalues]
      rw [List.zip_append (by rw [List.length_take, Nat.min_eq_left (Nat.le_of_lt hlt)]),
        List.zip_cons_cons]
    refine ⟨values[earlier.length], List.getElem?_eq_getElem hlt, ?_⟩
    rw [State.entering, hzip]
    refine Store.get?_of_binding? (Store.binding?_bindAll_last ?_ _ fun pair hpair ↦ ?_)
    · rw [Store.size_openFrame]
      exact Nat.lt_succ_self _
    · rintro rfl
      exact hlast (List.of_mem_zip hpair).1
  otherVariables name hname := by
    rw [State.entering, Store.get?_bindAll_of_forall_ne, Store.get?_openFrame_new hstore hframe]
    rintro pair hpair rfl
    exact hname (List.of_mem_zip hpair).1
  functions name := by
    rw [State.entering, Store.closure?_bindAll, Store.closure?_openFrame_new hstore hframe]

theorem bindParameters_apply (env : FrameId) (pairs : List (String × Value))
    (state : State Store) :
    bindParameters env pairs state =
      (.ok (), { state with scopes := state.scopes.bindAll env pairs }) := by
  induction pairs generalizing state with
  | nil => rfl
  | cons pair rest ih =>
    rw [bindParameters, EvalM.bind_apply]
    exact ih _

/-- What a function comes to is what its body comes to in the frame of the call. -/
theorem runFunction_apply (runBody : FrameId → List Stmt → EvalM Store Flow) (closure : Closure)
    (values : List Value) (state : State Store) :
    runFunction runBody closure values state =
      let ran := runBody state.scopes.frames.size closure.function.body
        (state.entering closure values)
      (ran.1.map fun flow ↦ (Result.flow flow).yielded, ran.2) := by
  have hrun : runFunction runBody closure values =
      EvalM.openFrame closure.frame >>= fun env ↦
        bindParameters env (closure.function.parameters.zip values) >>= fun _ ↦
          runBody env closure.function.body >>= fun flow ↦ pure (Result.flow flow).yielded := by
    unfold runFunction
    refine bind_congr fun env ↦ bind_congr fun _ ↦ bind_congr fun flow ↦ ?_
    cases flow <;> rfl
  have hopen : EvalM.openFrame closure.frame state = (.ok state.scopes.frames.size,
      { state with scopes := (state.scopes.openFrame (some closure.frame)).2 }) := rfl
  rw [hrun, EvalM.bind_of_ok hopen, EvalM.bind_of_ok (bindParameters_apply _ _ _)]
  exact EvalM.bind_pure_apply _ _ _

/-- At the limit, a call is refused and changes nothing. -/
theorem calls_of_full {limit : Nat} (hfull : limit ≤ state.depth) (fuel : Nat) (closure : Closure)
    (values : List Value) (line : Line) :
    calls limit fuel closure values line state =
      (.error (.error ⟨.stackOverflow limit, line⟩), state) :=
  if_neg (Nat.not_lt_of_le hfull)

/-- Below the limit, a call runs the body one call deeper, in a frame of its own. -/
theorem calls_of_room {limit : Nat} (hroom : state.depth < limit) (fuel : Nat) (closure : Closure)
    (values : List Value) (line : Line) :
    calls limit fuel closure values line state =
      let ran := runBody (EvalM.deeper limit) fuel state.scopes.frames.size closure.function.body
        { state.entering closure values with depth := state.depth + 1 }
      (ran.1.map fun flow ↦ (Result.flow flow).yielded,
        { ran.2 with depth := ran.2.depth - 1 }) := by
  have hrun := runFunction_apply (runBody (EvalM.deeper limit) fuel) closure values
    { state with depth := state.depth + 1 }
  have hcalls : calls limit fuel closure values line state =
      let ran := runFunction (runBody (EvalM.deeper limit) fuel) closure values
        { state with depth := state.depth + 1 }
      (ran.1, { ran.2 with depth := ran.2.depth - 1 }) := if_pos hroom
  rw [hcalls, hrun]
  rfl

end Entry

/-! ### Arguments in turn -/

section Arguments

variable {S : Type} [Scopes S]

/-- The arguments come to these values one after another, each from the state that the one before
it has left. -/
inductive InTurn (invoke : Invoke S) (env : FrameId) :
    List Expr → State S → List Value → State S → Prop
  | nil {state : State S} : InTurn invoke env [] state [] state
  | cons {argument : Expr} {rest : List Expr} {state middle after : State S} {value : Value}
      {values : List Value} (hfirst : evalExpr invoke env argument state = (.ok value, middle))
      (hrest : InTurn invoke env rest middle values after) :
      InTurn invoke env (argument :: rest) state (value :: values) after

/-- One of the arguments stops here, after those before it have come to values. -/
def StopsInTurn (invoke : Invoke S) (env : FrameId) (arguments : List Expr) (state : State S)
    (stop : Stop) (after : State S) : Prop :=
  ∃ earlier argument later values middle, arguments = earlier ++ argument :: later ∧
    InTurn invoke env earlier state values middle ∧
      evalExpr invoke env argument middle = (.error stop, after)

variable {invoke : Invoke S} {env : FrameId} {state : State S}

theorem InTurn.evalArguments_eq {arguments : List Expr} {after : State S} {values : List Value}
    (h : InTurn invoke env arguments state values after) :
    evalArguments invoke env arguments state = (.ok values, after) := by
  induction h with
  | nil => rfl
  | cons hfirst _ ih =>
    rw [evalArguments, EvalM.bind_of_ok hfirst, EvalM.bind_of_ok ih]
    rfl

/-- Arguments are evaluated up to the first that stops. -/
theorem evalArguments_inTurn (invoke : Invoke S) (env : FrameId) (arguments : List Expr)
    (state : State S) :
    (∃ values after, InTurn invoke env arguments state values after ∧
      evalArguments invoke env arguments state = (.ok values, after)) ∨
    ∃ stop after, StopsInTurn invoke env arguments state stop after ∧
      evalArguments invoke env arguments state = (.error stop, after) := by
  induction arguments generalizing state with
  | nil => exact .inl ⟨[], state, .nil, rfl⟩
  | cons argument rest ih =>
    rw [evalArguments, EvalM.bind_apply]
    rcases hfirst : evalExpr invoke env argument state with ⟨stop | value, middle⟩
    · exact .inr ⟨stop, middle, ⟨[], argument, rest, [], state, rfl, .nil, hfirst⟩, rfl⟩
    · dsimp only
      rw [EvalM.bind_apply]
      rcases ih middle with ⟨values, after, hrest, heval⟩ | ⟨stop, after, hstops, heval⟩
      · exact .inl ⟨value :: values, after, .cons hfirst hrest, by rw [heval]; rfl⟩
      · obtain ⟨earlier, last, later, values, before, rfl, hearlier, hlast⟩ := hstops
        exact .inr ⟨stop, after, ⟨argument :: earlier, last, later, value :: values, before, rfl,
          .cons hfirst hearlier, hlast⟩, by rw [heval]⟩

variable {name : String} {arguments : List Expr}

/-- A call whose name is not found evaluates nothing. -/
theorem evalCall_of_closure?_eq_none (h : Scopes.closure? state.scopes env name = none)
    (line : Line) :
    evalCall invoke env name arguments line state =
      (.error (.error ⟨.undeclaredFunction name, line⟩), state) := by
  refine EvalM.bind_of_error ?_ _
  unfold EvalM.resolve
  rw [h]

/-- A call with the wrong number of arguments evaluates none of them. -/
theorem evalCall_of_arity {closure : Closure}
    (h : Scopes.closure? state.scopes env name = some closure)
    (harity : closure.function.parameters.length ≠ arguments.length) (line : Line) :
    evalCall invoke env name arguments line state =
      (.error (.error ⟨.arityMismatch closure.function.name closure.function.parameters.length
        arguments.length, line⟩), state) := by
  refine EvalM.bind_of_error ?_ _
  unfold EvalM.resolve
  rw [h]
  exact if_neg harity

/-- A call that finds its function, with as many parameters as there are arguments, evaluates these
and then runs the function. -/
theorem evalCall_of_closure? {closure : Closure}
    (h : Scopes.closure? state.scopes env name = some closure)
    (harity : closure.function.parameters.length = arguments.length) (line : Line) :
    evalCall invoke env name arguments line state =
      (evalArguments invoke env arguments >>= fun values ↦ invoke closure values line) state := by
  have hresolve : EvalM.resolve env name arguments.length line state = (.ok closure, state) :=
    Prod.ext (EvalM.resolve_eq_ok_iff.mpr ⟨h, harity⟩) (EvalM.resolve_state _ _ _ _ _)
  exact EvalM.bind_of_ok hresolve _

end Arguments

/-! ### The protocol -/

section Protocol

theorem wellFormed_isKept :
    Store.IsKept (fun _ ↦ True) Store.WellFormed fun _ ↦ True where
  enclosed _ := ⟨fun _ _ _ _ ↦ trivial, fun _ _ ↦ trivial⟩
  openFrame hkeeps henv := hkeeps.openFrame (by rintro _ ⟨⟩; exact henv.2)
  declare name binding hkeeps _ := hkeeps.congr fun _ ↦ Store.outer?_declare _ _ _ _ _
  declareFunction function hkeeps _ := hkeeps.congr fun _ ↦ Store.outer?_declareFunction _ _ _ _
  unbound _ _ _ _ := trivial
  unresolved _ _ _ _ := trivial
  other _ _ := trivial

variable {state : State Store} (limit fuel : Nat) (env : FrameId) (arguments : List Expr)

/-- Arguments change what expressions may change. -/
theorem framed_evalArguments (hstore : state.scopes.WellFormed) :
    state.scopes.Framed env False
      (evalArguments (calls limit fuel) env arguments state).2.scopes :=
  ((framed_isInvariant hstore limit env False).evalArguments fuel arguments
    (Store.met_self _ env)).state state state (.refl _ _ _)

/-- Whatever the arguments of a call come to, functions are found as before. -/
theorem closure?_evalArguments (hstore : state.scopes.WellFormed)
    (henv : env < state.scopes.frames.size) (name : String) :
    (evalArguments (calls limit fuel) env arguments state).2.scopes.closure? env name =
      state.scopes.closure? env name := by
  have hframed := framed_evalArguments limit fuel env arguments hstore
  have hframe : ∀ id < state.scopes.frames.size, ∃ frame frame',
      state.scopes.frames[id]? = some frame ∧
        (evalArguments (calls limit fuel) env arguments state).2.scopes.frames[id]? =
          some frame' ∧ frame.Kept frame' := by
    intro id hid
    obtain ⟨frame', hafter, -, -, hkept⟩ :=
      hframed.frames id _ (Array.getElem?_eq_getElem hid)
    exact ⟨_, frame', Array.getElem?_eq_getElem hid, hafter, hkept fun h ↦ h.2⟩
  refine Store.closure?_congr ?_ fun id hid ↦ ?_
  · refine Store.chain_of_outer?_eq hstore hframed.size (fun id hid ↦ ?_) henv
    obtain ⟨frame, frame', hbefore, hafter, hkept⟩ := hframe id hid
    rw [Store.outer?, Store.outer?, hbefore, hafter]
    exact hkept.outer
  · obtain ⟨frame, frame', hbefore, hafter, hkept⟩ := hframe id (Store.lt_size_of_mem_chain hid).2
    rw [Store.function?, Store.function?, hbefore, hafter, Option.bind_some, Option.bind_some,
      hkept.functions]

theorem depth_evalArguments (state : State Store) :
    (evalArguments (calls limit fuel) env arguments state).2.depth = state.depth :=
  ((depth_isInvariant limit).evalArguments fuel arguments trivial).state state state rfl

end Protocol

/-- As an expression, a call fails beyond what it comes to only for want of a value. -/
theorem evalExpr_call_apply (invoke : Invoke Store) (env : FrameId) (name : String)
    (arguments : List Expr) (line : Line) (state : State Store) :
    evalExpr invoke env (.call name arguments line) state =
      ((evalCall invoke env name arguments line state).1.bind fun
        | some value => .ok value
        | none => .error (.error ⟨.missingReturnValue name, line⟩),
        (evalCall invoke env name arguments line state).2) := by
  rw [evalExpr_call, EvalM.bind_apply]
  rcases evalCall invoke env name arguments line state with ⟨stop | _ | value, after⟩ <;> rfl

/-- A call is made by steps, each of which may end it. If its name is not found or takes another
number of arguments, the call fails and no argument is evaluated. Then the arguments are evaluated
in turn, and the first that stops ends the call. Then the limit may refuse it, and nothing else
happens. Otherwise the body runs in a frame of its own, in which the parameters read as the
arguments and all other names resolve as from the frame of the declaration. The arguments leave the
functions that the caller finds as they were. All this holds of a call as an expression, as a
statement and as the operand of a return. -/
theorem call_protocol (limit fuel : Nat) (env : FrameId) (name : String) (arguments : List Expr)
    (line : Line) (state : State Store) (hstore : state.scopes.WellFormed) :
    let invoke := calls limit fuel
    let called := evalCall invoke env name arguments line state
    (evalExpr invoke env (.call name arguments line) state =
        (called.1.bind fun
          | some value => .ok value
          | none => .error (.error ⟨.missingReturnValue name, line⟩), called.2) ∧
      execStmt fuel invoke env (.call name arguments line) state =
        (called.1.map fun _ ↦ .normal, called.2) ∧
      ∀ ret, execStmt fuel invoke env (.ret (some (.call name arguments line)) ret) state =
        (called.1.map .returned, called.2)) ∧
    (state.scopes.closure? env name = none →
      called = (.error (.error ⟨.undeclaredFunction name, line⟩), state)) ∧
    ∀ closure, state.scopes.closure? env name = some closure →
      let expected := closure.function.parameters.length
      (expected ≠ arguments.length →
        called = (.error (.error ⟨.arityMismatch closure.function.name expected arguments.length,
          line⟩), state)) ∧
      (expected = arguments.length →
        (∃ stop after, StopsInTurn invoke env arguments state stop after ∧
          (∀ other, after.scopes.closure? env other = state.scopes.closure? env other) ∧
          called = (.error stop, after)) ∨
        ∃ values after, InTurn invoke env arguments state values after ∧
          (∀ other, after.scopes.closure? env other = state.scopes.closure? env other) ∧
          after.depth = state.depth ∧
          (limit ≤ after.depth →
            called = (.error (.error ⟨.stackOverflow limit, line⟩), after)) ∧
          (after.depth < limit → ∃ inner start, Entered closure values after inner start ∧
            let ran := runBody (EvalM.deeper limit) fuel inner closure.function.body start
            called = (ran.1.map fun flow ↦ (Result.flow flow).yielded,
              { ran.2 with depth := ran.2.depth - 1 }))) := by
  intro invoke called
  refine ⟨⟨evalExpr_call_apply invoke env name arguments line state, ?statement,
    fun ret ↦ ?operand⟩, fun hnone ↦ ?undeclared,
    fun closure hclosure ↦ ⟨fun harity ↦ ?arity, fun harity ↦ ?found⟩⟩
  case statement =>
    rw [execStmt]
    exact EvalM.bind_pure_apply _ _ _
  case operand =>
    rw [execStmt, evalResult]
    exact EvalM.bind_pure_apply _ _ _
  case undeclared => exact evalCall_of_closure?_eq_none hnone line
  case arity => exact evalCall_of_arity hclosure harity line
  case found =>
    have henv : env < state.scopes.frames.size :=
      (Store.lt_size_of_mem_chain (Store.mem_chain_of_closure? hclosure).1).1
    have hcalled : called = (evalArguments invoke env arguments >>= fun values ↦
        invoke closure values line) state := evalCall_of_closure? hclosure harity line
    have hfunctions := closure?_evalArguments limit fuel env arguments hstore henv
    have hframed := framed_evalArguments limit fuel env arguments hstore
    have hwell := wellFormed_isKept.evalArguments limit fuel arguments hstore ⟨trivial, henv⟩
    have hdepth := depth_evalArguments limit fuel env arguments state
    rcases evalArguments_inTurn invoke env arguments state with
      ⟨values, after, hturn, heval⟩ | ⟨stop, after, hstops, heval⟩
    · rw [heval] at hfunctions hframed hwell hdepth
      have hrun : called = invoke closure values line after :=
        hcalled.trans (EvalM.bind_of_ok heval _)
      have hframe : closure.frame < after.scopes.frames.size :=
        Nat.lt_of_lt_of_le (Store.lt_size_of_closure? hclosure) hframed.size
      have hlength : closure.function.parameters.length = values.length :=
        harity.trans (length_of_evalArguments (congrArg Prod.fst heval)).symm
      refine .inr ⟨values, after, hturn, hfunctions, hdepth, fun hfull ↦ ?_, fun hroom ↦ ?_⟩
      · exact hrun.trans (calls_of_full hfull fuel closure values line)
      · exact ⟨_, _, entered_of_room hwell hframe hlength,
          hrun.trans (calls_of_room hroom fuel closure values line)⟩
    · rw [heval] at hfunctions
      exact .inl ⟨stop, after, hstops, hfunctions, hcalled.trans (EvalM.bind_of_error heval _)⟩

/-- A frame with a function that has two parameters of one name, a variable of this name and another
one, and a frame under it. -/
def Store.shadowing : Store where
  frames := #[
    { bindings := ⟨[("x", .set (.string "outside")), ("y", .set (.boolean true))]⟩
      functions := ⟨[("f", ⟨"f", ["x", "x"], [.ret (some (.identifier "x" 2)) 2], 1⟩)]⟩ },
    { outer := some 0 }]

theorem Store.wellFormed_shadowing : Store.shadowing.WellFormed := by
  intro id outer houter
  rcases id with _ | _ | id
  · cases houter
  · cases houter
    exact Nat.zero_lt_one
  · cases houter

/-- In the frame of the call, the parameters read as the second argument and hide the variable
outside, the other variable is found as before, and the function returns what it finds. -/
theorem call_protocol_shadowing :
    let state : State Store := ⟨Store.shadowing, 0, {}⟩
    let arguments : List Expr := [.str "first" 3, .str "second" 3]
    let closure : Closure := ⟨⟨"f", ["x", "x"], [.ret (some (.identifier "x" 2)) 2], 1⟩, 0⟩
    let called := evalCall (calls 1 1) 1 "f" arguments 3 state
    state.scopes.WellFormed ∧ called.1 = .ok (some (.string "second")) ∧
      ∃ inner start,
        Entered closure [.string "first", .string "second"] state inner start ∧
        start.scopes.get? inner "x" = some (.set (.string "second")) ∧
        start.scopes.get? inner "y" = some (.set (.boolean true)) := by
  intro state arguments closure called
  have hcalled : called.1 = .ok (some (.string "second")) := by rfl
  obtain ⟨-, -, hprotocol⟩ :=
    call_protocol 1 1 1 "f" arguments 3 state Store.wellFormed_shadowing
  refine ⟨Store.wellFormed_shadowing, hcalled, ?_⟩
  rcases (hprotocol closure rfl).2 rfl with ⟨stop, after, -, -, hstop⟩ |
    ⟨values, after, hturn, -, hdepth, -, hroom⟩
  · cases hcalled.symm.trans (congrArg Prod.fst hstop)
  · have heval : evalArguments (calls 1 1) 1 arguments state =
        (.ok [.string "first", .string "second"], state) := rfl
    obtain ⟨hvalues, rfl⟩ := Prod.mk.inj (heval.symm.trans hturn.evalArguments_eq)
    cases hvalues
    obtain ⟨inner, start, hentered, -⟩ := hroom Nat.zero_lt_one
    obtain ⟨value, hvalue, hx⟩ := hentered.parameters ["x"] "x" [] rfl (by decide)
    cases hvalue
    exact ⟨inner, start, hentered, hx, (hentered.otherVariables "y" (by decide)).trans rfl⟩

end Treewalk
