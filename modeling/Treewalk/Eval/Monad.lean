import Treewalk.Error
import Treewalk.Scope.Basic
import Treewalk.Sink

/-!
# The monad of evaluations

A computation in `EvalM` comes from a state to a result, or to a `Stop` before its end, and to the
state then. A stop keeps all that was done before it. Running out of fuel is a stop of its own, so
that it is never mistaken for an error, and the state in which the fuel ran out is a state that
the evaluation passes through.

After the monad come the few computations that touch the state: those on the scopes, `write` on
the sink, and `deeper`, which counts the calls that are open.
-/

set_option autoImplicit false
set_option relaxedAutoImplicit false

namespace Treewalk

/-- Why an evaluation stops before its end. -/
inductive Stop where
  | error (error : RuntimeError)
  | outOfFuel
  deriving DecidableEq

structure State (S : Type) where
  scopes : S
  /-- How many calls are open. -/
  depth : Nat := 0
  sink : Sink := {}

def EvalM (S α : Type) : Type :=
  State S → Except Stop α × State S

namespace EvalM

variable {S α β : Type}

@[always_inline, inline]
protected def pure (result : α) : EvalM S α :=
  fun state ↦ (.ok result, state)

@[always_inline, inline]
protected def bind (first : EvalM S α) (next : α → EvalM S β) : EvalM S β :=
  fun state ↦
    match first state with
    | (.ok result, after) => next result after
    | (.error stop, after) => (.error stop, after)

@[always_inline]
instance : Monad (EvalM S) where
  pure := EvalM.pure
  bind := EvalM.bind

theorem pure_apply (result : α) (state : State S) :
    (pure result : EvalM S α) state = (.ok result, state) :=
  rfl

theorem bind_apply (first : EvalM S α) (next : α → EvalM S β) (state : State S) :
    (first >>= next) state =
      match first state with
      | (.ok result, after) => next result after
      | (.error stop, after) => (.error stop, after) :=
  rfl

theorem bind_pure_apply (computation : EvalM S α) (change : α → β) (state : State S) :
    (computation >>= fun result ↦ pure (change result)) state =
      ((computation state).1.map change, (computation state).2) := by
  rw [bind_apply]
  rcases computation state with ⟨_ | _, after⟩ <;> rfl

instance : LawfulMonad (EvalM S) :=
  LawfulMonad.mk' (EvalM S)
    (fun computation ↦ funext fun state ↦ by
      show EvalM.bind computation (fun result ↦ EvalM.pure (id result)) state = computation state
      simp only [EvalM.bind, EvalM.pure, id]
      split <;> simp_all)
    (fun _ _ ↦ rfl)
    (fun computation first second ↦ funext fun state ↦ by
      show EvalM.bind (EvalM.bind computation first) second state =
        EvalM.bind computation (fun result ↦ EvalM.bind (first result) second) state
      simp only [EvalM.bind]
      obtain ⟨_ | _, _⟩ := computation state <;> rfl)

/-- There was not enough fuel to come to an end. -/
def outOfFuel : EvalM S α :=
  fun state ↦ (.error .outOfFuel, state)

@[inline]
def fail (fault : Fault) (line : Line) : EvalM S α :=
  fun state ↦ (.error (.error ⟨fault, line⟩), state)

/-- The result of an operator at a line. -/
@[inline]
def ofExcept (line : Line) : Except Fault α → EvalM S α
  | .ok result => pure result
  | .error fault => fail fault line

/-- Writes a text to the sink. -/
def write (line : Line) (text : String) : EvalM S Unit :=
  fun ⟨scopes, depth, sink⟩ ↦
    let bytes := utf8 text
    let outcome :=
      if sink.fits bytes then .ok () else .error (.error ⟨.output sink.refusal.message, line⟩)
    (outcome, ⟨scopes, depth, sink.write line bytes⟩)

theorem write_apply (line : Line) (text : String) (state : State S) :
    write line text state =
      (if state.sink.fits (utf8 text) then .ok ()
        else .error (.error ⟨.output state.sink.refusal.message, line⟩),
      { state with sink := state.sink.write line (utf8 text) }) :=
  rfl

theorem write_stop {line : Line} {text : String} {state : State S} {stop : Stop}
    (h : (write line text state).1 = .error stop) :
    stop = .error ⟨.output state.sink.refusal.message, line⟩ := by
  rw [write_apply] at h
  dsimp only at h
  split at h
  · cases h
  · cases h
    rfl

/-- Runs the body of a call, one call deeper. A body that would be deeper than the limit is not
run; one that is run leaves the depth as it was, also when it stops before its end. -/
def deeper (limit : Nat) (line : Line) (body : EvalM S α) : EvalM S α :=
  fun state ↦
    if state.depth < limit then
      let (outcome, after) := body { state with depth := state.depth + 1 }
      (outcome, { after with depth := after.depth - 1 })
    else
      (.error (.error ⟨.stackOverflow limit, line⟩), state)

section Scopes

variable {T : Type} [Scopes S] [Scopes T]

/-- Opens a frame under an outer one. -/
def openFrame (outer : FrameId) : EvalM S FrameId :=
  fun state ↦
    let (inner, scopes) := Scopes.openFrame state.scopes (some outer)
    (.ok inner, { state with scopes })

/-- The value of a variable. -/
def read (env : FrameId) (name : String) (line : Line) : EvalM S Value :=
  fun state ↦
    match Scopes.get? state.scopes env name with
    | some (.set value) => (.ok value, state)
    | some .unset => (.error (.error ⟨.uninitializedIdentifier name, line⟩), state)
    | none => (.error (.error ⟨.undeclaredIdentifier name, line⟩), state)

def assign (env : FrameId) (name : String) (value : Value) : EvalM S Unit :=
  fun state ↦ (.ok (), { state with scopes := Scopes.assign state.scopes env name value })

def declare (env : FrameId) (name : String) (binding : Binding) : EvalM S Unit :=
  fun state ↦ (.ok (), { state with scopes := Scopes.declare state.scopes env name binding })

def declareFunction (env : FrameId) (function : Function) : EvalM S Unit :=
  fun state ↦ (.ok (), { state with scopes := Scopes.declareFunction state.scopes env function })

/-- The function that a call names, provided that it takes as many arguments as the call has. -/
def resolve (env : FrameId) (name : String) (count : Nat) (line : Line) : EvalM S Closure :=
  fun state ↦
    match Scopes.closure? state.scopes env name with
    | none => (.error (.error ⟨.undeclaredFunction name, line⟩), state)
    | some closure =>
      let expected := closure.function.parameters.length
      if expected = count then
        (.ok closure, state)
      else
        (.error (.error ⟨.arityMismatch closure.function.name expected count, line⟩), state)

@[simp] theorem read_state (env : FrameId) (name : String) (line : Line) (state : State S) :
    (read env name line state).2 = state := by
  unfold read
  split <;> rfl

@[simp] theorem resolve_state (env : FrameId) (name : String) (count : Nat) (line : Line)
    (state : State S) : (resolve env name count line state).2 = state := by
  unfold resolve
  split
  · rfl
  · dsimp only
    split <;> rfl

theorem read_stop {env : FrameId} {name : String} {line : Line} {state : State S} {stop : Stop}
    (h : (read env name line state).1 = .error stop) :
    Scopes.get? state.scopes env name = some .unset ∧
        stop = .error ⟨.uninitializedIdentifier name, line⟩ ∨
      Scopes.get? state.scopes env name = none ∧
        stop = .error ⟨.undeclaredIdentifier name, line⟩ := by
  unfold read at h
  split at h
  · cases h
  · rename_i hunset
    cases h
    exact .inl ⟨hunset, rfl⟩
  · rename_i hnone
    cases h
    exact .inr ⟨hnone, rfl⟩

theorem resolve_stop {env : FrameId} {name : String} {count : Nat} {line : Line}
    {state : State S} {stop : Stop} (h : (resolve env name count line state).1 = .error stop) :
    Scopes.closure? state.scopes env name = none ∧
        stop = .error ⟨.undeclaredFunction name, line⟩ ∨
      ∃ closure, Scopes.closure? state.scopes env name = some closure ∧
        closure.function.parameters.length ≠ count ∧
        stop = .error ⟨.arityMismatch closure.function.name closure.function.parameters.length
          count, line⟩ := by
  unfold resolve at h
  split at h
  · rename_i hnone
    cases h
    exact .inl ⟨hnone, rfl⟩
  · rename_i closure hclosure
    dsimp only at h
    split at h
    · cases h
    · rename_i harity
      cases h
      exact .inr ⟨closure, hclosure, harity, rfl⟩

/-- What is read depends on the nearest binding alone. -/
theorem read_congr {env env' : FrameId} {name : String} {s : State S} {t : State T}
    (h : Scopes.get? t.scopes env' name = Scopes.get? s.scopes env name) (line : Line) :
    (read env' name line t).1 = (read env name line s).1 := by
  unfold read
  rw [h]
  split <;> rfl

/-- A call is resolved to the nearest function of its name if that takes its arguments. -/
theorem resolve_eq_ok_iff {env : FrameId} {name : String} {count : Nat} {line : Line}
    {state : State S} {closure : Closure} :
    (resolve env name count line state).1 = .ok closure ↔
      Scopes.closure? state.scopes env name = some closure ∧
        closure.function.parameters.length = count := by
  unfold resolve
  cases hfound : Scopes.closure? state.scopes env name with
  | none => simp
  | some found =>
    by_cases harity : found.function.parameters.length = count
    · simp only [harity, if_true, Except.ok.injEq, Option.some.injEq]
      exact ⟨fun h ↦ ⟨h, h ▸ harity⟩, fun h ↦ h.1⟩
    · simp only [harity, if_false, reduceCtorEq, Option.some.injEq, false_iff]
      exact fun h ↦ harity (h.1 ▸ h.2)

theorem resolve_congr {env env' : FrameId} {name : String} {s : State S} {t : State T}
    (h : Scopes.closure? t.scopes env' name = Scopes.closure? s.scopes env name) (count : Nat)
    (line : Line) :
    (resolve env' name count line t).1 = (resolve env name count line s).1 := by
  unfold resolve
  rw [h]
  split
  · rfl
  · dsimp only
    split <;> rfl

end Scopes

end EvalM

end Treewalk
