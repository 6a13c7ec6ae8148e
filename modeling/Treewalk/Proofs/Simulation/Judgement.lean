import Treewalk.Eval.Loop

/-!
# Two runs side by side

A `Simulation` says how the states of two runs are related while both are under way (`linked`) and
once the first has stopped and the second goes on alone (`parted`), and which of their frames
correspond. `Simulation.Matches` relates two computations: from linked states they come to equal
results and linked states, or stop alike, or part; and from parted states the second computation
keeps the states parted. The rules of this module lead from the parts of a computation to the whole.

The second half of the judgement is about one run alone. A simulation whose states are never linked
is therefore an invariant of the second run, stated relative to a fixed first state.

Facts about frames may come to hold only as frames are opened. They depend on a stage, a number
that only grows along a run.
-/

set_option autoImplicit false
set_option relaxedAutoImplicit false

namespace Treewalk

structure Simulation (S T : Type) where
  /-- Both runs are under way. -/
  linked : Nat → State S → State T → Prop
  /-- The first run has stopped, and the second goes on. -/
  parted : Nat → Stop → State S → State T → Prop
  /-- How the second run may stop when it is alone. -/
  ends : Stop → Prop
  /-- The frames in which both runs may evaluate an expression. -/
  site : Nat → FrameId → FrameId → Prop
  /-- The frames in which both runs may run a statement. -/
  home : Nat → FrameId → FrameId → Prop

namespace Simulation

variable {S T α β γ δ : Type} (σ : Simulation S T)

/-- What the second run has come to after the first has stopped. -/
def Parted (stage : Nat) (post : Nat → α → β → Prop) (stop : Stop) (s : State S)
    (second : Except Stop β × State T) : Prop :=
  ∃ later, stage ≤ later ∧ σ.parted later stop s second.2 ∧
    (∀ b, second.1 = .ok b → ∃ a, post later a b) ∧
    ∀ stop', second.1 = .error stop' → σ.ends stop'

/-- What two runs that started under way have come to. -/
inductive Joined (stage : Nat) (post : Nat → α → β → Prop) :
    Except Stop α × State S → Except Stop β × State T → Prop
  | completed {later : Nat} {a : α} {b : β} {s : State S} {t : State T} (hlater : stage ≤ later)
      (hlinked : σ.linked later s t) (hpost : post later a b) :
      Joined stage post (.ok a, s) (.ok b, t)
  | stopped {later : Nat} {stop : Stop} {s : State S} {t : State T} (hlater : stage ≤ later)
      (hlinked : σ.linked later s t) : Joined stage post (.error stop, s) (.error stop, t)
  | parted {stop : Stop} {s : State S} {second : Except Stop β × State T}
      (hparted : σ.Parted stage post stop s second) : Joined stage post (.error stop, s) second

structure Matches (stage : Nat) (post : Nat → α → β → Prop) (first : EvalM S α)
    (second : EvalM T β) : Prop where
  together : ∀ s t, σ.linked stage s t → σ.Joined stage post (first s) (second t)
  alone : ∀ stop s t, σ.parted stage stop s t → σ.Parted stage post stop s (second t)

/-- Two computations that match with equal results. -/
abbrev Agrees (stage : Nat) (first : EvalM S α) (second : EvalM T α) : Prop :=
  σ.Matches stage (fun _ a b ↦ a = b) first second

/-- The two runs stay together to the end. -/
def Unparted : Prop :=
  ∀ stage stop s t, ¬ σ.parted stage stop s t

/-- The two runs may end differently for want of fuel. -/
def Interruptible : Prop :=
  ∀ stage s t, σ.linked stage s t → σ.parted stage .outOfFuel s t

/-- What the opening and closing of a call does to two runs under these limits. -/
structure Levels (limit limit' : Nat) : Prop where
  enter : ∀ {stage s t}, σ.linked stage s t → s.depth < limit → t.depth < limit' ∧
    σ.linked stage { s with depth := s.depth + 1 } { t with depth := t.depth + 1 }
  /-- A call that the first run refuses is refused by the second too, or it parts the runs. -/
  refuse : ∀ {stage s t} line, σ.linked stage s t → ¬ s.depth < limit →
    limit' = limit ∧ ¬ t.depth < limit' ∨ σ.parted stage (.error ⟨.stackOverflow limit, line⟩) s t
  leave : ∀ {stage s t}, σ.linked stage s t →
    σ.linked stage { s with depth := s.depth - 1 } { t with depth := t.depth - 1 }
  leave_first : ∀ {stage stop s t}, σ.parted stage stop s t →
    σ.parted stage stop { s with depth := s.depth - 1 } t
  move_second : ∀ {stage stop s t} depth, σ.parted stage stop s t →
    σ.parted stage stop s { t with depth }
  ends : ∀ line, σ.ends (.error ⟨.stackOverflow limit', line⟩)

/-- The fuel of two runs. The second may have more if the runs may part over it. -/
structure Fuels (fuel fuel' : Nat) : Prop where
  le : fuel ≤ fuel'
  interruptible : fuel < fuel' → σ.Interruptible

variable {σ} {stage later : Nat} {post : Nat → α → β → Prop} {post' : Nat → γ → δ → Prop}

/-! ### Sequences -/

theorem Parted.weaken {stop : Stop} {s : State S} {second : Except Stop β × State T}
    (hlater : stage ≤ later) (h : σ.Parted later post stop s second) :
    σ.Parted stage post stop s second := by
  obtain ⟨last, hlast, hparted, hpost⟩ := h
  exact ⟨last, Nat.le_trans hlater hlast, hparted, hpost⟩

theorem Joined.weaken {first : Except Stop α × State S} {second : Except Stop β × State T}
    (hlater : stage ≤ later) (h : σ.Joined later post first second) :
    σ.Joined stage post first second := by
  cases h with
  | completed hlast hlinked hpost => exact .completed (Nat.le_trans hlater hlast) hlinked hpost
  | stopped hlast hlinked => exact .stopped (Nat.le_trans hlater hlast) hlinked
  | parted hparted => exact .parted (hparted.weaken hlater)

/-- Runs that have come to one outcome in linked states. -/
theorem Joined.alike {outcome : Except Stop α} {post : Nat → α → α → Prop} {s : State S}
    {t : State T} (hlinked : σ.linked stage s t) (hpost : ∀ a, outcome = .ok a → post stage a a) :
    σ.Joined stage post (outcome, s) (outcome, t) := by
  cases outcome with
  | ok a => exact .completed (Nat.le_refl stage) hlinked (hpost a rfl)
  | error stop => exact .stopped (Nat.le_refl stage) hlinked

theorem Matches.pure {a : α} {b : β} (hpost : post stage a b) :
    σ.Matches stage post (Pure.pure a : EvalM S α) (Pure.pure b : EvalM T β) where
  together _ _ hlinked := .completed (Nat.le_refl _) hlinked hpost
  alone _ _ _ hparted :=
    ⟨stage, Nat.le_refl _, hparted, fun _ hb ↦ by cases hb; exact ⟨a, hpost⟩, nofun⟩

/-- A second run that stops where it is. -/
theorem Parted.stop {stop stop' : Stop} {s : State S} {t : State T}
    (hparted : σ.parted stage stop s t) (hends : σ.ends stop') :
    σ.Parted stage post stop s (.error stop', t) :=
  ⟨stage, Nat.le_refl _, hparted, nofun, fun _ hstop ↦ by cases hstop; exact hends⟩

/-- A stop of both runs with the same error. -/
theorem Matches.fail {fault : Fault} {line : Line} (hends : σ.ends (.error ⟨fault, line⟩)) :
    σ.Matches stage post (EvalM.fail fault line : EvalM S α)
      (EvalM.fail fault line : EvalM T β) where
  together _ _ hlinked := .stopped (Nat.le_refl _) hlinked
  alone _ _ _ hparted := Parted.stop hparted hends

theorem Matches.outOfFuel (hends : σ.ends .outOfFuel) :
    σ.Matches stage post (EvalM.outOfFuel : EvalM S α) (EvalM.outOfFuel : EvalM T β) where
  together _ _ hlinked := .stopped (Nat.le_refl _) hlinked
  alone _ _ _ hparted := Parted.stop hparted hends

theorem Matches.ofExcept {line : Line} {outcome : Except Fault α}
    (hends : ∀ fault, outcome = .error fault → σ.ends (.error ⟨fault, line⟩)) :
    σ.Agrees stage (EvalM.ofExcept line outcome) (EvalM.ofExcept line outcome) := by
  cases outcome with
  | ok result => exact .pure rfl
  | error fault => exact .fail (hends fault rfl)

/-- Computations that only look at the states, and see the same. -/
theorem Matches.readOnly (hunparted : σ.Unparted) {first : EvalM S α} {second : EvalM T α}
    {post : Nat → α → α → Prop} (hfirst : ∀ s, (first s).2 = s) (hsecond : ∀ t, (second t).2 = t)
    (houtcome : ∀ s t, σ.linked stage s t → (second t).1 = (first s).1)
    (hpost : ∀ s t a, σ.linked stage s t → (first s).1 = .ok a → post stage a a) :
    σ.Matches stage post first second where
  together s t hlinked := by
    have hleft : first s = ((first s).1, s) := Prod.ext rfl (hfirst s)
    have hright : second t = ((first s).1, t) := Prod.ext (houtcome s t hlinked) (hsecond t)
    rw [hright, hleft]
    exact .alike hlinked fun a ↦ hpost s t a hlinked
  alone stop s t hparted := absurd hparted (hunparted stage stop s t)

/-- A second run that is alone stays so over what follows. -/
theorem Parted.bind {second : Except Stop β × State T} {stop : Stop} {s : State S}
    {next : α → EvalM S γ} {next' : β → EvalM T δ}
    (hnext : ∀ later, stage ≤ later → ∀ a b, post later a b →
      σ.Matches later post' (next a) (next' b)) :
    σ.Parted stage post stop s second → σ.Parted stage post' stop s
      (match second with
      | (.ok result, after) => next' result after
      | (.error stop, after) => (.error stop, after)) := by
  rintro ⟨later, hlater, hparted, hpost, hends⟩
  obtain ⟨stop' | b, after⟩ := second
  · exact (Parted.stop hparted (hends stop' rfl)).weaken hlater
  · obtain ⟨a, ha⟩ := hpost b rfl
    exact ((hnext later hlater a b ha).alone stop s after hparted).weaken hlater

theorem Matches.bind {first : EvalM S α} {second : EvalM T β} {next : α → EvalM S γ}
    {next' : β → EvalM T δ} (hfirst : σ.Matches stage post first second)
    (hnext : ∀ later, stage ≤ later → ∀ a b, post later a b →
      σ.Matches later post' (next a) (next' b)) :
    σ.Matches stage post' (first >>= next) (second >>= next') where
  together s t hlinked := by
    have hjoined := hfirst.together s t hlinked
    rw [EvalM.bind_apply, EvalM.bind_apply]
    generalize first s = left, second t = right at hjoined ⊢
    cases hjoined with
    | completed hlater hlinked hpost =>
      exact ((hnext _ hlater _ _ hpost).together _ _ hlinked).weaken hlater
    | stopped hlater hlinked => exact .stopped hlater hlinked
    | parted hparted => exact .parted (Parted.bind hnext hparted)
  alone stop s t hparted := Parted.bind hnext (hfirst.alone stop s t hparted)

/-- Less may be said of the results. -/
theorem Matches.mono {post₁ post₂ : Nat → α → β → Prop} {first : EvalM S α} {second : EvalM T β}
    (h : σ.Matches stage post₁ first second)
    (hpost : ∀ later a b, post₁ later a b → post₂ later a b) :
    σ.Matches stage post₂ first second := by
  have hbind : σ.Matches stage post₂ (first >>= Pure.pure) (second >>= Pure.pure) :=
    h.bind fun later _ a b hab ↦ .pure (hpost later a b hab)
  rwa [bind_pure, bind_pure] at hbind

/-- Where the first parts agree, the rest is compared at equal results. -/
theorem Matches.bind_agrees {first : EvalM S α} {second : EvalM T α} {next : α → EvalM S γ}
    {next' : α → EvalM T δ} (hfirst : σ.Agrees stage first second)
    (hnext : ∀ later, stage ≤ later → ∀ a, σ.Matches later post' (next a) (next' a)) :
    σ.Matches stage post' (first >>= next) (second >>= next') :=
  hfirst.bind fun later hlater a _ hab ↦ hab ▸ hnext later hlater a

theorem Matches.andThen {first rest : EvalM S Flow} {first' rest' : EvalM T Flow}
    (hfirst : σ.Agrees stage first first')
    (hrest : ∀ later, stage ≤ later → σ.Agrees later rest rest') :
    σ.Agrees stage (EvalM.andThen first rest) (EvalM.andThen first' rest') := by
  refine hfirst.bind_agrees ?_
  intro later hlater flow
  cases flow with
  | normal => exact hrest later hlater
  | returned value => exact .pure rfl

/-- Runs that never part come to one outcome in linked states. -/
theorem Matches.lockstep {first : EvalM S α} {second : EvalM T α}
    (h : σ.Agrees stage first second) (hunparted : σ.Unparted) {s : State S} {t : State T}
    (hlinked : σ.linked stage s t) :
    (second t).1 = (first s).1 ∧ ∃ later, σ.linked later (first s).2 (second t).2 := by
  have hjoined := h.together s t hlinked
  generalize first s = left, second t = right at hjoined ⊢
  cases hjoined with
  | completed _ hafter hresult => exact ⟨congrArg Except.ok hresult.symm, _, hafter⟩
  | stopped _ hafter => exact ⟨rfl, _, hafter⟩
  | parted hsecond =>
    obtain ⟨_, _, halone, _⟩ := hsecond
    exact absurd halone (hunparted _ _ _ _)

/-! ### Calls -/

theorem Parted.change (change : State S → State S) (change' : State T → State T) {stop : Stop}
    {s : State S} {second : Except Stop β × State T}
    (hparted : ∀ later t, σ.parted later stop s t → σ.parted later stop (change s) (change' t))
    (h : σ.Parted stage post stop s second) :
    σ.Parted stage post stop (change s) (second.1, change' second.2) := by
  obtain ⟨later, hlater, hsecond, hpost⟩ := h
  exact ⟨later, hlater, hparted later _ hsecond, hpost⟩

/-- What is done to both states when the two runs have come to an end. -/
theorem Joined.change (change : State S → State S) (change' : State T → State T)
    (hlinked : ∀ later s t, σ.linked later s t → σ.linked later (change s) (change' t))
    (hparted : ∀ later stop s t, σ.parted later stop s t →
      σ.parted later stop (change s) (change' t))
    {first : Except Stop α × State S} {second : Except Stop β × State T}
    (h : σ.Joined stage post first second) :
    σ.Joined stage post (first.1, change first.2) (second.1, change' second.2) := by
  cases h with
  | completed hlater hboth hpost => exact .completed hlater (hlinked _ _ _ hboth) hpost
  | stopped hlater hboth => exact .stopped hlater (hlinked _ _ _ hboth)
  | parted hsecond =>
    exact .parted (hsecond.change change change' fun later t ↦ hparted later _ _ t)

theorem Matches.deeper {limit limit' : Nat} (hlevels : σ.Levels limit limit') {first : EvalM S α}
    {second : EvalM T β} (line : Line) (h : σ.Matches stage post first second) :
    σ.Matches stage post (EvalM.deeper limit line first) (EvalM.deeper limit' line second) := by
  have halone : ∀ stop s t, σ.parted stage stop s t →
      σ.Parted stage post stop s (EvalM.deeper limit' line second t) := by
    intro stop s t hparted
    unfold EvalM.deeper
    by_cases hroom : t.depth < limit'
    · rw [if_pos hroom]
      exact (h.alone stop s _ (hlevels.move_second _ hparted)).change id
        (fun t ↦ { t with depth := t.depth - 1 }) fun _ _ hafter ↦ hlevels.move_second _ hafter
    · rw [if_neg hroom]
      exact Parted.stop hparted (hlevels.ends line)
  refine ⟨fun s t hlinked ↦ ?_, halone⟩
  by_cases hroom : s.depth < limit
  · obtain ⟨hroom', hdeeper⟩ := hlevels.enter hlinked hroom
    unfold EvalM.deeper
    rw [if_pos hroom, if_pos hroom']
    exact (h.together _ _ hdeeper).change (fun s ↦ { s with depth := s.depth - 1 })
      (fun t ↦ { t with depth := t.depth - 1 }) (fun _ _ _ hafter ↦ hlevels.leave hafter)
      fun _ _ _ _ hafter ↦ hlevels.leave_first (hlevels.move_second _ hafter)
  · have hfirst : EvalM.deeper limit line first s =
        (.error (.error ⟨.stackOverflow limit, line⟩), s) := if_neg hroom
    rw [hfirst]
    rcases hlevels.refuse line hlinked hroom with ⟨rfl, hroom'⟩ | hparted
    · have hsecond : EvalM.deeper limit' line second t =
          (.error (.error ⟨.stackOverflow limit', line⟩), t) := if_neg hroom'
      rw [hsecond]
      exact .stopped (Nat.le_refl stage) hlinked
    · exact .parted (halone _ s t hparted)

/-! ### Fuel -/

theorem Matches.exhausted {first : EvalM S α} {second : EvalM T β}
    (hinterruptible : σ.Interruptible) (h : σ.Matches stage post first second) :
    σ.Matches stage post EvalM.outOfFuel second where
  together s t hlinked := .parted (h.alone .outOfFuel s t (hinterruptible stage s t hlinked))
  alone := h.alone

theorem Fuels.refl (fuel : Nat) : σ.Fuels fuel fuel :=
  ⟨Nat.le_refl fuel, fun h ↦ absurd h (Nat.lt_irrefl fuel)⟩

/-- Computations that take one unit of fuel a step match at all fuels once their steps do. -/
@[elab_as_elim]
theorem Fuels.induction {motive : Nat → Nat → Prop} {fuel fuel' : Nat} (h : σ.Fuels fuel fuel')
    (zero : motive 0 0)
    (succ : ∀ fuel fuel', σ.Fuels fuel fuel' → motive fuel fuel' →
      motive (fuel + 1) (fuel' + 1))
    (exhausted : ∀ fuel, σ.Interruptible → motive fuel fuel → motive 0 fuel) :
    motive fuel fuel' := by
  have hdiagonal : ∀ fuel, motive fuel fuel := by
    intro fuel
    induction fuel with
    | zero => exact zero
    | succ fuel ih => exact succ fuel fuel (.refl fuel) ih
  induction fuel' generalizing fuel with
  | zero =>
    obtain rfl : fuel = 0 := Nat.le_zero.mp h.le
    exact zero
  | succ fuel' ih =>
    cases fuel with
    | zero => exact exhausted (fuel' + 1) (h.interruptible (Nat.succ_pos fuel')) (hdiagonal _)
    | succ fuel =>
      have hfuels : σ.Fuels fuel fuel' :=
        ⟨Nat.le_of_succ_le_succ h.le, fun hlt ↦ h.interruptible (Nat.succ_lt_succ hlt)⟩
      exact succ fuel fuel' hfuels (ih hfuels)

theorem Matches.whileLoop {test : EvalM S Bool} {test' : EvalM T Bool} {body : EvalM S Flow}
    {body' : EvalM T Flow} (hends : σ.ends .outOfFuel)
    (htest : ∀ later, stage ≤ later → σ.Agrees later test test')
    (hbody : ∀ later, stage ≤ later → σ.Agrees later body body') {fuel fuel' : Nat}
    (hfuels : σ.Fuels fuel fuel') :
    ∀ later, stage ≤ later →
      σ.Agrees later (EvalM.whileLoop test body fuel) (EvalM.whileLoop test' body' fuel') := by
  refine hfuels.induction ?zero ?succ ?exhausted
  case zero => exact fun _ _ ↦ .outOfFuel hends
  case succ =>
    intro fuel fuel' _ ih later hlater
    refine (htest later hlater).bind_agrees ?_
    intro next hnext holds
    have hstage : stage ≤ next := Nat.le_trans hlater hnext
    cases holds with
    | false => exact .pure rfl
    | true =>
      refine Matches.andThen (hbody next hstage) ?_
      intro last hlast
      exact ih last (Nat.le_trans hstage hlast)
  case exhausted =>
    exact fun fuel hinterruptible ih later hlater ↦ (ih later hlater).exhausted hinterruptible

theorem Matches.forLoop (progression : Progression) {setCounter : Float → EvalM S Unit}
    {setCounter' : Float → EvalM T Unit} {body : EvalM S Flow} {body' : EvalM T Flow}
    (hends : σ.ends .outOfFuel)
    (hset : ∀ later, stage ≤ later → ∀ current,
      σ.Agrees later (setCounter current) (setCounter' current))
    (hbody : ∀ later, stage ≤ later → σ.Agrees later body body') {fuel fuel' : Nat}
    (hfuels : σ.Fuels fuel fuel') :
    ∀ later, stage ≤ later → ∀ current,
      σ.Agrees later (EvalM.forLoop progression setCounter body fuel current)
        (EvalM.forLoop progression setCounter' body' fuel' current) := by
  refine hfuels.induction ?zero ?succ ?exhausted
  case zero => exact fun _ _ _ ↦ .outOfFuel hends
  case succ =>
    intro fuel fuel' _ ih later hlater current
    unfold EvalM.forLoop
    by_cases hincludes : progression.includes current = true
    · rw [if_pos hincludes, if_pos hincludes]
      refine (hset later hlater current).bind_agrees ?_
      intro next hnext _
      have hstage : stage ≤ next := Nat.le_trans hlater hnext
      refine Matches.andThen (hbody next hstage) ?_
      intro last hlast
      exact ih last (Nat.le_trans hstage hlast) _
    · rw [if_neg hincludes, if_neg hincludes]
      exact .pure rfl
  case exhausted =>
    intro fuel hinterruptible ih later hlater current
    exact (ih later hlater current).exhausted hinterruptible

end Simulation

end Treewalk
