import Mathlib.Data.ENat.Lattice
import Treewalk.Proofs.Eval.Sequence
import Treewalk.Proofs.Number.Order
import Treewalk.Scope.Store

/-!
# Counting loops

The rounds of a `for` loop are fixed before the first of them. Its bounds come to a progression
(`Bounds`), and the progression alone says with what number each round begins (`Progression.term`)
and how many rounds there are, which may be infinitely many (`Progression.count`). So the loop is a
sequence of rounds known in advance (`forLoop_eq_rounds`), whatever its body does to the counter or
to the variables and functions that the bounds were made of (`execStmt_forLoop_eq_rounds`).
-/

set_option autoImplicit false
set_option relaxedAutoImplicit false

namespace Treewalk

/-! ### Progressions -/

namespace Progression

/-- The numbers of a progression, each by one step from the one before. -/
def term (progression : Progression) : ℕ → Float
  | 0 => progression.start
  | index + 1 => progression.term index + progression.step

/-- The number of rounds: the index of the first number that the loop does not go on with, and
infinite if it goes on with all. -/
noncomputable def count (progression : Progression) : ℕ∞ :=
  ⨅ index ∈ {index : ℕ | progression.includes (progression.term index) = false}, (index : ℕ∞)

variable {progression : Progression}

/-- Towards a larger end a loop goes on with what is at most the end, and towards any other end with
what is at least the end. -/
@[simp]
theorem includes_iff {current : Float} :
    progression.includes current = true ↔
      if progression.start < progression.stop then current ≤ progression.stop
      else progression.stop ≤ current := by
  unfold includes isAscending
  simp only [decide_eq_true_eq, ge_iff_le]
  split_ifs <;> exact decide_eq_true_iff

/-- There is a round for a number if the loop goes on with it and with all numbers before. -/
theorem lt_count_iff {index : ℕ} :
    (index : ℕ∞) < progression.count ↔
      ∀ earlier ≤ index, progression.includes (progression.term earlier) = true := by
  rw [← ENat.add_one_le_iff (ENat.natCast_ne_top index), count, le_iInf₂_iff]
  constructor
  · intro hleast earlier hearlier
    by_contra hexcluded
    have hle := hleast earlier (Bool.eq_false_iff.mpr hexcluded)
    norm_cast at hle
    omega
  · intro hincluded excluded hexcluded
    norm_cast
    by_contra hle
    rw [Set.mem_ofPred_eq, hincluded excluded (by omega)] at hexcluded
    cases hexcluded

/-- The rounds end at a number that the loop does not go on with. -/
theorem includes_of_count_eq {total : ℕ} (h : progression.count = total) :
    progression.includes (progression.term total) = false := by
  have hend : ¬ (total : ℕ∞) < progression.count := by rw [h]; exact lt_irrefl _
  rw [lt_count_iff] at hend
  push Not at hend
  obtain ⟨excluded, hle, hexcluded⟩ := hend
  rcases hle.lt_or_eq with hlt | rfl
  · have hbefore : (excluded : ℕ∞) < progression.count := by rw [h]; exact_mod_cast hlt
    exact absurd (lt_count_iff.mp hbefore excluded le_rfl) hexcluded
  · exact Bool.eq_false_iff.mpr hexcluded

/-- From a number up to another, or down to it, there is always a first round. -/
theorem includes_start {start stop : Float} (hstart : start.isNaN = false)
    (hstop : stop.isNaN = false) (step : Float) :
    (Progression.mk start stop step).includes start := by
  rw [includes_iff]
  dsimp only
  split_ifs with hascending
  · exact Number.le_of_lt hascending
  · exact Number.le_of_not_lt hstart hstop hascending

/-- Only NaN keeps a loop from its first round. -/
theorem one_le_count_iff :
    1 ≤ progression.count ↔
      progression.start.isNaN = false ∧ progression.stop.isNaN = false := by
  have hfirst : 1 ≤ progression.count ↔ progression.includes progression.start = true := by
    rw [Order.one_le_iff_ne_zero, ← pos_iff_ne_zero, ← Nat.cast_zero, lt_count_iff]
    exact ⟨fun h ↦ h 0 le_rfl, fun h earlier hearlier ↦ Nat.le_zero.mp hearlier ▸ h⟩
  rw [hfirst]
  constructor
  · intro h
    rw [includes_iff] at h
    split_ifs at h
    · exact Number.isNaN_of_le h
    · exact (Number.isNaN_of_le h).symm
  · rintro ⟨hstart, hstop⟩
    exact includes_start hstart hstop progression.step

end Progression

/-! ### Rounds -/

namespace EvalM

variable {S : Type}

/-- The first rounds of a loop, up to the first that returns. -/
def rounds (round : ℕ → EvalM S Flow) : ℕ → EvalM S Flow
  | 0 => pure .normal
  | total + 1 => andThen (rounds round total) (round total)

theorem rounds_congr {round round' : ℕ → EvalM S Flow} {total : ℕ}
    (h : ∀ index < total, round index = round' index) :
    rounds round total = rounds round' total := by
  induction total with
  | zero => rfl
  | succ total ih =>
    rw [rounds, rounds, ih fun index hindex ↦ h index (hindex.trans total.lt_succ_self),
      h total total.lt_succ_self]

/-- A round that does not complete is the last. -/
theorem rounds_eq_of_le {round : ℕ → EvalM S Flow} {state : State S} {last total : ℕ}
    (hlast : (rounds round last state).1 ≠ .ok .normal) (hle : last ≤ total) :
    rounds round total state = rounds round last state := by
  induction total, hle using Nat.le_induction with
  | base => rfl
  | succ total hle ih =>
    rw [rounds, andThen, bind_apply, ih]
    rcases hrounds : rounds round last state with ⟨stop | flow, after⟩
    · rfl
    · cases flow with
      | normal => exact absurd (congrArg Prod.fst hrounds) hlast
      | returned value => rfl

variable {progression : Progression} {setCounter : Float → EvalM S Unit} {body : EvalM S Flow}

/-- One round of a counting loop. -/
def countingRound (progression : Progression) (setCounter : Float → EvalM S Unit)
    (body : EvalM S Flow) (index : ℕ) : EvalM S Flow := do
  setCounter (progression.term index)
  body

/-- A counting loop is any number of its rounds and then the rest of the loop. -/
theorem forLoop_eq_andThen {passed fuel : ℕ} (hcount : (passed : ℕ∞) ≤ progression.count)
    (hfuel : passed ≤ fuel) :
    forLoop progression setCounter body fuel progression.start =
      andThen (rounds (countingRound progression setCounter body) passed)
        (forLoop progression setCounter body (fuel - passed) (progression.term passed)) := by
  induction passed with
  | zero => rw [rounds, normal_andThen, Nat.sub_zero, Progression.term]
  | succ passed ih =>
    have hbefore : (passed : ℕ∞) < progression.count :=
      lt_of_lt_of_le (by exact_mod_cast passed.lt_succ_self) hcount
    have hincluded := Progression.lt_count_iff.mp hbefore passed le_rfl
    obtain ⟨later, rfl⟩ := Nat.exists_eq_add_of_le hfuel
    -- The first round of the rest of the loop becomes the last of the rounds before it.
    have hround : forLoop progression setCounter body (later + 1) (progression.term passed) =
        andThen (countingRound progression setCounter body passed)
          (forLoop progression setCounter body later (progression.term (passed + 1))) := by
      rw [forLoop, if_pos hincluded, andThen, andThen, countingRound, bind_assoc]
      rfl
    rw [ih hbefore.le (by omega), show passed + 1 + later - passed = later + 1 by omega, hround,
      ← andThen_assoc, show passed + 1 + later - (passed + 1) = later by omega]
    rfl

/-- A counting loop with fuel for all its rounds and the end is just these rounds; with less, it
goes as far as the fuel reaches. -/
theorem forLoop_eq_rounds (progression : Progression) (setCounter : Float → EvalM S Unit)
    (body : EvalM S Flow) (fuel : ℕ) :
    forLoop progression setCounter body fuel progression.start =
      andThen
        (rounds (countingRound progression setCounter body)
          (min (fuel : ℕ∞) progression.count).toNat)
        (if progression.count < fuel then pure .normal else outOfFuel) := by
  by_cases henough : progression.count < fuel
  · obtain ⟨total, htotal⟩ := ENat.ne_top_iff_exists.mp henough.ne_top
    have hlt : total < fuel := by rw [← htotal] at henough; exact_mod_cast henough
    obtain ⟨later, rfl⟩ := Nat.exists_eq_add_of_lt hlt
    rw [forLoop_eq_andThen htotal.le hlt.le, if_pos henough, min_eq_right henough.le, ← htotal,
      ENat.toNat_natCast, show total + later + 1 - total = later + 1 by omega, forLoop,
      Progression.includes_of_count_eq htotal.symm]
    rfl
  · have hle := not_lt.mp henough
    rw [forLoop_eq_andThen hle le_rfl, if_neg henough, min_eq_left hle, ENat.toNat_natCast,
      Nat.sub_self, forLoop]

end EvalM

/-! ### Bounds -/

open EvalM

variable {S : Type} [Scopes S]

/-- The bounds of a loop come to numbers, each bound evaluated once and in order: from a state to
the progression of the loop and to the state in which its rounds begin. -/
inductive Bounds (invoke : Invoke S) (env : FrameId) (start stop : Expr) (state : State S) :
    Option Expr → Progression → State S → Prop
  /-- A loop that names no step counts by one towards its end. -/
  | byOne {first last : Number} {afterStart afterStop : State S}
      (hstart : evalExpr invoke env start state = (.ok (.number first), afterStart))
      (hstop : evalExpr invoke env stop afterStart = (.ok (.number last), afterStop)) :
      Bounds invoke env start stop state none
        ⟨first.toFloat, last.toFloat, if first.toFloat < last.toFloat then 1 else -1⟩ afterStop
  | byStep {first last stride : Number} {step : Expr} {afterStart afterStop afterStep : State S}
      (hstart : evalExpr invoke env start state = (.ok (.number first), afterStart))
      (hstop : evalExpr invoke env stop afterStart = (.ok (.number last), afterStop))
      (hstep : evalExpr invoke env step afterStop = (.ok (.number stride), afterStep)) :
      Bounds invoke env start stop state (some step)
        ⟨first.toFloat, last.toFloat, stride.toFloat⟩ afterStep

section Bounds

variable {invoke : Invoke S} {env : FrameId} {start stop expr : Expr} {step : Option Expr}
  {number : Number} {progression : Progression} {state after : State S}

theorem evalBound_of_number (h : evalExpr invoke env expr state = (.ok (.number number), after))
    (bound : Bound) : evalBound invoke env bound expr state = (.ok number.toFloat, after) := by
  rw [evalBound, bind_of_ok h]
  rfl

theorem Bounds.evalProgression (h : Bounds invoke env start stop state step progression after) :
    evalProgression invoke env start stop step state = (.ok progression, after) := by
  unfold Treewalk.evalProgression
  cases h with
  | byOne hstart hstop =>
    rw [bind_of_ok (evalBound_of_number hstart _), bind_of_ok (evalBound_of_number hstop _)]
    simp [pure_apply, Progression.defaultStep, Progression.isAscending]
  | byStep hstart hstop hstep =>
    rw [bind_of_ok (evalBound_of_number hstart _), bind_of_ok (evalBound_of_number hstop _)]
    dsimp only
    rw [bind_of_ok (evalBound_of_number hstep _), pure_apply]

/-- The rounds of a `for` loop are fixed before the first of them. Once its bounds have come to a
progression, whatever its counter and its body, the loop opens one frame and runs as many rounds as
the progression has, or as the fuel allows if that is fewer. Each round assigns its number to the
counter from the frame of the loop, and runs the body in the frame opened. Nothing follows the last
round, and a round that does not complete is the last. There is a round for each number before the
first that lies beyond the end of the loop, so there is one unless an end is NaN. -/
theorem execStmt_forLoop_eq_rounds
    (h : Bounds invoke env start stop state step progression after) :
    (∀ (fuel : ℕ) (counter : String) (body : List Stmt) (line : Line),
      execStmt fuel invoke env (.forLoop counter start stop step body line) state =
        (do
          let inner ← openFrame env
          andThen
            (rounds
              (countingRound progression
                (fun current ↦ assign env counter (.number (.float current)))
                (execBlock fuel invoke inner body))
              (min (fuel : ℕ∞) progression.count).toNat)
            (if progression.count < fuel then pure .normal else outOfFuel)) after) ∧
    (∀ (round : ℕ → EvalM S Flow) (before : State S) (last total : ℕ), last ≤ total →
      (rounds round last before).1 ≠ .ok .normal →
        rounds round total before = rounds round last before) ∧
    (∀ index : ℕ, (index : ℕ∞) < progression.count ↔ ∀ earlier ≤ index,
      if progression.start < progression.stop then progression.term earlier ≤ progression.stop
      else progression.stop ≤ progression.term earlier) ∧
    (1 ≤ progression.count ↔
      progression.start.isNaN = false ∧ progression.stop.isNaN = false) := by
  refine ⟨fun fuel counter body line ↦ ?_, fun round before last total hle hlast ↦
    rounds_eq_of_le hlast hle, fun index ↦ ?_, Progression.one_le_count_iff⟩
  · unfold execStmt
    rw [bind_of_ok h.evalProgression]
    exact congrFun (bind_congr fun inner ↦ forLoop_eq_rounds _ _ _ fuel) after
  · rw [Progression.lt_count_iff]
    exact forall₂_congr fun _ _ ↦ Progression.includes_iff

end Bounds

/-- A loop up to a variable that its body sets beside the counter. -/
theorem execStmt_forLoop_eq_rounds_setInside :
    let state : State Store :=
      ⟨(({} : Store).openFrame none).2.declare 0 "n" (.set (.number (Number.ofInt64 2))), 0, {}⟩
    let body : List Stmt := [.assign "n" (.int 9 2) 2, .assign "i" (.int 9 3) 3]
    let progression : Progression :=
      ⟨(Number.ofInt64 1).toFloat, (Number.ofInt64 2).toFloat, (Number.ofInt64 1).toFloat⟩
    (∀ fuel, execStmt fuel (calls 100 fuel) 0
        (.forLoop "i" (.int 1 1) (.identifier "n" 1) (some (.int 1 1)) body 1) state =
      (do
        let inner ← openFrame 0
        andThen
          (rounds
            (countingRound progression (fun current ↦ assign 0 "i" (.number (.float current)))
              (execBlock fuel (calls 100 fuel) inner body))
            (min (fuel : ℕ∞) progression.count).toNat)
          (if progression.count < fuel then pure .normal else outOfFuel)) state) ∧
      1 ≤ progression.count := by
  intro state body progression
  have hbounds : ∀ fuel, Bounds (calls 100 fuel) 0 (.int 1 1) (.identifier "n" 1) state
      (some (.int 1 1)) progression state := by
    intro fuel
    have hone : evalExpr (calls 100 fuel) 0 (.int 1 1) state =
        (.ok (.number (Number.ofInt64 1)), state) := by
      unfold evalExpr
      rfl
    have hlast : evalExpr (calls 100 fuel) 0 (.identifier "n" 1) state =
        (.ok (.number (Number.ofInt64 2)), state) := by
      unfold evalExpr
      rfl
    exact .byStep hone hlast hone
  refine ⟨fun fuel ↦ (execStmt_forLoop_eq_rounds (hbounds fuel)).1 fuel "i" body 1, ?_⟩
  exact (execStmt_forLoop_eq_rounds (hbounds 0)).2.2.2.mpr
    ⟨Number.isNaN_ofInt64 1, Number.isNaN_ofInt64 2⟩

end Treewalk
