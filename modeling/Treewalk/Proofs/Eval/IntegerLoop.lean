import Treewalk.Proofs.Eval.Counting
import Treewalk.Proofs.Number.Reach

/-!
# Loops over integers

A `for` loop from one integer to another counts in doubles. Within reach it visits every integer
between them once and ends; out of reach there is an integer between them that is no double, or the
loop goes on at its last integer for ever (`integer_loop`).
-/

set_option autoImplicit false
set_option relaxedAutoImplicit false

namespace Treewalk

open Number EvalM

/-! ### The progression of a loop -/

/-- The numbers of a loop from one integer to another. -/
def integers (first last : ℤ) : Progression :=
  ⟨ofInt first, ofInt last, ofInt (stride first last)⟩

section Progression

variable {first last : ℤ}

section Exact

variable (hfirst : first.natAbs ≤ 2 ^ 63) (hlast : last.natAbs ≤ 2 ^ 63)
  (hexact : AllDoubles first last)

include hfirst hlast hexact

/-- While its integers are doubles, a loop counts as they are counted. -/
theorem term_integers {index : ℕ} (hindex : index ≤ (last - first).natAbs + 1) :
    (integers first last).term index = ofInt (visited first last index) := by
  induction index with
  | zero => rw [Progression.term, visited, Nat.cast_zero, mul_zero, add_zero, integers]
  | succ index ih =>
    have hvisited := visited_eq first last index
    have hnext : visited first last (index + 1) =
        visited first last index + stride first last := by
      unfold visited
      push_cast
      ring
    rw [Progression.term, ih (by omega), integers,
      ofInt_add_stride (by omega) (stride_eq first last), hexact index (by omega), hnext]

theorem includes_integers {n : ℤ} (hn : n.natAbs < 2 ^ 64) :
    (integers first last).includes (ofInt n) ↔
      if first < last then nearestInt n ≤ last else last ≤ nearestInt n := by
  obtain ⟨hstart, hend⟩ := hexact.ends
  have hascending : ofInt first < ofInt last ↔ first < last := by
    rw [ofInt_lt_iff (by omega) (by omega), hstart, hend]
  rw [Progression.includes_iff, integers]
  dsimp only
  rw [if_congr hascending rfl rfl]
  split_ifs
  · rw [ofInt_le_iff hn (by omega), hend]
  · rw [ofInt_le_iff (by omega) hn, hend]

theorem includes_visited {index : ℕ} (hindex : index ≤ (last - first).natAbs) :
    (integers first last).includes ((integers first last).term index) := by
  have hvisited := visited_eq first last index
  rw [term_integers hfirst hlast hexact (by omega),
    includes_integers hfirst hlast hexact (by omega), hexact index hindex]
  split_ifs <;> omega

/-- After its last integer a loop that can leave it ends. -/
theorem count_of_leaves
    (hleaves : if first < last then last < nearestInt (last + 1)
      else nearestInt (last - 1) < last) :
    (integers first last).count = ((last - first).natAbs + 1 : ℕ) := by
  have hvisited := visited_eq first last ((last - first).natAbs + 1)
  apply le_antisymm
  · rw [← not_lt, Progression.lt_count_iff]
    intro hall
    have hincluded := hall _ le_rfl
    rw [term_integers hfirst hlast hexact le_rfl,
      includes_integers hfirst hlast hexact (by omega)] at hincluded
    split_ifs at hleaves hincluded with hlt
    · rw [show visited first last ((last - first).natAbs + 1) = last + 1 by omega] at hincluded
      omega
    · rw [show visited first last ((last - first).natAbs + 1) = last - 1 by omega] at hincluded
      omega
  · push_cast
    rw [ENat.add_one_le_iff (ENat.natCast_ne_top _), Progression.lt_count_iff]
    exact fun index ↦ includes_visited hfirst hlast hexact

/-- A loop that stays at its last integer goes on for ever. -/
theorem count_of_stays (hstays : nearestInt (last + stride first last) = last) :
    (integers first last).count = ⊤ := by
  have hstride := stride_eq first last
  have hbeyond : ∀ later, (integers first last).term ((last - first).natAbs + 1 + later) =
      ofInt (last + stride first last) := by
    intro later
    induction later with
    | zero =>
      have hvisited := visited_eq first last ((last - first).natAbs + 1)
      rw [add_zero, term_integers hfirst hlast hexact le_rfl]
      congr 1
      unfold stride
      split_ifs <;> omega
    | succ later ih =>
      rw [← add_assoc, Progression.term, ih, integers,
        ofInt_add_stride (by omega) (stride_eq first last), hstays]
  rw [ENat.eq_top_iff_forall_gt]
  intro index
  rw [Progression.lt_count_iff]
  intro earlier _
  by_cases hwithin : earlier ≤ (last - first).natAbs
  · exact includes_visited hfirst hlast hexact hwithin
  · obtain ⟨later, rfl⟩ :=
      Nat.exists_eq_add_of_le (show (last - first).natAbs + 1 ≤ earlier by omega)
    rw [hbeyond, includes_integers hfirst hlast hexact (by omega), hstays]
    split_ifs <;> exact le_rfl

end Exact

end Progression

/-! ### The loop -/

namespace EvalM

variable {S : Type}

/-- What runs out of fuel at last never completes. -/
theorem andThen_outOfFuel_ne (first : EvalM S Flow) (state : State S) :
    (andThen first outOfFuel state).1 ≠ .ok .normal := by
  intro h
  rw [andThen, bind_apply] at h
  generalize first state = outcome at h
  rcases outcome with ⟨stop | flow, after⟩
  · cases h
  · cases flow <;> cases h

/-- Rounds that complete where the rounds before them lead to pass through a state after each. -/
theorem exists_states {round : ℕ → EvalM S Flow} {total : ℕ} {state : State S}
    (h : ∀ index < total, ∀ before, rounds round index state = (.ok .normal, before) →
      (round index before).1 = .ok .normal) :
    ∃ states : ℕ → State S, states 0 = state ∧
      (∀ index < total, round index (states index) = (.ok .normal, states (index + 1))) ∧
      rounds round total state = (.ok .normal, states total) := by
  have hrounds : ∀ passed ≤ total, (rounds round passed state).1 = .ok .normal ∧
      ∀ index < passed, round index (rounds round index state).2 =
        (.ok .normal, (rounds round (index + 1) state).2) := by
    intro passed hpassed
    induction passed with
    | zero => exact ⟨rfl, nofun⟩
    | succ passed ih =>
      obtain ⟨hcompleted, hbefore⟩ := ih (by omega)
      have hround := h passed (by omega) _ (Prod.ext hcompleted rfl)
      have hstep :
          rounds round (passed + 1) state = round passed (rounds round passed state).2 := by
        rw [rounds, andThen, bind_of_ok (Prod.ext hcompleted rfl)]
      refine ⟨hstep ▸ hround, fun index hindex ↦ ?_⟩
      rcases Nat.lt_succ_iff_lt_or_eq.mp hindex with hlt | rfl
      · exact hbefore index hlt
      · rw [hstep]
        exact Prod.ext hround rfl
  obtain ⟨hcompleted, hall⟩ := hrounds total le_rfl
  exact ⟨fun index ↦ (rounds round index state).2, rfl, hall, Prod.ext hcompleted rfl⟩

end EvalM

theorem toInt_natAbs_le (n : Int64) : n.toInt.natAbs ≤ 2 ^ 63 := by
  have hlower := n.le_toInt
  have hupper := n.toInt_lt
  omega

section Rounds

variable {S : Type} [Scopes S]

/-- A round of a loop from one integer to another: it assigns the double of the integer it has come
to, and runs the body in the frame of the loop. -/
def visitingRound (fuel : ℕ) (invoke : Invoke S) (env inner : FrameId) (counter : String)
    (body : List Stmt) (first last : ℤ) (index : ℕ) : EvalM S Flow := do
  assign env counter (.number (.float (ofInt (visited first last index))))
  execBlock fuel invoke inner body

/-- A loop between integer literals comes to its end, with fuel for all its rounds, through one
round for each integer, provided that each round completes in the state in which the rounds before
it completed. -/
def VisitsEach (S : Type) [Scopes S] (first last : Int64) : Prop :=
  let total := (last.toInt - first.toInt).natAbs + 1
  ∀ (fuel : ℕ) (invoke : Invoke S) (env : FrameId) (counter : String) (body : List Stmt)
    (line firstLine lastLine : Line) (state : State S), total < fuel →
    let round (inner : FrameId) : ℕ → EvalM S Flow :=
      visitingRound fuel invoke env inner counter body first.toInt last.toInt
    (∀ inner opened, openFrame env state = (.ok inner, opened) →
      ∀ index < total, ∀ before, rounds (round inner) index opened = (.ok .normal, before) →
        (round inner index before).1 = .ok .normal) →
    ∃ (inner : FrameId) (states : ℕ → State S), openFrame env state = (.ok inner, states 0) ∧
      (∀ index < total, round inner index (states index) = (.ok .normal, states (index + 1))) ∧
      execStmt fuel invoke env
          (.forLoop counter (.int first firstLine) (.int last lastLine) none body line) state =
        (.ok .normal, states total)

end Rounds

section Loop

variable {S : Type} [Scopes S] {first last : Int64}

/-- A loop between integer literals counts through their progression. -/
theorem execStmt_forLoop_integers (hexact : AllDoubles first.toInt last.toInt) (fuel : ℕ)
    (invoke : Invoke S) (env : FrameId) (counter : String) (body : List Stmt)
    (line firstLine lastLine : Line) (state : State S) :
    execStmt fuel invoke env
        (.forLoop counter (.int first firstLine) (.int last lastLine) none body line) state =
      (do
        let inner ← openFrame env
        andThen
          (rounds
            (countingRound (integers first.toInt last.toInt)
              (fun current ↦ assign env counter (.number (.float current)))
              (execBlock fuel invoke inner body))
            (min (fuel : ℕ∞) (integers first.toInt last.toInt).count).toNat)
          (if (integers first.toInt last.toInt).count < fuel then pure .normal
            else outOfFuel)) state := by
  have hliteral : ∀ (n : Int64) (line : Line) (state : State S),
      evalExpr invoke env (.int n line) state = (.ok (.number (Number.ofInt64 n)), state) := by
    intro n line state
    unfold evalExpr
    rfl
  have hbounds := Bounds.byOne (hliteral first firstLine state) (hliteral last lastLine state)
  obtain ⟨hstart, hend⟩ := hexact.ends
  have hlt : (Number.ofInt64 first).toFloat < (Number.ofInt64 last).toFloat ↔
      first.toInt < last.toInt := by
    have hiff : ofInt first.toInt < ofInt last.toInt ↔ _ :=
      ofInt_lt_iff (Nat.lt_of_le_of_lt (toInt_natAbs_le first) (by decide))
        (Nat.lt_of_le_of_lt (toInt_natAbs_le last) (by decide))
    rwa [hstart, hend] at hiff
  have hstep : (if first.toInt < last.toInt then 1 else -1 : Float) =
      ofInt (stride first.toInt last.toInt) := by
    unfold stride
    split_ifs <;> decide +kernel
  unfold execStmt
  rw [bind_of_ok hbounds.evalProgression, if_congr hlt rfl rfl, hstep]
  exact congrFun (bind_congr fun inner ↦ forLoop_eq_rounds _ _ _ fuel) state

theorem visitsEach_of_inReach (h : InReach first.toInt last.toInt) : VisitsEach S first last := by
  unfold VisitsEach
  intro total fuel invoke env counter body line firstLine lastLine state hfuel round hcompletes
  have hexact := h.allDoubles
  have hfirst := toInt_natAbs_le first
  have hlast := toInt_natAbs_le last
  have hcount : (integers first.toInt last.toInt).count = total :=
    count_of_leaves hfirst hlast hexact h.leaves
  have henough : (total : ℕ∞) < fuel := by exact_mod_cast hfuel
  obtain ⟨inner, opened, hopened⟩ : ∃ inner opened, openFrame env state = (.ok inner, opened) :=
    ⟨_, _, rfl⟩
  have hrounds :
      rounds
        (countingRound (integers first.toInt last.toInt)
          (fun current ↦ assign env counter (.number (.float current)))
          (execBlock fuel invoke inner body)) total = rounds (round inner) total := by
    refine rounds_congr fun index hindex ↦ ?_
    rw [countingRound, term_integers hfirst hlast hexact (Nat.le_of_lt hindex)]
    rfl
  obtain ⟨states, hstart, hstates, hend⟩ := exists_states (hcompletes inner opened hopened)
  refine ⟨inner, states, by rw [hstart, hopened], hstates, ?_⟩
  rw [execStmt_forLoop_integers hexact, bind_of_ok hopened, hcount, min_eq_right henough.le,
    ENat.toNat_natCast, if_pos henough, hrounds, andThen, bind_of_ok hend]
  rfl

/-- Between integers out of reach that are all doubles, a loop never comes to its end. -/
theorem never_ends_of_not_inReach (h : ¬ InReach first.toInt last.toInt)
    (hexact : AllDoubles first.toInt last.toInt) (fuel : ℕ) (invoke : Invoke S) (env : FrameId)
    (counter : String) (body : List Stmt) (line firstLine lastLine : Line) (state : State S) :
    (execStmt fuel invoke env
        (.forLoop counter (.int first firstLine) (.int last lastLine) none body line) state).1 ≠
      .ok .normal := by
  have hcount : (integers first.toInt last.toInt).count = ⊤ :=
    count_of_stays (toInt_natAbs_le first) (toInt_natAbs_le last) hexact
      (nearestInt_of_not_inReach h hexact)
  obtain ⟨inner, opened, hopened⟩ : ∃ inner opened, openFrame env state = (.ok inner, opened) :=
    ⟨_, _, rfl⟩
  rw [execStmt_forLoop_integers hexact, bind_of_ok hopened, hcount, if_neg not_top_lt]
  exact andThen_outOfFuel_ne _ _

end Loop

/-- A loop between integers within reach visits each of them once, as a double that equals it, and
ends. Between any other integers there is one that no double equals, or the loop never ends. -/
theorem integer_loop (S : Type) [Scopes S] (first last : Int64) :
    (InReach first.toInt last.toInt →
      VisitsEach S first last ∧
      ∀ index ≤ (last.toInt - first.toInt).natAbs,
        point? (ofInt (visited first.toInt last.toInt index)) =
          some (.ofRat (visited first.toInt last.toInt index))) ∧
    (¬ InReach first.toInt last.toInt →
      (∃ index ≤ (last.toInt - first.toInt).natAbs,
        ¬ IsDouble (visited first.toInt last.toInt index)) ∨
      ∀ (fuel : ℕ) (invoke : Invoke S) (env : FrameId) (counter : String) (body : List Stmt)
        (line firstLine lastLine : Line) (state : State S),
        (execStmt fuel invoke env
            (.forLoop counter (.int first firstLine) (.int last lastLine) none body line) state).1 ≠
          .ok .normal) := by
  have hbound : ∀ index ≤ (last.toInt - first.toInt).natAbs,
      (visited first.toInt last.toInt index).natAbs < 2 ^ 64 := by
    intro index hindex
    have hfirst := toInt_natAbs_le first
    have hlast := toInt_natAbs_le last
    have hvisited := visited_eq first.toInt last.toInt index
    omega
  constructor
  · refine fun h ↦ ⟨visitsEach_of_inReach h, fun index hindex ↦ ?_⟩
    rw [point?_ofInt (hbound index hindex), h.allDoubles index hindex]
  · intro h
    by_cases hexact : AllDoubles first.toInt last.toInt
    · exact .inr (never_ends_of_not_inReach h hexact)
    · unfold AllDoubles at hexact
      push Not at hexact
      obtain ⟨index, hindex, hinexact⟩ := hexact
      exact .inl ⟨index, hindex, mt (isDouble_iff (hbound index hindex)).mp hinexact⟩

/-- A loop that prints its counter in each of three rounds, and one that stays at `-2 ^ 53` whatever
its fuel. -/
theorem integer_loop_both_sides :
    let body : List Stmt := [.print (.identifier "i" 2) .newline 2]
    let state : State Store := ⟨(({} : Store).openFrame none).2, 0, {}⟩
    InReach 1 3 ∧ VisitsEach Store 1 3 ∧
      (∃ (inner : FrameId) (states : ℕ → State Store),
        openFrame 0 state = (.ok inner, states 0) ∧
        execStmt 4 (calls 9 4) 0 (.forLoop "i" (.int 1 1) (.int 3 1) none body 1) state =
          (.ok .normal, states 3) ∧
        (states 3).sink.output = utf8 "1\n2\n3\n") ∧
      ¬ InReach (-2 ^ 53) (-2 ^ 53) ∧
      ∀ (fuel : ℕ) (state : State Store),
        (execStmt fuel (calls 9 4) 0
            (.forLoop "i" (.int (-2 ^ 53) 1) (.int (-2 ^ 53) 1) none body 1) state).1 ≠
          .ok .normal := by
  intro body state
  have hin : InReach (1 : Int64).toInt (3 : Int64).toInt := .inl (by decide)
  have hvisits := ((integer_loop Store 1 3).1 hin).1
  have hout : ¬ InReach (-2 ^ 53 : Int64).toInt (-2 ^ 53 : Int64).toInt := by
    have hint : (-2 ^ 53 : Int64).toInt = -2 ^ 53 := by decide +kernel
    unfold InReach
    omega
  let round (inner : FrameId) : ℕ → EvalM Store Flow :=
    visitingRound 4 (calls 9 4) 0 inner "i" body 1 3
  have hprints : ∀ index < 3,
      (round 1 index (rounds (round 1) index (openFrame 0 state).2).2).1 = .ok .normal := by
    decide +kernel
  have hcompletes : ∀ inner opened, openFrame 0 state = (.ok inner, opened) →
      ∀ index < 3, ∀ before, rounds (round inner) index opened = (.ok .normal, before) →
        (round inner index before).1 = .ok .normal := by
    intro inner opened hopened index hindex before hbefore
    obtain rfl : 1 = inner := Except.ok.inj (congrArg Prod.fst hopened)
    obtain rfl : (openFrame 0 state).2 = opened := congrArg Prod.snd hopened
    obtain rfl : _ = before := congrArg Prod.snd hbefore
    exact hprints index hindex
  refine ⟨hin, hvisits, ?_, hout, fun fuel state ↦ ?_⟩
  · obtain ⟨inner, states, hopened, -, hend⟩ :=
      hvisits 4 (calls 9 4) 0 "i" body 1 1 1 state (by decide +kernel) hcompletes
    refine ⟨inner, states, hopened, hend, ?_⟩
    have hsink : _ = (states 3).sink.output := congrArg (fun result ↦ result.2.sink.output) hend
    rw [← hsink]
    decide +kernel
  · rcases (integer_loop Store (-2 ^ 53) (-2 ^ 53)).2 hout with ⟨index, hindex, hinexact⟩ | hnever
    · have hint : (-2 ^ 53 : Int64).toInt = -2 ^ 53 := by decide +kernel
      have hvisited := visited_eq (-2 ^ 53 : Int64).toInt (-2 ^ 53 : Int64).toInt index
      refine (hinexact ((isDouble_iff ?_).mpr (nearestInt_of_natAbs_le ?_))).elim <;> omega
    · exact hnever fuel _ 0 "i" body 1 1 1 state

/-- A loop from `2 ^ 53` to the next integer runs one round instead of two. -/
theorem integer_loop_misses : ¬ ∀ first last : Int64, VisitsEach Store first last := by
  intro h
  let state : State Store := ⟨(({} : Store).openFrame none).2, 0, {}⟩
  -- Each round opens one frame.
  let body : List Stmt := [.ifThen (.bool true 1) [] 1]
  obtain ⟨inner, states, hopened, hrounds, hend⟩ := h (2 ^ 53) (2 ^ 53 + 1) 4 (calls 9 4) 0 "i" body
    1 1 1 state (by decide +kernel) fun _ _ _ _ _ _ _ ↦ rfl
  have htotal : ((2 ^ 53 + 1 : Int64).toInt - (2 ^ 53 : Int64).toInt).natAbs = 1 := by
    decide +kernel
  rw [htotal] at hrounds hend
  obtain rfl : 1 = inner := Except.ok.inj (congrArg Prod.fst hopened)
  have hopenedState : (openFrame 0 state).2 = states 0 := congrArg Prod.snd hopened
  have hfirst : _ = states 1 := congrArg Prod.snd (hrounds 0 (by decide))
  have hsecond : _ = states 2 := congrArg Prod.snd (hrounds 1 (by decide))
  rw [← hopenedState] at hfirst
  rw [← hfirst] at hsecond
  have hframes : _ = (states 2).scopes.frames.size :=
    congrArg (fun result ↦ result.2.scopes.frames.size) hend
  rw [← hsecond] at hframes
  revert hframes
  decide +kernel

end Treewalk
