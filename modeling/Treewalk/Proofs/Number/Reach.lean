import Treewalk.Proofs.Number.Integers

/-!
# How far doubles can count

Counting by one from an integer to another visits `visited first last index` after `index` steps,
as long as these are doubles (`AllDoubles`). Where all of them are and the last one can be left is
decided by the two ends alone (`InReach`): within reach the count passes the last integer
(`InReach.leaves`), and out of reach it stays there (`nearestInt_of_not_inReach`).
-/

set_option autoImplicit false
set_option relaxedAutoImplicit false

namespace Treewalk.Number

/-- The step of a loop that names none, from one integer to another. -/
def stride (first last : ℤ) : ℤ :=
  if first < last then 1 else -1

/-- The integer of a round. -/
def visited (first last : ℤ) (index : ℕ) : ℤ :=
  first + stride first last * index

/-- The integers of a loop are doubles. -/
def AllDoubles (first last : ℤ) : Prop :=
  ∀ index ≤ (last - first).natAbs,
    nearestInt (visited first last index) = visited first last index

/-- The integers between which a loop visits every integer once and ends: it stays within `2 ^ 53`
and can leave its last integer, or it is one round at an integer that only a count down leaves. -/
def InReach (first last : ℤ) : Prop :=
  first < last ∧ -2 ^ 53 ≤ first ∧ last < 2 ^ 53 ∨
    last ≤ first ∧ -2 ^ 53 < last ∧ first ≤ 2 ^ 53 ∨
      first = last ∧ 2 ^ 53 < first.natAbs ∧ first.natAbs < 2 ^ 54 ∧ first % 4 = 2

variable {first last : ℤ}

theorem stride_eq (first last : ℤ) : stride first last = 1 ∨ stride first last = -1 := by
  unfold stride
  split_ifs
  · exact .inl rfl
  · exact .inr rfl

theorem visited_eq (first last : ℤ) (index : ℕ) :
    visited first last index = first + index ∧ first < last ∨
      visited first last index = first - index ∧ last ≤ first := by
  unfold visited stride
  split_ifs with hlt <;> omega

theorem AllDoubles.ends (hexact : AllDoubles first last) :
    nearestInt first = first ∧ nearestInt last = last := by
  have hstart := hexact 0 (Nat.zero_le _)
  have hend := hexact (last - first).natAbs le_rfl
  have hvisited := visited_eq first last 0
  have hvisited' := visited_eq first last (last - first).natAbs
  rw [show visited first last 0 = first by omega] at hstart
  rw [show visited first last (last - first).natAbs = last by omega] at hend
  exact ⟨hstart, hend⟩

/-- Within reach every integer of a loop is a double. -/
theorem InReach.allDoubles (h : InReach first last) : AllDoubles first last := by
  intro index hindex
  have hbetween := visited_eq first last index
  unfold InReach at h
  by_cases hsmall : (visited first last index).natAbs ≤ 2 ^ 53
  · exact nearestInt_of_natAbs_le hsmall
  · exact nearestInt_eq_self_iff.mpr (nearest_of_even (by omega) (by omega))

/-- Within reach a loop leaves its last integer on the other side. -/
theorem InReach.leaves (h : InReach first last) :
    if first < last then last < nearestInt (last + 1) else nearestInt (last - 1) < last := by
  unfold InReach at h
  split_ifs with hlt
  · rw [nearestInt_of_natAbs_le (by omega)]
    omega
  · by_cases hsmall : (last - 1).natAbs ≤ 2 ^ 53
    · rw [nearestInt_of_natAbs_le hsmall]
      omega
    · rw [nearestInt_sub_one_of_mod (by omega) (by omega) (by omega)]
      omega

theorem natAbs_le_of_odd {n : ℤ} (hexact : nearestInt n = n) (hodd : n % 2 = 1) :
    n.natAbs ≤ 2 ^ 53 := by
  by_contra hlarge
  have hdvd : 2 ^ 1 ∣ n.natAbs := two_pow_dvd_of_nearestInt (by omega) hexact
  omega

/-- Of two neighbours one is odd, so both lie within `2 ^ 53` if they are doubles. -/
theorem bounds_of_neighbours {n : ℤ} (hexact : nearestInt n = n)
    (hexact' : nearestInt (n + 1) = n + 1) : -2 ^ 53 ≤ n ∧ n + 1 ≤ 2 ^ 53 := by
  rcases Int.emod_two_eq_zero_or_one n with heven | hodd
  · have hle := natAbs_le_of_odd hexact' (by omega)
    omega
  · have hle := natAbs_le_of_odd hexact hodd
    omega

/-- Out of reach a loop stays at its last integer, if its integers are doubles at all. -/
theorem nearestInt_of_not_inReach (h : ¬ InReach first last)
    (hexact : AllDoubles first last) : nearestInt (last + stride first last) = last := by
  have hall : ∀ n, (first ≤ n ∧ n ≤ last ∨ last ≤ n ∧ n ≤ first) → nearestInt n = n := by
    intro n hbetween
    have hn := visited_eq first last (n - first).natAbs
    have hvisited : visited first last (n - first).natAbs = n := by omega
    exact hvisited ▸ hexact _ (by omega)
  rcases lt_trichotomy first last with hlt | rfl | hgt
  · have hlow := (bounds_of_neighbours (hall first (by omega)) (hall (first + 1) (by omega))).1
    have hhigh := (bounds_of_neighbours (hall (last - 1) (by omega)) (hall _ (by omega))).2
    have hlast : ¬ last < 2 ^ 53 := fun hsmall ↦ h (.inl ⟨hlt, hlow, hsmall⟩)
    obtain rfl : last = 2 ^ 53 := by clear h hexact hall; omega
    rw [stride, if_pos hlt]
    decide
  · have hfirst := hall first (by omega)
    rw [stride, if_neg (Int.lt_irrefl _)]
    by_cases hsmall : first.natAbs ≤ 2 ^ 53
    · have hbottom : ¬ -2 ^ 53 < first := fun hbottom ↦ h (.inr (.inl (by omega)))
      obtain rfl : first = -2 ^ 53 := by clear h hexact hall; omega
      decide
    have htwo : 2 ^ 1 ∣ first.natAbs := two_pow_dvd_of_nearestInt (by omega) hfirst
    have hfour : 4 ∣ first := by
      by_cases hlarge : 2 ^ 54 ≤ first.natAbs
      · have hdvd : 2 ^ 2 ∣ first.natAbs := two_pow_dvd_of_nearestInt (by omega) hfirst
        omega
      · have hmod : first % 4 ≠ 2 := fun hmod ↦ h (.inr (.inr (by omega)))
        omega
    exact nearestInt_sub_one_of_dvd (by omega) hfour hfirst
  · have hlow := (bounds_of_neighbours (hall last (by omega)) (hall (last + 1) (by omega))).1
    have hhigh := (bounds_of_neighbours (hall (first - 1) (by omega)) (hall _ (by omega))).2
    have hlast : ¬ -2 ^ 53 < last := fun hlarge ↦ h (.inr (.inl ⟨hgt.le, hlarge, by omega⟩))
    obtain rfl : last = -2 ^ 53 := by clear h hexact hall; omega
    rw [stride, if_neg hgt.not_gt]
    decide

end Treewalk.Number
