import Mathlib.Data.Nat.Digits.Lemmas
import Mathlib.Tactic.IntervalCases
import Treewalk.Text.Escape

/-!
# Numerals in escapes

A numeral is a row of digits of some base, the most significant first, where the digits above nine
are letters in either case. What the decoder takes for octal digits, and for two digits of base
sixteen, are the numerals of these bases, and it takes them for the numbers that they write
(`isNumeral_octal_iff`, `isNumeral_hex_iff`).
-/

set_option autoImplicit false
set_option relaxedAutoImplicit false

namespace Treewalk.Escape

/-- The character is a digit of the base and stands for the value. -/
def IsDigit (base : Nat) (digit : Char) (value : Nat) : Prop :=
  value < base ∧ (digit = Nat.digitChar value ∨ digit = (Nat.digitChar value).toUpper)

instance (base : Nat) (digit : Char) (value : Nat) : Decidable (IsDigit base digit value) :=
  inferInstanceAs (Decidable (_ ∧ _))

/-- The digits are digits of the base and together write the number. -/
def IsNumeral (base : Nat) (digits : List Char) (number : Nat) : Prop :=
  ∃ values, List.Forall₂ (IsDigit base) digits values ∧ number = Nat.ofDigits base values.reverse

variable {base value number : Nat} {digit high low : Char} {digits : List Char}

theorem IsNumeral.lt (hbase : 1 < base) (h : IsNumeral base digits number) :
    number < base ^ digits.length := by
  obtain ⟨values, hdigits, rfl⟩ := h
  have hvalues : ∀ value ∈ values.reverse, value < base := by
    intro value hvalue
    obtain ⟨i, hi, rfl⟩ := List.getElem_of_mem (List.mem_reverse.mp hvalue)
    exact (hdigits.get (hdigits.length_eq ▸ hi) hi).1
  rw [hdigits.length_eq, ← List.length_reverse]
  exact Nat.ofDigits_lt_base_pow_length hbase hvalues

/-! ### Digits -/

/-- What holds of the first 128 code points holds of every character that is one of them. -/
theorem of_ascii {motive : Char → Prop} (h : ∀ code < 128, motive (Char.ofNat code))
    {c : Char} (hc : c.toNat < 128) : motive c :=
  Char.ofNat_toNat c ▸ h c.toNat hc

theorem isDigit_octal_iff :
    IsDigit 8 digit value ↔ isOctalDigit digit = true ∧ digit.toNat - '0'.toNat = value := by
  constructor
  · rintro ⟨hvalue, hdigit⟩
    interval_cases value <;> rcases hdigit with rfl | rfl <;> decide
  · rintro ⟨hdigit, rfl⟩
    have hupper : digit.toNat ≤ 55 := (of_decide_eq_true (Bool.and_eq_true_iff.mp hdigit).2 :)
    have hascii : ∀ code < 128, isOctalDigit (Char.ofNat code) = true →
        IsDigit 8 (Char.ofNat code) ((Char.ofNat code).toNat - '0'.toNat) := by decide
    exact of_ascii (motive := fun c ↦ isOctalDigit c = true → IsDigit 8 c (c.toNat - '0'.toNat))
      hascii (hupper.trans_lt (by decide)) hdigit

theorem isDigit_hex_iff : IsDigit 16 digit value ↔ hexValue? digit = some value := by
  constructor
  · rintro ⟨hvalue, hdigit⟩
    interval_cases value <;> rcases hdigit with rfl | rfl <;> decide
  · intro h
    have hbound : digit.toNat < 128 := by
      have hrange : digit ≤ '9' ∨ digit ≤ 'f' ∨ digit ≤ 'F' := by
        unfold hexValue? at h
        split_ifs at h with hdecimal hlower hupper
        · exact .inl hdecimal.2
        · exact .inr (.inl hlower.2)
        · exact .inr (.inr hupper.2)
      have hrange' : digit.toNat ≤ 57 ∨ digit.toNat ≤ 102 ∨ digit.toNat ≤ 70 := hrange
      omega
    have hascii : ∀ code < 128, ∀ value ∈ hexValue? (Char.ofNat code),
        IsDigit 16 (Char.ofNat code) value := by decide
    exact of_ascii (motive := fun c ↦ ∀ value ∈ hexValue? c, IsDigit 16 c value) hascii hbound
      value h

/-! ### Numerals -/

/-- The digits of an octal numeral are octal digits, and there is one number that they write. -/
theorem isNumeral_octal_iff : IsNumeral 8 digits number ↔
    (∀ digit ∈ digits, isOctalDigit digit = true) ∧ octalValue digits = number := by
  have hvalue : octalValue digits =
      Nat.ofDigits 8 (digits.map fun digit ↦ digit.toNat - '0'.toNat).reverse := by
    induction digits using List.reverseRecOn with
    | nil => rfl
    | append_singleton digits digit ih =>
      rw [List.map_append, List.reverse_append, List.map_singleton, List.reverse_singleton,
        List.singleton_append, Nat.ofDigits_cons, ← ih, octalValue, List.foldl_append]
      exact Nat.add_comm _ _
  have hdigits : ∀ values, List.Forall₂ (IsDigit 8) digits values ↔
      (∀ digit ∈ digits, isOctalDigit digit = true) ∧
        digits.map (fun digit ↦ digit.toNat - '0'.toNat) = values := by
    intro values
    have hdigit : IsDigit 8 = fun digit value ↦
        isOctalDigit digit = true ∧ digit.toNat - '0'.toNat = value :=
      funext fun digit ↦ funext fun value ↦ propext isDigit_octal_iff
    rw [hdigit, List.forall₂_and_left, ← List.forall₂_eq_eq_eq, List.forall₂_map_left_iff]
  unfold IsNumeral
  simp only [hdigits, hvalue]
  constructor
  · rintro ⟨values, ⟨hall, rfl⟩, rfl⟩
    exact ⟨hall, rfl⟩
  · rintro ⟨hall, rfl⟩
    exact ⟨_, ⟨hall, rfl⟩, rfl⟩

/-- Likewise for two digits of base sixteen. -/
theorem isNumeral_hex_iff : IsNumeral 16 [high, low] number ↔
    (isHexDigit high = true ∧ isHexDigit low = true) ∧ hexPairValue high low = number := by
  unfold IsNumeral isHexDigit hexPairValue
  constructor
  · rintro ⟨values, hdigits, rfl⟩
    obtain ⟨first, _, hhigh, hrest, rfl⟩ := List.forall₂_cons_left_iff.mp hdigits
    obtain ⟨second, _, hlow, hend, rfl⟩ := List.forall₂_cons_left_iff.mp hrest
    obtain rfl := List.forall₂_nil_left_iff.mp hend
    rw [isDigit_hex_iff] at hhigh hlow
    simp [hhigh, hlow, Nat.ofDigits_cons, Nat.add_comm]
  · rintro ⟨⟨hhigh, hlow⟩, rfl⟩
    obtain ⟨first, hfirst⟩ := Option.isSome_iff_exists.mp hhigh
    obtain ⟨second, hsecond⟩ := Option.isSome_iff_exists.mp hlow
    refine ⟨[first, second], .cons (isDigit_hex_iff.mpr hfirst)
      (.cons (isDigit_hex_iff.mpr hsecond) .nil), ?_⟩
    simp [hfirst, hsecond, Nat.ofDigits_cons, Nat.add_comm]

end Treewalk.Escape
