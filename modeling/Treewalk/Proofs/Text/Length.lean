import Mathlib.Algebra.Order.BigOperators.Group.List
import Mathlib.Data.String.Basic
import Mathlib.Tactic.TFAE
import Treewalk.Proofs.Text.Grammar

/-!
# The length of decoded texts

Decoding makes no text longer, neither in characters nor in bytes (`sum_denotations_le`): an escape
has at least two characters, and denotes at most one, which takes at most two bytes. So decoding
keeps the number of characters only where no escape occurs in the scan, and then it keeps the text
(`decode_length`).
-/

set_option autoImplicit false
set_option relaxedAutoImplicit false

namespace Treewalk.Escape

open Token

variable {text rest spelling denoted position : List Char} {token : Token}

/-! ### Escapes -/

theorem IsEscape.two_le_length (h : IsEscape rest spelling denoted) : 2 ≤ spelling.length := by
  cases h with
  | octal hnonempty => exact Nat.succ_le_succ (List.length_pos_iff.mpr hnonempty)
  | _ => simp

/-- The codes of three octal digits bound what an escape denotes. -/
theorem IsEscape.denoted_eq (h : IsEscape rest spelling denoted) :
    denoted = [] ∨ ∃ c, denoted = [c] ∧ c.toNat < 512 := by
  cases h with
  | continuation => exact .inl rfl
  | mark hmark =>
    have hmarks : ∀ pair ∈ marks, pair.2.toNat < 512 := by decide
    exact .inr ⟨_, rfl, hmarks _ hmark⟩
  | octal _ hlength hcode =>
    exact .inr ⟨_, rfl, (hcode.lt (by decide)).trans_le (Nat.pow_le_pow_right (by decide) hlength)⟩
  | hex hcode => exact .inr ⟨_, rfl, (hcode.lt (by decide)).trans_le (by simp)⟩

theorem IsEscape.length_lt (h : IsEscape rest spelling denoted) :
    denoted.length < spelling.length := by
  have hspelling := h.two_le_length
  rcases h.denoted_eq with rfl | ⟨c, rfl, -⟩
  · rw [List.length_nil]
    omega
  · rw [List.length_singleton]
    omega

/-! ### Bounds -/

section Weights

variable (weight : Char → Nat)

/-- A token weighs at least what it denotes. -/
theorem IsToken.sum_le (hone : ∀ c, 1 ≤ weight c) (htwo : ∀ c, c.toNat < 512 → weight c ≤ 2)
    (h : IsToken rest spelling denoted) :
    (denoted.map weight).sum ≤ (spelling.map weight).sum := by
  cases h with
  | plain | backslash => exact Nat.le_refl _
  | escape hescape =>
    have hspelling : 2 ≤ (spelling.map weight).sum := by
      have hsum := (spelling.map weight).length_le_sum_of_one_le fun w hw ↦ by
        obtain ⟨c, -, rfl⟩ := List.mem_map.mp hw
        exact hone c
      rw [List.length_map] at hsum
      exact hescape.two_le_length.trans hsum
    refine Nat.le_trans ?_ hspelling
    rcases hescape.denoted_eq with rfl | ⟨c, rfl, hc⟩
    · simp
    · simpa using htwo c hc

/-- Whatever characters weigh, if it is at least one, and at most two for those that escapes denote,
a text weighs at least what it denotes. -/
theorem sum_denotations_le (hone : ∀ c, 1 ≤ weight c) (htwo : ∀ c, c.toNat < 512 → weight c ≤ 2)
    (text : List Char) : ((denotations text).map weight).sum ≤ (text.map weight).sum := by
  induction text using scan_induction with
  | nil => rw [denotations_nil]
  | next text token rest hnext ih =>
    obtain ⟨htoken, htext, -⟩ := isToken_of_next? hnext
    rw [denotations_of_next? hnext, htext, List.map_append, List.map_append, List.sum_append,
      List.sum_append]
    exact Nat.add_le_add (htoken.sum_le weight hone htwo) ih

end Weights

theorem length_denotations_le (text : List Char) : (denotations text).length ≤ text.length := by
  simpa using sum_denotations_le (fun _ ↦ 1) (fun _ ↦ Nat.le_refl 1) (fun _ _ ↦ Nat.le_succ 1) text

theorem utf8Len_eq_sum (text : List Char) :
    String.utf8Len text = (text.map Char.utf8Size).sum := by
  induction text with
  | nil => rfl
  | cons c text ih => rw [String.utf8Len_cons, ih, List.map_cons, List.sum_cons, Nat.add_comm]

theorem utf8Size_le_two {c : Char} (hc : c.toNat < 512) : c.utf8Size ≤ 2 := by
  have hval : c.val ≤ 2047 := UInt32.le_iff_toNat_le.mpr ((Nat.le_of_lt hc).trans (by decide))
  by_cases hascii : c.val ≤ 127
  · rw [Char.utf8Size_eq_one_iff.mpr hascii]
    decide
  · exact (Char.utf8Size_eq_two_iff.mpr ⟨UInt32.not_le.mp hascii, hval⟩).le

theorem utf8Len_denotations_le (text : List Char) :
    String.utf8Len (denotations text) ≤ String.utf8Len text := by
  rw [utf8Len_eq_sum, utf8Len_eq_sum]
  exact sum_denotations_le Char.utf8Size Char.utf8Size_pos (fun _ ↦ utf8Size_le_two) text

/-! ### Texts that stay as they are -/

theorem IsToken.eq_or_isEscape (h : IsToken rest spelling denoted) :
    denoted = spelling ∨ IsEscape rest spelling denoted := by
  cases h with
  | plain | backslash => exact .inl rfl
  | escape hescape => exact .inr hescape

/-- An escape at the start makes a text shorter. -/
theorem StartsEscape.length_lt (h : StartsEscape text) :
    (denotations text).length < text.length := by
  obtain ⟨rest, spelling, denoted, hescape, rfl⟩ := h
  obtain ⟨token, hnext, -, rfl⟩ := next?_of_isToken (.escape hescape)
  rw [denotations_of_next? hnext, List.length_append, List.length_append]
  exact Nat.add_lt_add_of_lt_of_le hescape.length_lt (length_denotations_le rest)

/-- What keeps its number of characters does so behind its first token, too. -/
theorem length_eq_of_next? (hnext : next? text = some (token, rest))
    (hlength : (denotations text).length = text.length) :
    (denotations rest).length = rest.length := by
  obtain ⟨htoken, htext, -⟩ := isToken_of_next? hnext
  rw [denotations_of_next? hnext, List.length_append, htext, List.length_append] at hlength
  have hrest := length_denotations_le rest
  have hfirst : token.denotation.toList.length ≤ token.spelling.length := by
    rcases htoken.eq_or_isEscape with hsame | hescape
    · rw [hsame]
    · exact hescape.length_lt.le
  omega

theorem length_eq_of_reaches (h : Reaches text position)
    (hlength : (denotations text).length = text.length) :
    (denotations position).length = position.length := by
  induction h with
  | refl => exact hlength
  | tail _ hstep ih =>
    obtain ⟨token, hnext⟩ := hstep
    exact length_eq_of_next? hnext ih

theorem denotations_eq_self (h : ∀ position, Reaches text position → ¬ StartsEscape position) :
    denotations text = text := by
  induction text using scan_induction with
  | nil => exact denotations_nil
  | next text token rest hnext ih =>
    have hrest : denotations rest = rest :=
      ih fun position hreaches ↦ h position (.head ⟨token, hnext⟩ hreaches)
    obtain ⟨htoken, htext, -⟩ := isToken_of_next? hnext
    have hfirst : token.denotation.toList = token.spelling :=
      htoken.eq_or_isEscape.resolve_right fun hescape ↦
        h text .refl ⟨rest, _, _, hescape, htext⟩
    rw [denotations_of_next? hnext, hrest, hfirst, htext]

/-- Decoding makes no text longer, in characters or in bytes, so the room that a text takes is
enough for what it denotes. The number of characters is kept exactly if the text is, and exactly if
no escape starts anywhere that the scan comes to. -/
theorem decode_length (s : String) :
    (decode s).length ≤ s.length ∧ (decode s).utf8ByteSize ≤ s.utf8ByteSize ∧
      List.TFAE [(decode s).length = s.length, decode s = s,
        ∀ position, Reaches s.toList position → ¬ StartsEscape position] := by
  have hlength : (decode s).length = (denotations s.toList).length := by
    rw [← String.length_toList, toList_decode]
  refine ⟨?_, ?_, ?_⟩
  · rw [hlength, ← String.length_toList]
    exact length_denotations_le s.toList
  · have hbytes := utf8Len_denotations_le s.toList
    rwa [← toList_decode, ← String.utf8ByteSize_ofList, ← String.utf8ByteSize_ofList,
      String.ofList_toList, String.ofList_toList] at hbytes
  · tfae_have 1 → 3 := by
      intro hsame position hreaches hstarts
      rw [hlength, ← String.length_toList] at hsame
      exact hstarts.length_lt.ne (length_eq_of_reaches hreaches hsame)
    tfae_have 3 → 2 := fun hnone ↦
      String.toList_inj.mp ((toList_decode s).trans (denotations_eq_self hnone))
    tfae_have 2 → 1 := congrArg String.length
    tfae_finish

end Treewalk.Escape
