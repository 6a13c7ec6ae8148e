import Treewalk.Proofs.Output.BoundedSink
import Treewalk.Proofs.Text.Grammar

/-!
# Texts printed in pieces

A text may be decoded in two pieces, whatever the second piece, exactly when the scan of the first
does not end in a pending escape: in one that the second piece could complete or extend. So a
text printed in two pieces comes out as it does in one (`decode_append_iff`). Up to a pending
escape nothing that the decoder does with a text depends on what follows the text
(`IsToken.append`), and each kind of pending escape has a continuation that it takes in
(`IsPending.exists_continuation`).
-/

set_option autoImplicit false
set_option relaxedAutoImplicit false

namespace Treewalk.Escape

open Token

/-! ### Pending escapes -/

/-- The text is one escape, or the beginning of one, that more text could complete or extend. -/
inductive IsPending : List Char → Prop
  | backslash : IsPending ['\\']
  | octal {digits : List Char} (hnonempty : digits ≠ []) (hlength : digits.length < 3)
      (hdigits : ∀ digit ∈ digits, ∃ value, IsDigit 8 digit value) : IsPending ('\\' :: digits)
  | hex : IsPending ['\\', 'x']
  | hexDigit {digit : Char} {value : Nat} (hdigit : IsDigit 16 digit value) :
      IsPending ['\\', 'x', digit]

/-- The last escape that the scan of a text comes to is pending at its end. -/
def EndsPending (text : List Char) : Prop :=
  ∃ position, Reaches text position ∧ IsPending position

variable {text rest spelling denoted position digits : List Char} {token : Token} {c : Char}

theorem not_endsPending_nil : ¬ EndsPending [] := by
  rintro ⟨position, hreaches, hpending⟩
  rcases hreaches.cases_head with rfl | ⟨rest, ⟨token, hnext⟩, -⟩
  · cases hpending
  · cases hnext

theorem endsPending_iff (h : next? text = some (token, rest)) :
    EndsPending text ↔ IsPending text ∨ EndsPending rest := by
  constructor
  · rintro ⟨position, hreaches, hpending⟩
    rcases hreaches.cases_head with rfl | ⟨rest', ⟨token', hnext⟩, hrest⟩
    · exact .inl hpending
    · rw [h] at hnext
      cases hnext
      exact .inr ⟨position, hrest, hpending⟩
  · rintro (hpending | ⟨position, hreaches, hpending⟩)
    · exact ⟨text, .refl, hpending⟩
    · exact ⟨position, .head ⟨token, h⟩ hreaches, hpending⟩

/-! ### Before the end of a text -/

theorem isOctalDigit_of_isDigit (h : ∃ value, IsDigit 8 c value) : isOctalDigit c = true := by
  obtain ⟨value, hdigit⟩ := h
  exact (isDigit_octal_iff.mp hdigit).1

theorem IsEscape.append (h : IsEscape rest spelling denoted)
    (hpending : ¬ IsPending (spelling ++ rest)) (more : List Char) :
    IsEscape (rest ++ more) spelling denoted := by
  cases h with
  | continuation => exact .continuation
  | mark hmark => exact .mark hmark
  | hex hcode => exact .hex hcode
  | octal hnonempty hlength hcode hend =>
    refine .octal hnonempty hlength hcode fun hfew next hnext ↦ ?_
    cases rest with
    | nil =>
      have hdigits := (isNumeral_octal_iff.mp hcode).1
      refine absurd (.octal hnonempty hfew fun digit hdigit ↦ ?_) (List.append_nil _ ▸ hpending)
      exact ⟨_, isDigit_octal_iff.mpr ⟨hdigits digit hdigit, rfl⟩⟩
    | cons first rest => exact hend hfew next hnext

/-- A backslash with which no escape starts opens none with more text either. -/
theorem escape?_append_eq_none (h : escape? text = none) (hpending : ¬ IsPending ('\\' :: text))
    (more : List Char) : escape? (text ++ more) = none := by
  cases text with
  | nil => exact absurd .backslash hpending
  | cons c text =>
    by_cases hx : c = 'x'
    · subst hx
      match text with
      | [] => exact absurd .hex hpending
      | [digit] =>
        have hdigit : ¬ isHexDigit digit = true := by
          intro hdigit
          obtain ⟨value, hvalue⟩ := Option.isSome_iff_exists.mp hdigit
          exact hpending (.hexDigit (isDigit_hex_iff.mpr hvalue))
        cases more with
        | nil => exact h
        | cons next more => exact if_neg fun hboth ↦ hdigit (Bool.and_eq_true_iff.mp hboth).1
      | high :: low :: text =>
        rw [escape?] at h
        exact if_neg fun hboth ↦ by simp [hboth] at h
    · rw [List.cons_append, escape?_of_ne hx]
      rw [escape?_of_ne hx] at h
      split_ifs at h ⊢
      rfl

theorem IsToken.append (h : IsToken rest spelling denoted)
    (hpending : ¬ IsPending (spelling ++ rest)) (more : List Char) :
    IsToken (rest ++ more) spelling denoted := by
  cases h with
  | plain hplain => exact .plain hplain
  | escape hescape => exact .escape (hescape.append hpending more)
  | backslash hnone =>
    refine .backslash ?_
    rw [startsEscape_iff, Option.not_isSome_iff_eq_none] at hnone ⊢
    exact escape?_append_eq_none hnone hpending more

/-- One step of the scan, at a position that is not pending, is the same with more text behind. -/
theorem denotations_append_of_next? (h : next? text = some (token, rest))
    (hpending : ¬ IsPending text) (more : List Char) :
    denotations (text ++ more) = token.denotation.toList ++ denotations (rest ++ more) := by
  obtain ⟨htoken, rfl, -⟩ := isToken_of_next? h
  obtain ⟨token', hnext, -, hdenoted⟩ := next?_of_isToken (htoken.append hpending more)
  rw [List.append_assoc, denotations_of_next? hnext, hdenoted]

theorem denotations_append (h : ¬ EndsPending text) (more : List Char) :
    denotations (text ++ more) = denotations text ++ denotations more := by
  induction text using scan_induction with
  | nil => rw [denotations_nil, List.nil_append, List.nil_append]
  | next text token rest hnext ih =>
    rw [endsPending_iff hnext, not_or] at h
    rw [denotations_append_of_next? hnext h.1, ih h.2, denotations_of_next? hnext,
      List.append_assoc]

/-! ### At the end of a text -/

/-- A pending escape is the last one in its text. -/
theorem IsPending.not_mem_tail (h : IsPending text) : '\\' ∉ text.tail := by
  cases h with
  | backslash => decide
  | octal _ _ hdigits =>
    intro hmem
    exact absurd (isOctalDigit_of_isDigit (hdigits _ hmem)) (by decide)
  | hex => decide
  | hexDigit hdigit =>
    intro hmem
    obtain rfl := List.mem_singleton.mp ((List.mem_cons.mp hmem).resolve_left (by decide))
    have hnone : hexValue? '\\' = none := by decide
    rw [isDigit_hex_iff, hnone] at hdigit
    cases hdigit

theorem Token.spelling_ne_nil (token : Token) : token.spelling ≠ [] := by
  cases token <;> exact List.cons_ne_nil _ _

theorem IsPending.mem (h : IsPending text) : '\\' ∈ text := by
  cases h <;> exact List.mem_cons_self

/-- More text may make one escape of a pending one. -/
theorem IsPending.exists_escape (h : IsPending text) :
    ∃ next more c, next ≠ '\\' ∧ IsEscape [] (text ++ next :: more) [c] := by
  cases h with
  | backslash => exact ⟨'n', [], '\n', by decide, .mark (by decide)⟩
  | @octal digits hnonempty hlength hdigits =>
    have hall : ∀ digit ∈ digits ++ ['0'], isOctalDigit digit = true := by
      intro digit hdigit
      rcases List.mem_append.mp hdigit with hdigit | hdigit
      · exact isOctalDigit_of_isDigit (hdigits digit hdigit)
      · exact List.mem_singleton.mp hdigit ▸ rfl
    have hlength' : (digits ++ ['0']).length ≤ 3 := by
      rw [List.length_append]
      exact hlength
    exact ⟨'0', [], _, by decide, .octal (List.append_ne_nil_of_left_ne_nil hnonempty _) hlength'
      (isNumeral_octal hall hlength').2 fun _ ↦ nofun⟩
  | hex => exact ⟨'0', ['0'], _, by decide, .hex (isNumeral_hex (by decide) (by decide)).2⟩
  | hexDigit hdigit =>
    have hhigh := Option.isSome_iff_exists.mpr ⟨_, isDigit_hex_iff.mp hdigit⟩
    exact ⟨'0', [], _, by decide, .hex (isNumeral_hex hhigh (by decide)).2⟩

theorem denotations_escape (h : IsEscape [] spelling denoted) :
    denotations spelling = denoted := by
  have hsplit : IsSplit [spelling] (denoted ++ []) := .cons (.escape h) .nil
  simpa using hsplit.eq_tokens.2

theorem denotations_plain (hplain : c ≠ '\\') (text : List Char) :
    denotations (c :: text) = c :: denotations text := by
  have htoken : IsToken text [c] [c] := .plain hplain
  obtain ⟨token, hnext, -, hdenoted⟩ := next?_of_isToken htoken
  rw [← List.singleton_append, denotations_of_next? hnext, hdenoted, List.singleton_append]

theorem IsPending.denotations_ne_nil (h : IsPending text) : denotations text ≠ [] := by
  have hbackslash : ∀ rest, next? ('\\' :: rest) = some (.backslash, rest) →
      denotations ('\\' :: rest) ≠ [] := by
    intro rest hnext
    rw [denotations_of_next? hnext]
    exact List.cons_ne_nil _ _
  cases h with
  | backslash => exact hbackslash [] rfl
  | octal hnonempty hlength hdigits =>
    have hall := fun digit hdigit ↦ isOctalDigit_of_isDigit (hdigits digit hdigit)
    have hcode := (isNumeral_octal hall (Nat.le_of_lt hlength)).2
    rw [denotations_escape (.octal hnonempty (Nat.le_of_lt hlength) hcode fun _ ↦ nofun)]
    exact List.cons_ne_nil _ _
  | hex => exact hbackslash ['x'] rfl
  | hexDigit => exact hbackslash ['x', _] rfl

/-- With the right continuation, a pending escape and what follows it denote one character
together, though either denotes one by itself. -/
theorem IsPending.exists_continuation (h : IsPending text) :
    ∃ more, denotations (text ++ more) ≠ denotations text ++ denotations more := by
  obtain ⟨next, more, c, hplain, hescape⟩ := h.exists_escape
  refine ⟨next :: more, fun happend ↦ ?_⟩
  have hlength := congrArg List.length happend
  have hpositive := List.length_pos_iff.mpr h.denotations_ne_nil
  rw [denotations_escape hescape, denotations_plain hplain, List.length_append,
    List.length_singleton, List.length_cons] at hlength
  omega

/-- A scan that ends in a pending escape comes to it also with more text behind, since no position
before it is pending. -/
theorem EndsPending.exists_continuation (h : EndsPending text) :
    ∃ more, denotations (text ++ more) ≠ denotations text ++ denotations more := by
  obtain ⟨position, hreaches, hpending⟩ := h
  obtain ⟨more, hmore⟩ := hpending.exists_continuation
  refine ⟨more, ?_⟩
  induction hreaches using Relation.ReflTransGen.head_induction_on with
  | refl => exact hmore
  | @head text rest hstep hrest ih =>
    obtain ⟨token, hnext⟩ := hstep
    -- The backslash of the pending escape stands behind the first token, so nothing is pending yet.
    have hnot : ¬ IsPending text := by
      intro htext
      obtain ⟨c, spelling, hspelling⟩ := List.exists_cons_of_ne_nil token.spelling_ne_nil
      have hmem := List.mem_append_right spelling ((suffix_of_reaches hrest).mem hpending.mem)
      rw [(isToken_of_next? hnext).2.1, hspelling] at htext
      exact htext.not_mem_tail hmem
    rw [denotations_append_of_next? hnext hnot, denotations_of_next? hnext, List.append_assoc]
    exact fun happend ↦ ih (List.append_cancel_left happend)

theorem decode_append_iff_denotations {s t : String} :
    decode (s ++ t) = decode s ++ decode t ↔
      denotations (s.toList ++ t.toList) = denotations s.toList ++ denotations t.toList := by
  rw [← String.toList_inj, String.toList_append, toList_decode, toList_decode, toList_decode,
    String.toList_append]

/-- Texts are decoded in pieces whatever the second piece exactly if nothing is pending at the end
of the first. -/
theorem decode_append {s : String} :
    (∀ t, decode (s ++ t) = decode s ++ decode t) ↔ ¬ EndsPending s.toList := by
  constructor
  · intro hall hpending
    obtain ⟨more, hmore⟩ := hpending.exists_continuation
    have happend := decode_append_iff_denotations.mp (hall (String.ofList more))
    rw [String.toList_ofList] at happend
    exact hmore happend
  · exact fun hpending t ↦ decode_append_iff_denotations.mpr (denotations_append hpending t.toList)

/-! ### Printed pieces -/

theorem utf8_injective {s t : String} (h : utf8 s = utf8 t) : s = t :=
  String.toByteArray_inj.mp (ByteArray.ext (Array.toList_inj.mp h))

section Printing

variable {S : Type} [Scopes S] (fuel : Nat) {invoke : Invoke S} {env : FrameId}

/-- A print without a line ending writes its text, and then the block goes on. -/
theorem execBlock_print {value : Expr} {s : String}
    (hvalue : evalExpr invoke env value = pure (.string s)) (line : Line) (body : List Stmt) :
    execBlock fuel invoke env (.print value .none line :: body) =
      EvalM.write line (decode s) >>= fun _ ↦ execBlock fuel invoke env body := by
  rw [execBlock, execStmt, hvalue, pure_bind, EvalM.andThen, bind_assoc]
  simp [Value.text, LineEnding.text]

theorem evalExpr_add_str (s t : String) (line : Line) :
    evalExpr invoke env (.binary (.str s line) .add (.str t line) line) =
      pure (.string (s ++ t)) := by
  rw [evalExpr, evalExpr, evalExpr, pure_bind, pure_bind]
  rfl

/-- Two prints come to what a write of both texts in one comes to. -/
theorem execBlock_prints (s t : String) (line : Line) (state : State S) :
    let apart := execBlock fuel invoke env
      [.print (.str s line) .none line, .print (.str t line) .none line] state
    let whole := EvalM.write line (decode s ++ decode t) state
    apart.1 = whole.1.map (fun _ ↦ .normal) ∧ apart.2.sink.output = whole.2.sink.output := by
  intro apart whole
  have hwrites : apart =
      ((EvalM.write line (decode s) >>= fun _ ↦ EvalM.write line (decode t)) >>=
        fun _ ↦ pure .normal) state := by
    simp only [apart]
    rw [execBlock_print fuel (by rw [evalExpr]), execBlock_print fuel (by rw [evalExpr]), execBlock,
      bind_assoc]
  obtain ⟨houtcome, houtput, -⟩ := write_append line (decode s) (decode t) state
  rw [hwrites, EvalM.bind_pure_apply]
  exact ⟨congrArg (Except.map _) houtcome, houtput⟩

theorem execBlock_print_add (s t : String) (line : Line) (state : State S) :
    execBlock fuel invoke env
        [.print (.binary (.str s line) .add (.str t line) line) .none line] state =
      ((EvalM.write line (decode (s ++ t)) state).1.map (fun _ ↦ .normal),
        (EvalM.write line (decode (s ++ t)) state).2) := by
  rw [execBlock_print fuel (evalExpr_add_str s t line), execBlock, EvalM.bind_pure_apply]

end Printing

/-- A text can be decoded in two pieces, whatever the second piece, exactly if the scan of the first
does not end in a pending escape. Then two prints of the pieces come to the same as one print of
both and write the same, whatever room the sink has. If it does end in one, there is a second piece
with which an unlimited sink shows the difference. -/
theorem decode_append_iff (s : String) :
    ((∀ t, decode (s ++ t) = decode s ++ decode t) ↔ ¬ EndsPending s.toList) ∧
    ∀ (S : Type) [Scopes S] (fuel : Nat) (invoke : Invoke S) (env : FrameId) (line : Line)
      (state : State S),
      let apart (t : String) := execBlock fuel invoke env
        [.print (.str s line) .none line, .print (.str t line) .none line] state
      let together (t : String) := execBlock fuel invoke env
        [.print (.binary (.str s line) .add (.str t line) line) .none line] state
      (¬ EndsPending s.toList → ∀ t,
        (apart t).1 = (together t).1 ∧ (apart t).2.sink.output = (together t).2.sink.output) ∧
      (state.sink.room = none →
        (∀ t, (apart t).2.sink.output = (together t).2.sink.output) → ¬ EndsPending s.toList) := by
  refine ⟨decode_append, fun S _ fuel invoke env line state ↦ ?_⟩
  intro apart together
  have hapart (t : String) : (apart t).1 = _ ∧ (apart t).2.sink.output = _ :=
    execBlock_prints fuel s t line state
  have htogether (t : String) : together t = _ := execBlock_print_add fuel s t line state
  refine ⟨fun hpending t ↦ ?_, fun hroom hsame ↦ ?_⟩
  · rw [htogether, (hapart t).1, (hapart t).2, decode_append.mpr hpending]
    exact ⟨rfl, rfl⟩
  · refine decode_append.mp fun t ↦ utf8_injective ?_
    have hsame' := hsame t
    rw [htogether, (hapart t).2, EvalM.write_apply, EvalM.write_apply] at hsame'
    simp only [Sink.output_write, Sink.fitting_of_room_eq_none hroom] at hsame'
    exact (List.append_cancel_left hsame').symm

/-- After a doubled backslash `x4` is plain text, after a single one it waits for a digit. -/
theorem decode_append_iff_doubled :
    (∀ t, decode ("\\\\x4" ++ t) = decode "\\\\x4" ++ decode t) ∧
      ¬ ∀ t, decode ("\\x4" ++ t) = decode "\\x4" ++ decode t := by
  have hfour : IsDigit 16 '4' 4 := by decide
  have hdoubled : ¬ EndsPending "\\\\x4".toList := by
    have hsteps : EndsPending ['\\', '\\', 'x', '4'] ↔
        IsPending ['\\', '\\', 'x', '4'] ∨ IsPending ['x', '4'] ∨ IsPending ['4'] ∨
          EndsPending [] := by
      rw [endsPending_iff rfl, endsPending_iff rfl, endsPending_iff rfl]
    intro h
    rcases hsteps.mp h with hpending | hpending | hpending | hpending
    · cases hpending with
      | octal _ hlength => exact absurd hlength (by decide)
    · cases hpending
    · cases hpending
    · exact not_endsPending_nil hpending
  exact ⟨(decode_append_iff _).1.mpr hdoubled,
    fun hall ↦ (decode_append_iff _).1.mp hall ⟨_, .refl, .hexDigit hfour⟩⟩

end Treewalk.Escape
