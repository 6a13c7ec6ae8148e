import Mathlib.Logic.Relation
import Treewalk.Proofs.Text.Numeral

/-!
# The grammar of printed text

A printed text is a row of tokens, each of which denotes a character or nothing. `IsEscape`,
`IsToken` and `IsSplit` say which rows of spellings are splits of a text into tokens and what they
denote, without a word on how they are found. Every text has exactly one split, and decoding is what
it denotes (`decode_grammar`). So a text is read back however its characters were spelled, and
no numeral in an escape exceeds the code points.
-/

set_option autoImplicit false
set_option relaxedAutoImplicit false

namespace Treewalk.Escape

/-! ### Tokens -/

/-- The marks that name one character each, with that character. -/
def marks : List (Char × Char) :=
  [('n', '\n'), ('t', '\t'), ('r', '\r'), ('\\', '\\'), ('\'', '\''), ('"', '"'), ('a', '\x07'),
    ('b', '\x08'), ('f', '\x0c'), ('v', '\x0b')]

/-- How the escapes before a text are spelled, and what they denote. -/
inductive IsEscape (rest : List Char) : List Char → List Char → Prop
  | continuation : IsEscape rest ['\\', '\n'] []
  | mark {mark c : Char} (hmark : (mark, c) ∈ marks) : IsEscape rest ['\\', mark] [c]
  /-- Fewer than three digits do not stand before a further one. -/
  | octal {digits : List Char} {c : Char} (hnonempty : digits ≠ []) (hlength : digits.length ≤ 3)
      (hcode : IsNumeral 8 digits c.toNat)
      (hend : digits.length < 3 → ∀ next ∈ rest.head?, ∀ value, ¬ IsDigit 8 next value) :
      IsEscape rest ('\\' :: digits) [c]
  | hex {high low c : Char} (hcode : IsNumeral 16 [high, low] c.toNat) :
      IsEscape rest ['\\', 'x', high, low] [c]

/-- The text begins with an escape. -/
def StartsEscape (text : List Char) : Prop :=
  ∃ rest spelling denoted, IsEscape rest spelling denoted ∧ text = spelling ++ rest

/-- How the tokens before a text are spelled, and what they denote. -/
inductive IsToken (rest : List Char) : List Char → List Char → Prop
  | plain {c : Char} (hplain : c ≠ '\\') : IsToken rest [c] [c]
  | escape {spelling denoted : List Char} (hescape : IsEscape rest spelling denoted) :
      IsToken rest spelling denoted
  | backslash (hnone : ¬ StartsEscape ('\\' :: rest)) : IsToken rest ['\\'] ['\\']

/-- The spellings are tokens, each before the text that the later ones make up, and denote the
characters all together. -/
inductive IsSplit : List (List Char) → List Char → Prop
  | nil : IsSplit [] []
  | cons {spelling denoted shown : List Char} {spellings : List (List Char)}
      (hfirst : IsToken spellings.flatten spelling denoted) (hrest : IsSplit spellings shown) :
      IsSplit (spelling :: spellings) (denoted ++ shown)

variable {text rest spelling denoted shown digits : List Char} {spellings : List (List Char)}
  {token : Token} {c mark : Char} {code : Nat}

/-! ### Code points -/

theorem toNat_ofCodePoint (hvalid : code.isValidChar) : (ofCodePoint code).toNat = code := by
  rw [ofCodePoint, dif_pos hvalid]
  rfl

theorem ofCodePoint_toNat (c : Char) : ofCodePoint c.toNat = c :=
  Char.toNat_inj.mp (toNat_ofCodePoint c.valid)

/-- A numeral too short to reach the surrogates writes the code of the character that it is taken
for. -/
theorem IsNumeral.toNat_ofCodePoint {base : Nat} (hbase : 1 < base)
    (h : IsNumeral base digits code) (hshort : base ^ digits.length ≤ 512) :
    code.isValidChar ∧ IsNumeral base digits (ofCodePoint code).toNat := by
  have hlt := h.lt hbase
  have hvalid : code.isValidChar := .inl (by omega)
  exact ⟨hvalid, (Escape.toNat_ofCodePoint hvalid).symm ▸ h⟩

theorem isNumeral_octal (hdigits : ∀ digit ∈ digits, isOctalDigit digit = true)
    (hlength : digits.length ≤ 3) :
    (octalValue digits).isValidChar ∧
      IsNumeral 8 digits (ofCodePoint (octalValue digits)).toNat :=
  (isNumeral_octal_iff.mpr ⟨hdigits, rfl⟩).toNat_ofCodePoint (by decide)
    (Nat.pow_le_pow_right (by decide) hlength)

theorem isNumeral_hex {high low : Char} (hhigh : isHexDigit high = true)
    (hlow : isHexDigit low = true) :
    (hexPairValue high low).isValidChar ∧
      IsNumeral 16 [high, low] (ofCodePoint (hexPairValue high low)).toNat :=
  (isNumeral_hex_iff.mpr ⟨⟨hhigh, hlow⟩, rfl⟩).toNat_ofCodePoint (by decide) (by simp)

/-- If there is a numeral in the token, it writes a code point. -/
def Token.HasCodePoint : Token → Prop
  | octal digits => (octalValue digits).isValidChar
  | hex high low => (hexPairValue high low).isValidChar
  | plain _ | continuation | named _ | backslash => True

/-! ### Escapes and the decoder -/

theorem named?_eq_some_iff : named? mark = some c ↔ (mark, c) ∈ marks := by
  constructor
  · intro h
    unfold named? at h
    split at h <;> cases h <;> decide
  · intro h
    simp only [marks, List.mem_cons, Prod.mk.injEq, List.not_mem_nil, or_false] at h
    rcases h with ⟨rfl, rfl⟩ | ⟨rfl, rfl⟩ | ⟨rfl, rfl⟩ | ⟨rfl, rfl⟩ | ⟨rfl, rfl⟩ | ⟨rfl, rfl⟩ |
      ⟨rfl, rfl⟩ | ⟨rfl, rfl⟩ | ⟨rfl, rfl⟩ | ⟨rfl, rfl⟩ <;> rfl

namespace Token

theorem escape?_of_ne (hc : c ≠ 'x') (rest : List Char) :
    escape? (c :: rest) =
      if c = '\n' then some (continuation, rest)
      else if isOctalDigit c then
        some (octal (c :: (rest.take 2).takeWhile isOctalDigit),
          rest.drop ((rest.take 2).takeWhile isOctalDigit).length)
      else if (named? c).isSome then some (named c, rest)
      else none := by
  rw [escape?]
  · rfl
  · intro high low rest' h
    exact absurd h hc

/-- Where a run of at most so many characters ends early, the next one does not belong to it. -/
theorem head?_drop_takeWhile {p : Char → Bool} {count : Nat} :
    ((text.take count).takeWhile p).length < count →
      ∀ next ∈ (text.drop ((text.take count).takeWhile p).length).head?, ¬ p next = true := by
  induction count generalizing text with
  | zero => exact fun h ↦ absurd h (Nat.not_lt_zero _)
  | succ count ih =>
    cases text with
    | nil => simp
    | cons c text =>
      by_cases hc : p c = true
      · simpa [hc] using ih
      · simp [hc]

/-- An octal escape takes three octal digits at most. -/
theorem isOctal_run (hc : isOctalDigit c = true) (text : List Char) :
    let digits := c :: (text.take 2).takeWhile isOctalDigit
    (∀ digit ∈ digits, isOctalDigit digit = true) ∧ digits.length ≤ 3 := by
  intro digits
  refine ⟨?_, Nat.succ_le_succ ?_⟩
  · rw [← List.all_eq_true, List.all_cons, hc, List.all_takeWhile]
    rfl
  · exact (List.takeWhile_prefix isOctalDigit).length_le.trans (text.length_take_le 2)

/-- An escape that the decoder finds is one, and if there is a numeral in it, that writes a code
point. -/
theorem isEscape_of_escape? (h : escape? text = some (token, rest)) :
    IsEscape rest token.spelling token.denotation.toList ∧ '\\' :: text = token.spelling ++ rest ∧
      token.HasCodePoint := by
  revert h
  fun_cases escape? text with
  | case1 => nofun
  | case2 high low tail hdigits =>
    rintro ⟨⟩
    obtain ⟨hhigh, hlow⟩ := Bool.and_eq_true_iff.mp hdigits
    obtain ⟨hvalid, hcode⟩ := isNumeral_hex hhigh hlow
    exact ⟨.hex hcode, rfl, hvalid⟩
  | case3 => nofun
  | case4 tail =>
    rintro ⟨⟩
    exact ⟨.continuation, rfl, trivial⟩
  | case5 c tail _ _ hdigit digits =>
    rintro ⟨⟩
    obtain ⟨hdigits, hlength⟩ := isOctal_run hdigit tail
    obtain ⟨hvalid, hcode⟩ := isNumeral_octal hdigits hlength
    have hprefix : (tail.take 2).takeWhile isOctalDigit <+: tail :=
      (List.takeWhile_prefix _).trans (List.take_prefix 2 tail)
    refine ⟨.octal (List.cons_ne_nil _ _) hlength hcode fun hfew next hnext value hvalue ↦ ?_, ?_,
      hvalid⟩
    · exact head?_drop_takeWhile (Nat.lt_of_succ_lt_succ hfew) next hnext
        (isDigit_octal_iff.mp hvalue).1
    · exact congrArg ('\\' :: c :: ·) (List.prefix_iff_eq_append.mp hprefix).symm
  | case6 c tail _ _ _ hnamed =>
    rintro ⟨⟩
    obtain ⟨denoted, hdenoted⟩ := Option.isSome_iff_exists.mp hnamed
    show IsEscape _ _ (named? c).toList ∧ _
    rw [hdenoted]
    exact ⟨.mark (named?_eq_some_iff.mp hdenoted), rfl, trivial⟩
  | case7 => nofun

/-- An octal escape takes the digits up to the third, or all there are if they are fewer. -/
theorem escape?_octal (hnonempty : digits ≠ []) (hlength : digits.length ≤ 3)
    (hdigits : ∀ digit ∈ digits, isOctalDigit digit = true)
    (hend : digits.length < 3 → ∀ next ∈ rest.head?, ¬ isOctalDigit next = true) :
    escape? (digits ++ rest) = some (octal digits, rest) := by
  obtain ⟨c, run, rfl⟩ := List.exists_cons_of_ne_nil hnonempty
  obtain ⟨hc, hrun⟩ := List.forall_mem_cons.mp hdigits
  have hx : c ≠ 'x' := by
    rintro rfl
    exact absurd hc (by decide)
  have hfeed : c ≠ '\n' := by
    rintro rfl
    exact absurd hc (by decide)
  have hlength' : run.length ≤ 2 := Nat.le_of_succ_le_succ hlength
  have htake : ((run ++ rest).take 2).takeWhile isOctalDigit = run := by
    rw [List.take_append, List.take_of_length_le hlength', List.takeWhile_append_of_pos hrun]
    suffices hnone : (rest.take (2 - run.length)).takeWhile isOctalDigit = [] by
      rw [hnone, List.append_nil]
    rcases Nat.lt_or_eq_of_le hlength' with hfew | hfull
    · cases rest with
      | nil => simp
      | cons next rest =>
        have hnext := hend (Nat.succ_lt_succ hfew) next rfl
        obtain ⟨room, hroom⟩ : ∃ room, 2 - run.length = room + 1 := ⟨1 - run.length, by omega⟩
        rw [hroom, List.take_succ_cons, List.takeWhile_cons_of_neg hnext]
    · simp [hfull]
  rw [List.cons_append, escape?_of_ne hx, if_neg hfeed, if_pos hc, htake, List.drop_left]

/-- The decoder finds every escape. -/
theorem escape?_of_isEscape (h : IsEscape rest spelling denoted) :
    ∃ token text, escape? text = some (token, rest) ∧ spelling ++ rest = '\\' :: text ∧
      token.spelling = spelling ∧ token.denotation.toList = denoted := by
  cases h with
  | continuation => exact ⟨continuation, '\n' :: rest, rfl, rfl, rfl, rfl⟩
  | @mark mark c hmark =>
    have hmarks : ∀ pair ∈ marks, pair.1 ≠ 'x' ∧ pair.1 ≠ '\n' ∧ ¬ isOctalDigit pair.1 = true := by
      decide
    obtain ⟨hx, hfeed, hdigit⟩ := hmarks _ hmark
    have hnamed := named?_eq_some_iff.mpr hmark
    refine ⟨named mark, mark :: rest, ?_, rfl, rfl, congrArg Option.toList hnamed⟩
    rw [escape?_of_ne hx, if_neg hfeed, if_neg hdigit, if_pos (by rw [hnamed]; rfl)]
  | @octal digits c hnonempty hlength hcode hend =>
    obtain ⟨hdigits, hvalue⟩ := isNumeral_octal_iff.mp hcode
    refine ⟨octal digits, digits ++ rest, ?_, rfl, rfl, ?_⟩
    · exact escape?_octal hnonempty hlength hdigits fun hfew next hnext hdigit ↦
        hend hfew next hnext _ (isDigit_octal_iff.mpr ⟨hdigit, rfl⟩)
    · show [ofCodePoint (octalValue digits)] = [c]
      rw [hvalue, ofCodePoint_toNat]
  | @hex high low c hcode =>
    obtain ⟨hdigits, hvalue⟩ := isNumeral_hex_iff.mp hcode
    refine ⟨hex high low, 'x' :: high :: low :: rest, ?_, rfl, rfl, ?_⟩
    · exact if_pos (Bool.and_eq_true_iff.mpr hdigits)
    · show [ofCodePoint (hexPairValue high low)] = [c]
      rw [hvalue, ofCodePoint_toNat]

theorem startsEscape_iff : StartsEscape ('\\' :: text) ↔ (escape? text).isSome := by
  constructor
  · rintro ⟨rest, spelling, denoted, hescape, htext⟩
    obtain ⟨token, text', hfound, hspelling, -⟩ := escape?_of_isEscape hescape
    obtain rfl : text = text' := (List.cons.inj (htext.trans hspelling)).2
    rw [hfound]
    rfl
  · intro hsome
    obtain ⟨⟨token, rest⟩, hfound⟩ := Option.isSome_iff_exists.mp hsome
    obtain ⟨hescape, htext, -⟩ := isEscape_of_escape? hfound
    exact ⟨rest, _, _, hescape, htext⟩

/-! ### Tokens and the decoder -/

/-- What the decoder takes off a text is a token before the text that is left. -/
theorem isToken_of_next? (h : next? text = some (token, rest)) :
    IsToken rest token.spelling token.denotation.toList ∧ text = token.spelling ++ rest ∧
      token.HasCodePoint := by
  revert h
  fun_cases next? text with
  | case1 => nofun
  | case2 tail =>
    cases hfound : escape? tail with
    | none =>
      rintro ⟨⟩
      exact ⟨.backslash (by simp [startsEscape_iff, hfound]), rfl, trivial⟩
    | some pair =>
      rintro ⟨⟩
      obtain ⟨hescape, htext, hcode⟩ := isEscape_of_escape? hfound
      exact ⟨.escape hescape, htext, hcode⟩
  | case3 c tail hplain =>
    rintro ⟨⟩
    exact ⟨.plain hplain, rfl, trivial⟩

/-- Every token is taken off before whatever text it may stand before. -/
theorem next?_of_isToken (h : IsToken rest spelling denoted) :
    ∃ token, next? (spelling ++ rest) = some (token, rest) ∧ token.spelling = spelling ∧
      token.denotation.toList = denoted := by
  cases h with
  | @plain c hplain =>
    refine ⟨plain c, ?_, rfl, rfl⟩
    rw [List.singleton_append, next?]
    exact fun h ↦ hplain h
  | escape hescape =>
    obtain ⟨token, text, hfound, htext, hspelling, hdenoted⟩ := escape?_of_isEscape hescape
    refine ⟨token, ?_, hspelling, hdenoted⟩
    rw [htext, next?, hfound]
    rfl
  | backslash hnone =>
    have hfound : escape? rest = none := by
      rwa [startsEscape_iff, Option.not_isSome_iff_eq_none] at hnone
    refine ⟨backslash, ?_, rfl, rfl⟩
    rw [List.singleton_append, next?, hfound]
    rfl

end Token

open Token

/-! ### Splits and the decoder -/

/-- The characters that a text denotes. -/
def denotations (text : List Char) : List Char :=
  (tokens text).filterMap denotation

theorem toList_decode (text : String) : (decode text).toList = denotations text.toList :=
  String.toList_ofList

theorem tokens_nil : tokens [] = [] := by
  rw [tokens]
  rfl

theorem denotations_nil : denotations [] = [] :=
  congrArg (List.filterMap _) tokens_nil

theorem tokens_of_next? (h : next? text = some (token, rest)) :
    tokens text = token :: tokens rest := by
  rw [tokens]
  split
  · simp_all
  · simp_all

theorem denotations_of_next? (h : next? text = some (token, rest)) :
    denotations text = token.denotation.toList ++ denotations rest := by
  rw [denotations, tokens_of_next? h, List.filterMap_cons]
  cases token.denotation <;> rfl

/-- A text is empty, or there is a first token and a text after it. -/
theorem scan_induction {motive : List Char → Prop} (text : List Char) (nil : motive [])
    (next : ∀ text token rest, next? text = some (token, rest) → motive rest → motive text) :
    motive text := by
  induction text using tokens.induct with
  | case1 text hnone =>
    revert hnone
    fun_cases next? text with
    | case1 => exact fun _ ↦ nil
    | case2 => nofun
    | case3 => nofun
  | case2 text token rest hnext ih => exact next text token rest hnext ih

theorem isSplit_tokens (text : List Char) :
    IsSplit ((tokens text).map Token.spelling) (denotations text) ∧
      ((tokens text).map Token.spelling).flatten = text := by
  induction text using scan_induction with
  | nil =>
    rw [tokens_nil, denotations_nil]
    exact ⟨.nil, rfl⟩
  | next text token rest hnext ih =>
    obtain ⟨hrest, hflatten⟩ := ih
    obtain ⟨htoken, htext, -⟩ := isToken_of_next? hnext
    rw [tokens_of_next? hnext, denotations_of_next? hnext, List.map_cons, List.flatten_cons,
      hflatten, htext]
    exact ⟨.cons (hflatten.symm ▸ htoken) hrest, rfl⟩

/-- A split is the one that the decoder makes. -/
theorem IsSplit.eq_tokens (h : IsSplit spellings shown) :
    (tokens spellings.flatten).map Token.spelling = spellings ∧
      denotations spellings.flatten = shown := by
  induction h with
  | nil => exact ⟨congrArg (List.map _) tokens_nil, denotations_nil⟩
  | cons hfirst hrest ih =>
    obtain ⟨token, hnext, hspelling, hdenoted⟩ := next?_of_isToken hfirst
    rw [List.flatten_cons, tokens_of_next? hnext, denotations_of_next? hnext, List.map_cons,
      hspelling, hdenoted, ih.1, ih.2]
    exact ⟨rfl, rfl⟩

/-- The scan of a text comes to a position, which is given by the text left there. -/
def Reaches : List Char → List Char → Prop :=
  Relation.ReflTransGen fun text rest ↦ ∃ token, next? text = some (token, rest)

theorem suffix_of_reaches {position : List Char} (h : Reaches text position) :
    position <:+ text := by
  induction h with
  | refl => exact List.suffix_refl text
  | tail _ hstep ih =>
    obtain ⟨token, hnext⟩ := hstep
    rw [(isToken_of_next? hnext).2.1] at ih
    exact (List.suffix_append _ _).trans ih

theorem hasCodePoint_of_mem (h : token ∈ tokens text) : token.HasCodePoint := by
  induction text using scan_induction with
  | nil =>
    rw [tokens_nil] at h
    cases h
  | next text first rest hnext ih =>
    rw [tokens_of_next? hnext] at h
    rcases List.mem_cons.mp h with rfl | h
    · exact (isToken_of_next? hnext).2.2
    · exact ih h

/-! ### Spellings of a text -/

/-- The ways to spell a character that do not depend on what follows. -/
inductive Spells (c : Char) : List Char → Prop
  | itself (hplain : c ≠ '\\') : Spells c [c]
  | mark {mark : Char} (hmark : (mark, c) ∈ marks) : Spells c ['\\', mark]
  | octal (hcode : c.toNat ≤ 511) : Spells c ['\\', Nat.digitChar (c.toNat / 64),
      Nat.digitChar (c.toNat / 8 % 8), Nat.digitChar (c.toNat % 8)]
  | hex {high low : Char} (hcode : c.toNat ≤ 255) (hhigh : IsDigit 16 high (c.toNat / 16))
      (hlow : IsDigit 16 low (c.toNat % 16)) : Spells c ['\\', 'x', high, low]

theorem Spells.isToken (h : Spells c spelling) (rest : List Char) : IsToken rest spelling [c] := by
  cases h with
  | itself hplain => exact .plain hplain
  | mark hmark => exact .escape (.mark hmark)
  | octal hcode =>
    have hdigits : List.Forall₂ (IsDigit 8) [Nat.digitChar (c.toNat / 64),
        Nat.digitChar (c.toNat / 8 % 8), Nat.digitChar (c.toNat % 8)]
        [c.toNat / 64, c.toNat / 8 % 8, c.toNat % 8] :=
      .cons ⟨by omega, .inl rfl⟩ (.cons ⟨by omega, .inl rfl⟩ (.cons ⟨by omega, .inl rfl⟩ .nil))
    refine .escape (.octal (List.cons_ne_nil _ _) (Nat.le_refl 3) ⟨_, hdigits, ?_⟩
      fun hfew ↦ absurd hfew (Nat.lt_irrefl 3))
    simp [Nat.ofDigits_cons]
    omega
  | hex hcode hhigh hlow =>
    refine .escape (.hex ⟨_, .cons hhigh (.cons hlow .nil), ?_⟩)
    simp [Nat.ofDigits_cons]
    omega

/-- A text whose characters are spelled in such ways, each in its own, denotes the text. -/
theorem isSplit_of_spells (h : List.Forall₂ Spells text spellings) : IsSplit spellings text := by
  induction h with
  | nil => exact .nil
  | cons hfirst _ ih => exact .cons (hfirst.isToken _) ih

/-- Every text has exactly one split into tokens, and decoding it gives what they denote, one after
another. So a text comes back from every spelling of its characters. In no text does the numeral in
an escape miss the code points, so the replacement character never stands in for one. -/
theorem decode_grammar :
    (∀ text : String,
      (∃! spellings, spellings.flatten = text.toList ∧ ∃ shown, IsSplit spellings shown) ∧
      ∀ spellings shown, spellings.flatten = text.toList → IsSplit spellings shown →
        decode text = String.ofList shown) ∧
    (∀ (text : String) (spellings : List (List Char)), List.Forall₂ Spells text.toList spellings →
      decode (String.ofList spellings.flatten) = text) ∧
    ∀ text : String, ∀ token ∈ tokens text.toList, token.HasCodePoint := by
  have hdecode : ∀ text spellings shown, spellings.flatten = String.toList text →
      IsSplit spellings shown → decode text = String.ofList shown := by
    intro text spellings shown hflatten hsplit
    rw [← hsplit.eq_tokens.2, hflatten, ← toList_decode, String.ofList_toList]
  refine ⟨fun text ↦ ⟨?_, hdecode text⟩, fun text spellings hspells ↦ ?_,
    fun text token ↦ hasCodePoint_of_mem⟩
  · obtain ⟨hsplit, hflatten⟩ := isSplit_tokens text.toList
    refine ⟨_, ⟨hflatten, _, hsplit⟩, ?_⟩
    rintro spellings ⟨hflatten', shown, hsplit'⟩
    rw [← hflatten']
    exact hsplit'.eq_tokens.1.symm
  · rw [hdecode _ spellings text.toList String.toList_ofList.symm (isSplit_of_spells hspells),
      String.ofList_toList]

/-- A letter, a backslash, a character past ASCII and a line feed, each spelled in another way. -/
theorem decode_grammar_mixture : decode "A\\x5c\\377\\n" = "A\\ÿ\n" := by
  have hspells : List.Forall₂ Spells "A\\ÿ\n".toList
      [['A'], ['\\', 'x', '5', 'c'], ['\\', '3', '7', '7'], ['\\', 'n']] :=
    .cons (.itself (by decide)) (.cons (.hex (by decide) (by decide) (by decide))
      (.cons (.octal (by decide)) (.cons (.mark (by decide)) .nil)))
  have hdecode := decode_grammar.2.1 _ _ hspells
  exact hdecode

end Treewalk.Escape
