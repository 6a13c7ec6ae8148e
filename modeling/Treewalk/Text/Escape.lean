/-!
# Escapes in printed text

A text is a row of tokens: plain characters and escapes, which a backslash opens. `Token.next?`
takes the first token off a text, `tokens` splits a whole text, and `decode` is what the tokens
denote, in order. A backslash with which no escape starts is a token by itself and denotes a
backslash, so no text is refused.
-/

set_option autoImplicit false
set_option relaxedAutoImplicit false

namespace Treewalk.Escape

/-- The character that a mark after a backslash names. -/
def named? : Char → Option Char
  | 'n' => some '\n'
  | 't' => some '\t'
  | 'r' => some '\r'
  | '\\' => some '\\'
  | '\'' => some '\''
  | '"' => some '"'
  | 'a' => some '\x07'
  | 'b' => some '\x08'
  | 'f' => some '\x0c'
  | 'v' => some '\x0b'
  | _ => none

def isOctalDigit (c : Char) : Bool :=
  '0' ≤ c && c ≤ '7'

/-- The digits of base sixteen in ASCII, in either case. -/
def hexValue? (c : Char) : Option Nat :=
  if '0' ≤ c ∧ c ≤ '9' then some (c.toNat - '0'.toNat)
  else if 'a' ≤ c ∧ c ≤ 'f' then some (c.toNat - 'a'.toNat + 10)
  else if 'A' ≤ c ∧ c ≤ 'F' then some (c.toNat - 'A'.toNat + 10)
  else none

def isHexDigit (c : Char) : Bool :=
  (hexValue? c).isSome

/-- The number that a row of octal digits writes. -/
def octalValue (digits : List Char) : Nat :=
  digits.foldl (fun value digit ↦ 8 * value + (digit.toNat - '0'.toNat)) 0

def hexPairValue (high low : Char) : Nat :=
  16 * (hexValue? high).getD 0 + (hexValue? low).getD 0

/-- The character of a code point; the replacement character for a number that is none. -/
def ofCodePoint (code : Nat) : Char :=
  if hvalid : code.isValidChar then Char.ofNatAux code hvalid else '\uFFFD'

inductive Token where
  /-- A character other than a backslash. -/
  | plain (c : Char)
  /-- A backslash before a line feed: the text goes on in the next line. -/
  | continuation
  /-- A backslash and a mark of `named?`. -/
  | named (mark : Char)
  /-- A backslash and one to three octal digits. -/
  | octal (digits : List Char)
  /-- A backslash, an `x` and two digits of base sixteen. -/
  | hex (high low : Char)
  /-- A backslash with which no escape starts. -/
  | backslash
  deriving DecidableEq

namespace Token

/-- The characters a token consists of. -/
def spelling : Token → List Char
  | plain c => [c]
  | continuation => ['\\', '\n']
  | named mark => ['\\', mark]
  | octal digits => '\\' :: digits
  | hex high low => ['\\', 'x', high, low]
  | backslash => ['\\']

/-- The character a token stands for. A continued line stands for nothing. -/
def denotation : Token → Option Char
  | plain c => some c
  | continuation => none
  | named mark => named? mark
  | octal digits => some (ofCodePoint (octalValue digits))
  | hex high low => some (ofCodePoint (hexPairValue high low))
  | backslash => some '\\'

/-- The escape that starts with a backslash before the given text, and the text after it. An octal
escape takes as many digits as it can. -/
def escape? : List Char → Option (Token × List Char)
  | [] => none
  | 'x' :: high :: low :: rest =>
    if isHexDigit high && isHexDigit low then some (hex high low, rest) else none
  | c :: rest =>
    if c = '\n' then
      some (continuation, rest)
    else if isOctalDigit c then
      let digits := c :: (rest.take 2).takeWhile isOctalDigit
      some (octal digits, rest.drop (digits.length - 1))
    else if (named? c).isSome then
      some (named c, rest)
    else
      none

/-- The first token of a text and the text after it. -/
def next? : List Char → Option (Token × List Char)
  | [] => none
  | '\\' :: rest => some ((escape? rest).getD (backslash, rest))
  | c :: rest => some (plain c, rest)

theorem length_le_of_escape? {text rest : List Char} {token : Token}
    (hescape : escape? text = some (token, rest)) : rest.length ≤ text.length := by
  unfold escape? at hescape
  split at hescape
  · contradiction
  · split at hescape
    · cases hescape
      simp only [List.length_cons]
      omega
    · contradiction
  · split at hescape
    · cases hescape
      simp
    · split at hescape
      · cases hescape
        simp only [List.length_cons, List.length_drop]
        omega
      · split at hescape
        · cases hescape
          simp
        · contradiction

/-- Every token takes at least one character. -/
theorem length_lt_of_next? {text rest : List Char} {token : Token}
    (hnext : next? text = some (token, rest)) : rest.length < text.length := by
  unfold next? at hnext
  split at hnext
  · contradiction
  · rename_i tail
    cases hescape : escape? tail with
    | none =>
      rw [hescape] at hnext
      cases hnext
      simp
    | some pair =>
      obtain ⟨found, left⟩ := pair
      rw [hescape] at hnext
      cases hnext
      exact Nat.lt_succ_of_le (length_le_of_escape? hescape)
  · cases hnext
    simp

end Token

/-- A text split into its tokens. -/
def tokens (text : List Char) : List Token :=
  match _hnext : Token.next? text with
  | none => []
  | some (token, rest) => token :: tokens rest
termination_by text.length
decreasing_by exact Token.length_lt_of_next? _hnext

/-- The text that a text with escapes denotes. -/
def decode (text : String) : String :=
  String.ofList ((tokens text.toList).filterMap Token.denotation)

end Treewalk.Escape
