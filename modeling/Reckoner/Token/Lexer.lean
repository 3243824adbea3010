import Reckoner.Token.Basic
import Reckoner.Token.Numeral

set_option autoImplicit false

/-!
# Cutting a text into tokens

A *spelling* is a lexeme as it is written.  `Spelling.read` takes one off the
front of an input that does not start with a blank, and `Token.scan` repeats this
to the end.  A sign belongs to a number exactly when a digit follows it at once;
runs of operator characters and of letters are taken as long as they are, and a
sign inside a run of operator characters stays in the run.
-/

namespace Reckoner

/-- Characters between lexemes. -/
def isSpacing (c : Char) : Bool := c == ' ' || c == '\t' || c == '\n'

/-- The characters that operators are made of, ordered by code points. -/
def operatorChars : List Char := ['%', '*', '+', '-', '/', '^']

/-- Whether operators are made of a character. -/
def isOperatorChar (c : Char) : Bool := operatorChars.contains c

/-- A lexeme as it is written. -/
inductive Spelling where
  | numeral (n : Numeral)
  | operator (symbol : List Char)
  | name (letters : List Char)
  | openParen
  | closeParen
  | comma
  deriving DecidableEq, Repr

namespace Spelling

/-- The characters of a spelling. -/
def chars : Spelling → List Char
  | .numeral n => n.chars
  | .operator symbol => symbol
  | .name letters => letters
  | .openParen => ['(']
  | .closeParen => [')']
  | .comma => [',']

/-- What a spelling denotes. -/
def lexeme : Spelling → Lexeme
  | .numeral n => .number n.value
  | .operator symbol => .operator (String.ofList symbol)
  | .name letters => .name (String.ofList letters)
  | .openParen => .openParen
  | .closeParen => .closeParen
  | .comma => .comma

/-- Whether a numeral starts here: a digit, or a sign with a digit right after it. -/
def startsNumeral (c : Char) (rest : List Char) : Bool :=
  c.isDigit || (Sign.isSignChar c && rest.head?.any Char.isDigit)

/-- Reads the spelling that starts with `c` at `index`. -/
def read (index : Nat) (c : Char) (rest : List Char) : Except LexError (Spelling × List Char) :=
  if startsNumeral c rest then
    (Numeral.read index (c :: rest)).map fun (n, after) => (.numeral n, after)
  else if isOperatorChar c then
    .ok (.operator (c :: rest.takeWhile isOperatorChar), rest.dropWhile isOperatorChar)
  else if c.isAlpha then
    .ok (.name (c :: rest.takeWhile Char.isAlpha), rest.dropWhile Char.isAlpha)
  else if c = '(' then .ok (.openParen, rest)
  else if c = ')' then .ok (.closeParen, rest)
  else if c = ',' then .ok (.comma, rest)
  else .error (.unexpectedCharacter c index)

/-! ## A read spelling is what the input starts with -/

theorem chars_append_of_read {index : Nat} {c : Char} {cs rest : List Char} {s : Spelling}
    (h : read index c cs = .ok (s, rest)) : s.chars ++ rest = c :: cs := by
  unfold read at h
  split at h
  · cases hn : Numeral.read index (c :: cs) with
    | error e => rw [hn] at h; cases h
    | ok p =>
      rw [hn] at h
      cases h
      exact Numeral.chars_append_of_read hn
  · split at h
    · cases h; simp [chars]
    · split at h
      · cases h; simp [chars]
      · split at h
        · cases h; simp_all [chars]
        · split at h
          · cases h; simp_all [chars]
          · split at h
            · cases h; simp_all [chars]
            · cases h

theorem chars_ne_nil_of_read {index : Nat} {c : Char} {cs rest : List Char} {s : Spelling}
    (h : read index c cs = .ok (s, rest)) : s.chars ≠ [] := by
  unfold read at h
  split at h
  · cases hn : Numeral.read index (c :: cs) with
    | error e => rw [hn] at h; cases h
    | ok p =>
      rw [hn] at h
      cases h
      exact Numeral.chars_ne_nil_of_read hn
  · split at h
    · cases h; simp [chars]
    · split at h
      · cases h; simp [chars]
      · split at h
        · cases h; simp [chars]
        · split at h
          · cases h; simp [chars]
          · split at h
            · cases h; simp [chars]
            · cases h

theorem length_lt_of_read {index : Nat} {c : Char} {cs rest : List Char} {s : Spelling}
    (h : read index c cs = .ok (s, rest)) : rest.length < (c :: cs).length := by
  rw [← chars_append_of_read h, List.length_append]
  have := List.length_pos_iff.mpr (chars_ne_nil_of_read h)
  omega

end Spelling

namespace Token

/-- The tokens of an input whose first character is found at `index`. -/
def scan (index : Nat) : List Char → Except LexError (List Token)
  | [] => .ok []
  | c :: cs =>
    if isSpacing c then scan (index + 1) cs
    else match _read : Spelling.read index c cs with
      | .error e => .error e
      | .ok (s, rest) =>
        (scan (index + s.chars.length) rest).map fun tokens => ⟨s.lexeme, index⟩ :: tokens
  termination_by cs => cs.length
  decreasing_by
    · simp
    · exact Spelling.length_lt_of_read (by assumption)

/-- The tokens of a text, places being counted in characters from zero. -/
def tokenize (source : String) : Except LexError (List Token) := scan 0 source.toList

/-- The numeral at a place of a text, as a token, and the place right after it.
The place may be past the end. -/
def numeralAt (source : String) (index : Nat) : Except LexError (Token × Nat) :=
  (Numeral.read index (source.toList.drop index)).map
    fun (n, _) => (⟨.number n.value, index⟩, index + n.chars.length)

end Token

end Reckoner
