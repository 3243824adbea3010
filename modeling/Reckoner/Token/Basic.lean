import Reckoner.Number.Rank

set_option autoImplicit false

/-!
# Tokens

A *lexeme* is what a piece of an expression denotes; a *token* is a lexeme with
the place where it was found.  Places are integers without a bound, since tokens
can also be put together by hand, with any place and any symbol or name.  Places
serve messages only and take no part in the comparison of tokens.
-/

namespace Reckoner

/-- What a piece of an expression denotes. -/
inductive Lexeme where
  /-- a number, its sign already applied -/
  | number (value : Float)
  /-- the symbol of an infix operator -/
  | operator (symbol : String)
  /-- the name of a function -/
  | name (name : String)
  | openParen
  | closeParen
  | comma
  deriving DecidableEq

instance : Inhabited Lexeme := ⟨.comma⟩

/-- A lexeme and its place. -/
structure Token where
  lexeme : Lexeme
  index : Int
  deriving DecidableEq, Inhabited

namespace Lexeme

/-- Whether a lexeme is the name of a function. -/
def isName : Lexeme → Bool
  | .name _ => true
  | _ => false

/-- Whether a lexeme is an opening parenthesis. -/
def isOpenParen : Lexeme → Bool
  | .openParen => true
  | _ => false

/-- The value of a number. -/
def number? : Lexeme → Option Float
  | .number x => some x
  | _ => none

/-- Equality of lexemes, numbers being compared as numbers: the two zeros are
equal, and NaN differs from itself. -/
def same : Lexeme → Lexeme → Bool
  | .number x, .number y => x == y
  | .operator s, .operator t => s == t
  | .name m, .name n => m == n
  | .openParen, .openParen => true
  | .closeParen, .closeParen => true
  | .comma, .comma => true
  | _, _ => false

end Lexeme

namespace Token

/-- Equality of two lists of tokens wherever they were found. -/
def sameAll : List Token → List Token → Bool
  | [], [] => true
  | s :: ss, t :: ts => s.lexeme.same t.lexeme && sameAll ss ts
  | _, _ => false

end Token

end Reckoner
