import Reckoner.Postfix.Convert

set_option autoImplicit false

/-!
# Brackets and arguments

Which tokens have a postfix order, said of the tokens alone: every symbol and every
name is defined, parentheses are balanced, no comma stands outside them, and every
call is given as many arguments as its function takes.  A token *offends* if what
comes before it rules out that the tokens are accepted, however they go on.
-/

namespace Reckoner

namespace Lexeme

/-- By how much a lexeme changes the number of open parentheses. -/
def depth : Lexeme → Int
  | .openParen => 1
  | .closeParen => -1
  | _ => 0

/-- Whether a lexeme is a comma. -/
def isComma : Lexeme → Bool
  | .comma => true
  | _ => false

/-- Whether a lexeme becomes a node: a number, an operator or a name. -/
def isTerm : Lexeme → Bool
  | .number _ | .operator _ | .name _ => true
  | .openParen | .closeParen | .comma => false

end Lexeme

namespace Postfix

/-- The opening parentheses among tokens, less the closing ones. -/
def depth : List Token → Int
  | [] => 0
  | t :: ts => t.lexeme.depth + depth ts

/-- Nothing is closed before it was opened, and everything is closed. -/
structure Balanced (ts : List Token) : Prop where
  nonneg : ∀ us vs, ts = us ++ vs → 0 ≤ depth us
  closed : depth ts = 0

/-- The commas outside all parentheses, if `outer` of them are open already. -/
def commasAt (outer : Int) : List Token → Nat
  | [] => 0
  | t :: ts =>
    (if t.lexeme.isComma = true ∧ outer = 0 then 1 else 0) + commasAt (outer + t.lexeme.depth) ts

/-- The commas outside all parentheses. -/
def ownCommas (ts : List Token) : Nat := commasAt 0 ts

/-- The numbers, operators and names among tokens. -/
def terms (ts : List Token) : Nat := ts.countP fun t => t.lexeme.isTerm

/-- The number of arguments that the inside of a call is taken for. -/
def argumentCount (inside : List Token) : Nat :=
  if terms inside = 0 ∧ ownCommas inside = 0 then 0 else ownCommas inside + 1

/-- A call that has been opened: the name, its parenthesis, and what follows it as far
as that is balanced. -/
structure CallIn (before : List Token) (name : String) (inside : List Token) : Prop where
  written : ∃ (us : List Token) (n p : Token), n.lexeme = .name name ∧ p.lexeme = .openParen ∧
    before = us ++ n :: p :: inside
  balanced : Balanced inside

/-- The tokens that have a postfix order. -/
structure Accepted (r : Registry) (ts : List Token) : Prop where
  operators : ∀ t ∈ ts, ∀ symbol, t.lexeme = .operator symbol → ∃ o, r.operator symbol = .ok o
  names : ∀ t ∈ ts, ∀ name, t.lexeme = .name name → ∃ f, r.function name = .ok f
  balanced : Balanced ts
  commas : ∀ us t vs, ts = us ++ t :: vs → t.lexeme = .comma → 0 < depth us
  arguments : ∀ us t vs name inside f, ts = us ++ t :: vs → t.lexeme = .closeParen →
    CallIn us name inside → r.function name = .ok f → argumentCount inside = f.arity

/-- A token that cannot stand where it does, given the tokens before it, and the error
that it is. -/
inductive Offends (r : Registry) (before : List Token) : Token → StructureError → Prop
  | operator {symbol : String} {index : Int} :
      (∀ o, r.operator symbol ≠ .ok o) →
      Offends r before ⟨.operator symbol, index⟩ (.undefinedOperator symbol)
  | close {index : Int} :
      depth before = 0 → Offends r before ⟨.closeParen, index⟩ (.unmatchedClose index)
  | comma {index : Int} :
      depth before = 0 → Offends r before ⟨.comma, index⟩ (.strayComma index)
  | arguments {index : Int} {name : String} {inside : List Token} {f : NamedFunction} :
      CallIn before name inside → r.function name = .ok f → argumentCount inside ≠ f.arity →
      Offends r before ⟨.closeParen, index⟩
        (.argumentCount name f.arity (argumentCount inside))

/-- No token offends. -/
def Clean (r : Registry) (ts : List Token) : Prop :=
  ∀ us t vs e, ts = us ++ t :: vs → ¬ Offends r us t e

/-- The first thing that is wrong with tokens whose names are all defined: the first
token that offends, or else the last parenthesis that is not closed. -/
inductive FirstOffence (r : Registry) : List Token → StructureError → Prop
  | token {us : List Token} {t : Token} {vs : List Token} {e : StructureError} :
      Clean r us → Offends r us t e → FirstOffence r (us ++ t :: vs) e
  | unclosed {us : List Token} {p : Token} {vs : List Token} :
      Clean r (us ++ p :: vs) → p.lexeme = .openParen → Balanced vs →
      FirstOffence r (us ++ p :: vs) (.unclosed p.index)

end Postfix

end Reckoner
