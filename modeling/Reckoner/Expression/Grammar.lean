import Reckoner.Expression.Tree
import Reckoner.Postfix.Convert

set_option autoImplicit false

/-!
# The grammar of expressions

Which lists of lexemes are expressions under a registry, and of which trees.  A
*primary* is a number, a call, a function without arguments, or an expression in
parentheses.  A *bare call* is a function of one argument in front of an
expression that does not start with a parenthesis; the argument is all of that
expression.  An *expression* is a bare call, or a chain of primaries with
operators between them, at whose end a bare call may be the last operand.

What follows a primary is an operator, a comma, a closing parenthesis or the end, so
a function without arguments that has no parentheses of its own is never followed by
an opening one.

The relations say nothing of how an expression is put into postfix order.
-/

namespace Reckoner.Grammar

/-- Whether a list of lexemes starts with an opening parenthesis. -/
def StartsWithParen : List Lexeme → Prop
  | .openParen :: _ => True
  | _ => False

mutual

/-- A primary and its tree. -/
inductive Primary (r : Registry) : List Lexeme → Tree → Prop
  | number (x : Float) : Primary r [.number x] (.literal x)
  | constant {name : String} {f : NamedFunction} :
      r.function name = .ok f → f.arity = 0 →
      Primary r [.name name] (.call (.function f) [])
  | constantCall {name : String} {f : NamedFunction} :
      r.function name = .ok f → f.arity = 0 →
      Primary r [.name name, .openParen, .closeParen] (.call (.function f) [])
  | call {name : String} {f : NamedFunction} {ls : List Lexeme} {ts : List Tree} :
      r.function name = .ok f → Arguments r ls ts → ts.length = f.arity →
      Primary r (.name name :: .openParen :: ls ++ [.closeParen]) (.call (.function f) ts)
  | group {ls : List Lexeme} {t : Tree} :
      Expression r ls t → Primary r (.openParen :: ls ++ [.closeParen]) t

/-- One or more expressions with commas between them, and their trees. -/
inductive Arguments (r : Registry) : List Lexeme → List Tree → Prop
  | one {ls : List Lexeme} {t : Tree} : Expression r ls t → Arguments r ls [t]
  | more {ls ms : List Lexeme} {t : Tree} {ts : List Tree} :
      Expression r ls t → Arguments r ms ts → Arguments r (ls ++ .comma :: ms) (t :: ts)

/-- A primary followed by operators, each with a primary to its right. -/
inductive Chain (r : Registry) : List Lexeme → Tree → ChainLinks → Prop
  | first {ls : List Lexeme} {t : Tree} : Primary r ls t → Chain r ls t []
  | link {ls ms : List Lexeme} {t u : Tree} {links : ChainLinks} {symbol : String}
      {o : InfixOperator} :
      Chain r ls t links → r.operator symbol = .ok o → Primary r ms u →
      Chain r (ls ++ .operator symbol :: ms) t (links ++ [(o, u)])

/-- A bare call and its tree. -/
inductive BareCall (r : Registry) : List Lexeme → Tree → Prop
  | mk {name : String} {f : NamedFunction} {ls : List Lexeme} {t : Tree} :
      r.function name = .ok f → f.arity = 1 → Expression r ls t → ¬ StartsWithParen ls →
      BareCall r (.name name :: ls) (.call (.function f) [t])

/-- An expression and its tree. -/
inductive Expression (r : Registry) : List Lexeme → Tree → Prop
  | bare {ls : List Lexeme} {t : Tree} : BareCall r ls t → Expression r ls t
  | chain {ls : List Lexeme} {t : Tree} {links : ChainLinks} :
      Chain r ls t links → Expression r ls (links.tree t)
  | chainBare {ls ms : List Lexeme} {t u : Tree} {links : ChainLinks} {symbol : String}
      {o : InfixOperator} :
      Chain r ls t links → r.operator symbol = .ok o → BareCall r ms u →
      Expression r (ls ++ .operator symbol :: ms) (ChainLinks.tree t (links ++ [(o, u)]))

end

/-- Tokens that form an expression, wherever they were found. -/
def Parses (r : Registry) (ts : List Token) (t : Tree) : Prop :=
  Expression r (ts.map Token.lexeme) t

end Reckoner.Grammar
