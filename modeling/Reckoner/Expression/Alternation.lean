import Reckoner.Expression.Grammar

set_option autoImplicit false

/-!
# Operands and operators in turn

Where operands stand and what stands between them, read from left to right.  An
operand is due at the start, after an operator, a comma and an opening parenthesis,
and after the name of a function that has arguments but no parentheses.  Once it has
ended, an operator comes, or a comma of the call that is open, or a closing
parenthesis, or the end.

All that is remembered is which parentheses are open and whether they belong to
calls: nothing is said of trees, of precedences or of numbers of arguments.
-/

namespace Reckoner.Grammar

mutual

/-- Lexemes that go on where an operand is due.  The open parentheses are listed
innermost first; `true` stands for one that belongs to a call. -/
inductive OperandDue (r : Registry) : List Bool → List Lexeme → Prop
  | number {brackets : List Bool} {ls : List Lexeme} (x : Float) :
      OperandDone r brackets ls → OperandDue r brackets (.number x :: ls)
  | constant {brackets : List Bool} {name : String} {f : NamedFunction} {ls : List Lexeme} :
      r.function name = .ok f → f.arity = 0 → OperandDone r brackets ls →
      OperandDue r brackets (.name name :: ls)
  | emptyCall {brackets : List Bool} {name : String} {ls : List Lexeme} :
      OperandDone r brackets ls →
      OperandDue r brackets (.name name :: .openParen :: .closeParen :: ls)
  | call {brackets : List Bool} {name : String} {ls : List Lexeme} :
      OperandDue r (true :: brackets) ls → OperandDue r brackets (.name name :: .openParen :: ls)
  | bareCall {brackets : List Bool} {name : String} {f : NamedFunction} {ls : List Lexeme} :
      r.function name = .ok f → f.arity ≠ 0 → ¬ StartsWithParen ls → OperandDue r brackets ls →
      OperandDue r brackets (.name name :: ls)
  | group {brackets : List Bool} {ls : List Lexeme} :
      OperandDue r (false :: brackets) ls → OperandDue r brackets (.openParen :: ls)

/-- Lexemes that go on where an operand has ended. -/
inductive OperandDone (r : Registry) : List Bool → List Lexeme → Prop
  | finish : OperandDone r [] []
  | operator {brackets : List Bool} {symbol : String} {ls : List Lexeme} :
      OperandDue r brackets ls → OperandDone r brackets (.operator symbol :: ls)
  | comma {brackets : List Bool} {ls : List Lexeme} :
      OperandDue r (true :: brackets) ls → OperandDone r (true :: brackets) (.comma :: ls)
  | close {brackets : List Bool} {isCall : Bool} {ls : List Lexeme} :
      OperandDone r brackets ls → OperandDone r (isCall :: brackets) (.closeParen :: ls)

end

/-- Tokens in which operands and operators take turns. -/
def Alternates (r : Registry) (ts : List Token) : Prop := OperandDue r [] (ts.map Token.lexeme)

end Reckoner.Grammar
