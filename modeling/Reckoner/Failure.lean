import Reckoner.Failure.Category
import Reckoner.Postfix.Convert
import Reckoner.Token.Numeral

set_option autoImplicit false

/-!
# Failures

A failure is the reason why an expression has no value: its text cannot be cut
into tokens, its tokens have no postfix order, or its evaluation goes wrong.  Each
has a category and a message.  Failures that the host's code reports are exceptions
of their own.

A message is what is said of an expression that comes from a text and a registry: places
in a text, and arities that were registered, are never too long to be written.  Of places
and arities made up by hand a message is only what would be said if there were no limit
on the digits of an integer.
-/

namespace Reckoner

/-- Why postfix nodes have no value. -/
inductive EvaluationError where
  /-- a call with fewer operands before it than it takes -/
  | underflow (name : String) (needed available : Nat)
  /-- not exactly one value at the end -/
  | leftOver (count : Nat)
  /-- a callback whose operands are at fault -/
  | inapplicable (name : String) (operands : List Float) (reason : String)
  /-- a callback whose value is no number, but is written like this -/
  | notANumber (name returned : String)
  deriving DecidableEq

/-- Why an expression has no value. -/
inductive Failure where
  | lexical (e : LexError)
  | structural (e : StructureError)
  | evaluation (e : EvaluationError)

namespace LexError

/-- The category of the error. -/
def category : LexError → Category
  | .unexpectedCharacter _ _ => .unexpectedCharacter
  | .noDigit _ | .noFraction _ | .tooLarge _ => .malformedNumber

/-- The text that explains the error. -/
def message : LexError → String
  | .unexpectedCharacter c index =>
    "Unexpected character: '" ++ String.singleton c ++ "' at index " ++ Number.natText index
  | .noDigit index => "No digit after sign at index " ++ Number.natText index
  | .noFraction written =>
    "Decimal point without fractional part: '" ++ String.ofList written ++ "'"
  | .tooLarge written => "Number literal is too large: '" ++ String.ofList written ++ "'"

end LexError

namespace StructureError

/-- The category of the error. -/
def category : StructureError → Category
  | .undefinedOperator _ => .undefinedOperator
  | .undefinedFunction _ => .undefinedFunction
  | .unmatchedClose _ | .strayComma _ | .unclosed _ => .unbalanced
  | .argumentCount _ expected given => .argumentCount expected given

/-- The text that explains the error; a place or an arity that was made up by hand is written
without a limit on its digits. -/
def message : StructureError → String
  | .undefinedOperator symbol => "Operator not defined: '" ++ symbol ++ "'"
  | .undefinedFunction name => "Function not defined: '" ++ name ++ "'"
  | .unmatchedClose index =>
    "Mismatched parens: ')' at index " ++ Number.intText index ++ " has no matching '('"
  | .strayComma index =>
    "Mismatched parens: ',' at index " ++ Number.intText index ++ " is outside of parenthesis"
  | .unclosed index =>
    "Mismatched parens: '(' at index " ++ Number.intText index ++ " is never closed"
  | .argumentCount name expected given =>
    "'" ++ name ++ "' requires " ++ Number.natText expected ++ " argument(s) but " ++
      Number.natText given ++ " were given"

end StructureError

namespace EvaluationError

/-- The category of the error. -/
def category : EvaluationError → Category
  | .underflow _ _ _ => .stackUnderflow
  | .leftOver _ => .malformedExpression
  | .inapplicable _ _ _ | .notANumber _ _ => .invalidOperation

/-- The text that explains the error; an arity that was made up by hand is written without a
limit on its digits. -/
def message : EvaluationError → String
  | .underflow name needed available =>
    "Stack underflow: '" ++ name ++ "' needs " ++ Number.natText needed ++ " operand(s) but " ++
      Number.natText available ++ " available"
  | .leftOver count =>
    "Malformed expression: " ++ Number.natText count ++ " values left after evaluation"
  | .inapplicable name operands reason =>
    "Cannot apply '" ++ name ++ "' to " ++ ", ".intercalate (operands.map Number.floatText) ++
      ": " ++ reason
  | .notANumber name returned =>
    "'" ++ name ++ "' returned " ++ returned ++ " instead of a number"

end EvaluationError

namespace Failure

/-- The category of a failure. -/
def category : Failure → Category
  | .lexical e => e.category
  | .structural e => e.category
  | .evaluation e => e.category

/-- The text that explains a failure. -/
def message : Failure → String
  | .lexical e => e.message
  | .structural e => e.message
  | .evaluation e => e.message

end Failure

end Reckoner
