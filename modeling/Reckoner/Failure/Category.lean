set_option autoImplicit false

/-!
# Categories of failure

Every way in which an expression can fail to have a value belongs to one of these
categories.  Code of the host may also report a failure of any category on its own,
and of categories that it makes up itself.
-/

namespace Reckoner

/-- What kind of failure it is that an expression has no value. -/
inductive Category where
  | unexpectedCharacter
  | malformedNumber
  | undefinedOperator
  | undefinedFunction
  | unbalanced
  | argumentCount (expected given : Nat)
  | stackUnderflow
  | malformedExpression
  | invalidOperation
  /-- none of these in particular -/
  | general
  /-- a category of the host's own, by its title, which may be at the same time one of the
  faults that operands are blamed for -/
  | custom (title : String) (blamesOperands : Bool)
  deriving DecidableEq, Repr

namespace Category

/-- The title under which a failure of this category is logged. -/
def title : Category → String
  | unexpectedCharacter | malformedNumber => "LexError"
  | undefinedOperator | undefinedFunction => "UndefinedSymbolError"
  | unbalanced => "InvalidParenthesisError"
  | argumentCount _ _ => "ArgumentCountError"
  | stackUnderflow | malformedExpression | invalidOperation => "EvaluationError"
  | general => "CalculationError"
  | custom title _ => title

/-- Whether a failure of this category is at the same time a fault of operands. -/
def blamesOperands : Category → Bool
  | custom _ blames => blames
  | _ => false

end Category

end Reckoner
