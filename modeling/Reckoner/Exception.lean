import Reckoner.Failure.Category

set_option autoImplicit false

/-!
# Exceptions

What the host's code raises: while a callback runs, while its result is converted to a
double, or while something of the host is written.  An exception is either a failure of
the expression, which the host's code reports itself, or a fault.  A fault of arithmetic,
of a lookup, of a value or of a type tells that the operands of an operation were at
fault; any other one has nothing to do with them.

The text of an exception is written by the host's code too, so there may be none: the
attempt to write it raises another exception.
-/

namespace Reckoner

/-- What goes wrong in the host's code.  A kind includes whatever the host derives from it. -/
inductive FaultKind where
  | divisionByZero
  /-- an overflow, or any other fault of arithmetic -/
  | overflow
  | missingIndex
  /-- a key that is missing, or any other fault of a lookup -/
  | missingKey
  | badValue
  | badType
  /-- anything else, by the host's name for it -/
  | foreign (label : String)
  deriving DecidableEq, Repr

/-- Which class an exception is of. -/
inductive ExceptionClass where
  /-- a failure of the expression -/
  | failure (category : Category)
  | fault (kind : FaultKind)
  deriving DecidableEq, Repr

/-- Something that the host's code raises. -/
inductive Exception where
  /-- with a text that explains it -/
  | worded (cls : ExceptionClass) (text : String)
  /-- without one: another exception is raised instead of it when its text is asked for -/
  | wordless (cls : ExceptionClass) (instead : Exception)
  deriving DecidableEq, Repr

namespace ExceptionClass

/-- Whether an exception of this class is a failure of the expression. -/
def isFailure : ExceptionClass → Bool
  | .failure _ => true
  | .fault _ => false

/-- Whether an exception of this class tells that the operands were at fault.  Such a one
makes the operation invalid; any other one is none of the operation's business. -/
def blamesOperands : ExceptionClass → Bool
  | .failure category => category.blamesOperands
  | .fault (.foreign _) => false
  | .fault _ => true

end ExceptionClass

namespace Exception

/-- A fault with a text. -/
def fault (kind : FaultKind) (text : String) : Exception := .worded (.fault kind) text

/-- A failure of the expression with a text. -/
def failure (category : Category) (text : String) : Exception := .worded (.failure category) text

/-- The class of an exception. -/
def cls : Exception → ExceptionClass
  | worded c _ | wordless c _ => c

/-- The text that explains an exception. -/
def text : Exception → Except Exception String
  | worded _ t => .ok t
  | wordless _ instead => .error instead

/-- An exception that has a text. -/
def IsWorded (e : Exception) : Prop := ∃ t, e.text = .ok t

/-- What is left of an exception once its text has been asked for. -/
def told : Exception → Exception
  | worded c t => worded c t
  | wordless _ instead => instead

/-- What an expression is answered with because of an exception: a failure is answered with
its text, and any other exception goes on. -/
def answered (e : Exception) : Except Exception String :=
  if e.cls.isFailure then e.text else .error e

/-- The text as the host shows it where an exception ends the program. -/
def shown : Exception → String
  | worded _ t => t
  | wordless _ _ => "<exception str() failed>"

/-- The exception of an integer that is too large for a double. -/
def integerTooLarge : Exception := fault .overflow "int too large to convert to float"

theorem told_of_text {e : Exception} {t : String} (h : e.text = .ok t) : e.told = e := by
  cases e with
  | worded c t => rfl
  | wordless c instead => cases h

end Exception

end Reckoner
