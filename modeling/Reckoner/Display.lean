import Reckoner.Interpreter
import Reckoner.Number.Places

set_option autoImplicit false

/-!
# Displayed answers

An answer is displayed beside the text that it answers: a value rounded for
display and followed by the text, an error by its message.
-/

namespace Reckoner

/-- Why something cannot be displayed. -/
inductive DisplayError where
  /-- the rounded value is too large for a double -/
  | roundedTooLarge
  /-- a value of the host that is no answer, and is written like this -/
  | notAnAnswer (form : String)
  /-- an exception that is raised while such a value is written -/
  | raised (e : Exception)

/-- The text that explains why something cannot be displayed. -/
def DisplayError.message : DisplayError → String
  | roundedTooLarge => "rounded value too large to represent"
  | notAnAnswer form => "Unknown result: " ++ form
  | raised e => e.shown

namespace Answer

/-- The line that displays an answer to a text. -/
def display (source : String) : Answer → Except DisplayError String
  | .value x => match Number.rounded? Number.displayPlaces x with
    | some rounded => .ok (rounded.text ++ " = " ++ source)
    | none => .error .roundedTooLarge
  | .error message => .ok ("Error: " ++ message)

end Answer

/-- What a host hands over for display, which may not be an answer. -/
inductive Exhibit where
  | answer (a : Answer)
  | value (v : Value)

/-- The line that displays an exhibit beside a text. -/
def Exhibit.display (source : String) : Exhibit → Except DisplayError String
  | .answer a => a.display source
  | .value v => match v.shown with
    | .ok form => .error (.notAnAnswer form)
    | .error e => .error (.raised e)

end Reckoner
