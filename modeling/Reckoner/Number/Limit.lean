import Reckoner.Exception
import Reckoner.Number.Text

set_option autoImplicit false

/-!
# The limit on written integers

The host writes no integer of more than 4300 digits.  It matters to integers that come
from the host itself, such as a precedence, an arity or the result of a callback.
-/

namespace Reckoner.Number

/-- The largest number of digits of an integer that is written. -/
def digitLimit : Nat := 4300

/-- A number that does not have too many digits to be written. -/
def Writable (n : Nat) : Prop := (natDigits n).length ≤ digitLimit

instance (n : Nat) : Decidable (Writable n) := inferInstanceAs (Decidable (_ ≤ _))

/-- What is raised instead of writing an integer of too many digits. -/
def tooManyDigits : Exception :=
  .fault .badValue ("Exceeds the limit (4300 digits) for integer string conversion; " ++
    "use sys.set_int_max_str_digits() to increase the limit")

/-- An integer in decimal, unless it has too many digits.  A sign is no digit. -/
def written (n : Int) : Except Exception String :=
  if Writable n.natAbs then .ok (intText n) else .error tooManyDigits

theorem written_of_writable {n : Int} (h : Writable n.natAbs) : written n = .ok (intText n) :=
  if_pos h

theorem written_of_not_writable {n : Int} (h : ¬ Writable n.natAbs) :
    written n = .error tooManyDigits := if_neg h

end Reckoner.Number
