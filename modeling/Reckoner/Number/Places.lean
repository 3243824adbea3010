import Reckoner.Number.Text

set_option autoImplicit false

/-!
# Rounding to decimal places

A double is rounded to a number of decimal places by rounding its exact value to
the nearest multiple of `10 ^ -places`, a half to the even one, and taking the
double nearest to that.  A negative number of places rounds to tens, hundreds and
so on.  The only failure is a result too large for a double.

`Rounded` is the form in which a rounded number is shown: as an integer whenever
it has no fractional part left.
-/

namespace Reckoner.Number

/-- Past this number of places rounding moves a double by less than half its
distance to the next one, and so not at all. -/
def mostPlaces : Int := 323

/-- Below this number of places every double rounds to zero. -/
def leastPlaces : Int := -308

/-- A finite double rounded to decimal places; `none` if the result is too large.
Infinities and NaN stay as they are. -/
def roundTo? (places : Int) (x : Float) : Option Float :=
  if !isFinite x || decide (mostPlaces < places) then some x
  else if places < leastPlaces then some (ofRank (isNegative x) 0)
  else
    let finer := Nat.pow 10 places.toNat
    let coarser := Nat.pow 10 (-places).toNat
    let multiple := roundHalfEven (units (rank x) * finer) (unitsPerOne * coarser)
    ofRatio? (isNegative x) (multiple * coarser) finer

/-- A rounded number. -/
inductive Rounded where
  /-- no fractional part is left -/
  | whole (n : Int)
  /-- a fractional part is left, or the number is not finite -/
  | fractional (x : Float)
  deriving DecidableEq

/-- The form in which a number that is already rounded is shown. -/
def Rounded.ofFloat (x : Float) : Rounded :=
  if isWhole x then .whole (wholePart x) else .fractional x

/-- A number rounded to decimal places; `none` if the result is too large. -/
def rounded? (places : Int) (x : Float) : Option Rounded :=
  (roundTo? places x).map Rounded.ofFloat

/-- The written form of a rounded number. -/
def Rounded.text : Rounded → String
  | .whole n => intText n
  | .fractional x => floatText x

/-- How many decimal places a displayed result keeps. -/
def displayPlaces : Int := 10

end Reckoner.Number
