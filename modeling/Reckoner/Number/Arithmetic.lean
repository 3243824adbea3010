import Reckoner.Number.Nearest

set_option autoImplicit false

/-!
# Remainder and power

The two operations on doubles that are partial.  The remainder is exact and has
the sign of the dividend.  A power is refused where it has no real value or a
pole (`domain`) and where finite operands have a result beyond the doubles
(`range`); infinities and NaN as operands have the usual limits as results.
-/

namespace Reckoner.Number

/-- Why an operation on doubles has no result. -/
inductive Undefined where
  /-- no value at these operands -/
  | domain
  /-- the value is too large -/
  | range
  deriving DecidableEq, Repr, Inhabited

/-- Positive infinity. -/
def infinity : Float := ofRank false infiniteRank

/-- The magnitude with the sign taken away. -/
def magnitude (x : Float) : Float := ofRank false (rank x)

/-- Whether `x` is zero, of either sign. -/
def isZero (x : Float) : Bool := rank x == 0

/-- Whether `x` is an odd whole number. -/
def isOdd (x : Float) : Bool := isWhole x && (wholePart x) % 2 != 0

/-- The exact remainder of a division toward zero, with the sign of `x`. -/
def remainder (x y : Float) : Except Undefined Float :=
  if isNaN x then .ok x
  else if isNaN y then .ok y
  else if isInfinite x || isZero y then .error .domain
  else if isInfinite y then .ok x
  else .ok (ofRatio (isNegative x) (units (rank x) % units (rank y)) unitsPerOne)

/-- A power with an infinite base and an exponent that is a number. -/
def powerOfInfinity (x y : Float) : Float :=
  let odd := isOdd y
  if isZero y then 1.0
  else if isNegative y then ofRank (isNegative x && odd) 0
  else ofRank (isNegative x && odd) infiniteRank

/-- A power with a finite base and an infinite exponent. -/
def powerToInfinity (x y : Float) : Float :=
  let base := magnitude x
  if base == 1.0 then 1.0
  else if decide (1.0 < base) == isNegative y then 0.0
  else infinity

/-- `x` to the power of `y`. -/
def power (x y : Float) : Except Undefined Float :=
  if isFinite x && isFinite y then
    let result := Float.pow x y
    if isNaN result then .error .domain
    else if isInfinite result then .error (if isZero x then .domain else .range)
    else .ok result
  else if isNaN x then .ok (if isZero y then 1.0 else x)
  else if isNaN y then .ok (if x == 1.0 then 1.0 else y)
  else if isInfinite x && isFinite y then .ok (powerOfInfinity x y)
  else .ok (powerToInfinity x y)

end Reckoner.Number
