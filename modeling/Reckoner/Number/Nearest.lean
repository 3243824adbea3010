import Reckoner.Number.Rank

set_option autoImplicit false

/-!
# The double nearest to a ratio

A non-negative ratio `numerator / denominator` is rounded to the nearest double,
a half going to the even neighbour.  `nearestRank` does it in whole-number
arithmetic: it measures the ratio in units, finds how far apart the doubles of
that size are, and rounds one quotient.  `IsNearest` says what the answer has to
be without saying how it is found: no rank is closer, and of two equally close
ranks the even one is taken.  Evenness of the rank is evenness of the
significand, because a binade holds an even number of ranks.
-/

namespace Reckoner.Number

/-- The quotient rounded to the nearest whole number, a half to the even one. -/
def roundHalfEven (numerator denominator : Nat) : Nat :=
  let quotient := numerator / denominator
  let remainder := numerator % denominator
  if 2 * remainder < denominator then quotient
  else if denominator < 2 * remainder then quotient + 1
  else if quotient % 2 = 0 then quotient
  else quotient + 1

/-- The rank of the double nearest to `numerator / denominator`.  A result of
`infiniteRank` or more means that the ratio is too large for a double. -/
def nearestRank (numerator denominator : Nat) : Nat :=
  let scaled := numerator * unitsPerOne
  let shift := Nat.log2 (scaled / denominator) - 52
  shift * binade + roundHalfEven scaled (denominator * Nat.pow 2 shift)

/-- The distance of two natural numbers. -/
def distance (a b : Nat) : Nat := (a - b) + (b - a)

/-- No rank is nearer to `numerator / denominator` than `r`, and `r` is even if
another one is equally near. -/
def IsNearest (numerator denominator r : Nat) : Prop :=
  ∀ s : Nat, s ≠ r →
    let here := distance (units r * denominator) (numerator * unitsPerOne)
    let there := distance (units s * denominator) (numerator * unitsPerOne)
    here < there ∨ (here = there ∧ r % 2 = 0)

/-- The double nearest to a ratio with a sign in front; infinity if it is too large. -/
def ofRatio (negative : Bool) (numerator denominator : Nat) : Float :=
  ofRank negative (min (nearestRank numerator denominator) infiniteRank)

/-- The double nearest to a ratio, unless that is infinity. -/
def ofRatio? (negative : Bool) (numerator denominator : Nat) : Option Float :=
  let r := nearestRank numerator denominator
  if r < infiniteRank then some (ofRank negative r) else none

/-- The double nearest to a whole number, unless that is infinity. -/
def ofInt? (n : Int) : Option Float := ofRatio? (decide (n < 0)) n.natAbs 1

end Reckoner.Number
