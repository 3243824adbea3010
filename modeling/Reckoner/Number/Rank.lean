set_option autoImplicit false

/-!
# Doubles by sign and rank

A double that is not NaN is a sign and a *rank*.  The rank is the low 63 bits of
its encoding, and it numbers the non-negative doubles upward from zero: rank 0 is
zero, rank 1 is the least positive double, and `infiniteRank` is infinity.  NaN
has a rank above `infiniteRank`.

Every finite double is a whole number of *units* of `2 ^ -1074`, and `units` maps
a rank to that number.  All exact arithmetic of the library is done on units, in
`Nat`; no operation of the floating-point hardware takes part.  `units` is
defined past `infiniteRank` too, as if the exponent had no bound, which is the
reading under which "rounds to infinity" needs no rule of its own.
-/

namespace Reckoner.Number

/-- How many units of `2 ^ -1074` make one. -/
def unitsPerOne : Nat := Nat.pow 2 1074

/-- The ranks between one power of two and the next: `2 ^ 52`. -/
def binade : Nat := 0x10000000000000

/-- The number of ranks: `2 ^ 63`. -/
def rankLimit : Nat := 0x8000000000000000

/-- The rank of infinity: 2047 binades. -/
def infiniteRank : Nat := 0x7ff0000000000000

/-- The magnitude of a rank, counted in units.  In the first two binades ranks are
one unit apart, and from there on the distance doubles with every binade. -/
def units (rank : Nat) : Nat :=
  if rank < binade then rank
  else (binade + rank % binade) * Nat.pow 2 (rank / binade - 1)

/-- The rank of the magnitude of `x`. -/
def rank (x : Float) : Nat := x.toBits.toNat % rankLimit

/-- The sign bit: true of `-0` and of everything below it. -/
def isNegative (x : Float) : Bool := decide (rankLimit ≤ x.toBits.toNat)

/-- The double with this sign and this rank. -/
def ofRank (negative : Bool) (rank : Nat) : Float :=
  Float.ofBits (UInt64.ofNat (if negative then rankLimit + rank else rank))

/-- Neither an infinity nor NaN. -/
def isFinite (x : Float) : Bool := decide (rank x < infiniteRank)

/-- One of the two infinities. -/
def isInfinite (x : Float) : Bool := decide (rank x = infiniteRank)

/-- Not a number. -/
def isNaN (x : Float) : Bool := decide (infiniteRank < rank x)

/-! ## Whole numbers among the doubles -/

/-- Whether `x` is finite and has no fractional part. -/
def isWhole (x : Float) : Bool := isFinite x && units (rank x) % unitsPerOne == 0

/-- The whole part of `x`, toward zero; of interest for finite `x` only. -/
def wholePart (x : Float) : Int :=
  let magnitude : Int := units (rank x) / unitsPerOne
  if isNegative x then -magnitude else magnitude

/-! ## Small laws -/

theorem units_of_lt {rank : Nat} (h : rank < binade) : units rank = rank := if_pos h

end Reckoner.Number
