import Reckoner.Number.Nearest

set_option autoImplicit false

/-!
# The shortest decimal that reads back

Of all decimals that round to a given double, `shortest` takes one with the
fewest digits, and of those the one nearest to the double.

A double is a whole number of `10 ^ -1074`, because `2 ^ -1074` is
`5 ^ 1074 * 10 ^ -1074`.  The candidates with `n` digits are the two neighbours
of that whole number once all but its first `n` digits are dropped; the least `n`
for which one of them reads back wins.  "Reads back" is tested with
`nearestRank`, the same function that reads numerals.
-/

namespace Reckoner.Number

/-- The decimal `digits * 10 ^ exponent`. -/
structure Decimal where
  digits : Nat
  exponent : Int
  deriving DecidableEq, Repr, Inhabited

namespace Decimal

/-- Numerator of the decimal as a ratio. -/
def numerator (d : Decimal) : Nat := d.digits * Nat.pow 10 d.exponent.toNat

/-- Denominator of the decimal as a ratio. -/
def denominator (d : Decimal) : Nat := Nat.pow 10 (-d.exponent).toNat

/-- The rank of the double that the decimal is read as. -/
def rank (d : Decimal) : Nat := nearestRank d.numerator d.denominator

/-- The same decimal without trailing zeros among its digits. -/
def trimmed (d : Decimal) : Decimal :=
  if h : d.digits ≠ 0 ∧ d.digits % 10 = 0 then
    trimmed ⟨d.digits / 10, d.exponent + 1⟩
  else d
  termination_by d.digits
  decreasing_by exact Nat.div_lt_self (Nat.pos_of_ne_zero h.1) (by decide)

end Decimal

/-- The places of the exact decimal of a double. -/
def exactPlaces : Nat := 1074

/-- The double of rank `r`, counted in units of `10 ^ -1074`. -/
def exactDigits (r : Nat) : Nat := units r * Nat.pow 5 exactPlaces

/-- The neighbour of the double of rank `r` that reads back and has `dropped`
digits fewer than the exact decimal; the nearer one if both do. -/
def readingBack? (r dropped : Nat) : Option Decimal :=
  let grid := Nat.pow 10 dropped
  let onGrid (digits : Nat) : Decimal := ⟨digits, (dropped : Int) - exactPlaces⟩
  let below := exactDigits r / grid
  match decide ((onGrid below).rank = r), decide ((onGrid (below + 1)).rank = r) with
  | true, true => some (onGrid (roundHalfEven (exactDigits r) grid))
  | true, false => some (onGrid below)
  | false, true => some (onGrid (below + 1))
  | false, false => none

/-- The shortest decimal that reads back as the double of rank `r`.  Seventeen
digits are always enough. -/
def shortest (r : Nat) : Decimal :=
  if r = 0 then ⟨0, 0⟩ else
    let length := (Nat.toDigits 10 (exactDigits r)).length
    let found := (List.range 17).findSome? fun n => readingBack? r (length - (n + 1))
    (found.getD ⟨exactDigits r, -exactPlaces⟩).trimmed

end Reckoner.Number
