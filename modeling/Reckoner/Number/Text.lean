import Reckoner.Number.Shortest

set_option autoImplicit false

/-!
# Written numbers

How integers and doubles are written.  A double is written with the digits of
`shortest`.  With `x` the exponent of its first digit, the notation is positional
while `-4 ≤ x < 16`, and then always has a point with a digit on both sides;
outside that range it is one digit, the other digits after a point if there are
any, and a signed exponent of at least two digits.
-/

namespace Reckoner.Number

/-- The digits of a natural number, most significant first. -/
def natDigits (n : Nat) : List Char := Nat.toDigits 10 n

/-- An integer with a minus in front if it is negative. -/
def intChars : Int → List Char
  | .ofNat n => natDigits n
  | .negSucc n => '-' :: natDigits (n + 1)

/-- An integer in decimal. -/
def intText (n : Int) : String := String.ofList (intChars n)

/-- A natural number in decimal. -/
def natText (n : Nat) : String := String.ofList (natDigits n)

/-- First-digit exponents of the doubles that are written without an exponent. -/
def isPositional (exponent : Int) : Bool := decide (-4 ≤ exponent ∧ exponent < 16)

/-- The exponent mark, sign and at least two digits. -/
def exponentChars (exponent : Int) : List Char :=
  let digits := natDigits exponent.natAbs
  'e' :: (if exponent < 0 then '-' else '+') ::
    (List.replicate (2 - digits.length) '0' ++ digits)

/-- Digits with a point after the digit that stands for ones. -/
def positionalChars (digits : List Char) (exponent : Int) : List Char :=
  if exponent < 0 then
    '0' :: '.' :: (List.replicate (exponent.natAbs - 1) '0' ++ digits)
  else
    let wholeLength := exponent.toNat + 1
    let whole := digits.take wholeLength
    let fraction := digits.drop wholeLength
    whole ++ List.replicate (wholeLength - digits.length) '0' ++ '.' ::
      (if fraction.isEmpty then ['0'] else fraction)

/-- Digits with a point after the first one and an exponent. -/
def exponentialChars (digits : List Char) (exponent : Int) : List Char :=
  let fraction := digits.drop 1
  digits.take 1 ++ (if fraction.isEmpty then [] else '.' :: fraction) ++ exponentChars exponent

/-- A decimal in the notation that its size calls for. -/
def Decimal.chars (d : Decimal) : List Char :=
  let digits := natDigits d.digits
  let exponent := d.exponent + ((digits.length : Int) - 1)
  if isPositional exponent then positionalChars digits exponent
  else exponentialChars digits exponent

/-- The written form of a double. -/
def floatChars (x : Float) : List Char :=
  if isNaN x then ['n', 'a', 'n'] else
    let magnitude :=
      if isInfinite x then ['i', 'n', 'f'] else (shortest (rank x)).chars
    if isNegative x then '-' :: magnitude else magnitude

/-- The written form of a double. -/
def floatText (x : Float) : String := String.ofList (floatChars x)

end Reckoner.Number
