import Reckoner.Number.Nearest

set_option autoImplicit false

/-!
# Numerals

A numeral is an optional sign, at least one digit, and optionally a point with at
least one digit after it.  `Numeral.read` takes the longest one off the front of
the input.  It does not back off: a point without a digit after it is an error
even though the digits before the point are a numeral of their own.

The value is the double nearest to the decimal written, however long that is, a
half going to the even neighbour; a numeral that would be read as infinity is
refused.
-/

namespace Reckoner

/-- Why a text cannot be cut into tokens. -/
inductive LexError where
  /-- a character that starts no lexeme -/
  | unexpectedCharacter (c : Char) (index : Nat)
  /-- no digit where a numeral has to have its first one -/
  | noDigit (index : Nat)
  /-- a numeral with a point and no digit after it -/
  | noFraction (written : List Char)
  /-- a numeral that would be read as infinity -/
  | tooLarge (written : List Char)
  deriving DecidableEq, Repr

/-- A sign in front of a numeral. -/
inductive Sign where
  | plus
  | minus
  deriving DecidableEq, Repr, Inhabited

namespace Sign

/-- The character of a sign. -/
def char : Sign → Char
  | plus => '+'
  | minus => '-'

/-- The sign that a character is. -/
def ofChar? (c : Char) : Option Sign :=
  if c = '+' then some plus else if c = '-' then some minus else none

/-- Whether a character is a sign. -/
def isSignChar (c : Char) : Bool := (ofChar? c).isSome

/-- Takes a sign off the front, if there is one. -/
def split : List Char → Option Sign × List Char
  | [] => (none, [])
  | c :: cs => match ofChar? c with
    | some sign => (some sign, cs)
    | none => (none, c :: cs)

/-- What is written for a sign that may be missing. -/
def chars (sign : Option Sign) : List Char := sign.toList.map char

theorem ofChar?_char (s : Sign) : ofChar? s.char = some s := by cases s <;> rfl

theorem chars_split (cs : List Char) : chars (split cs).1 ++ (split cs).2 = cs := by
  cases cs with
  | nil => rfl
  | cons c cs =>
    by_cases plus : c = '+'
    · simp [split, ofChar?, chars, char, plus]
    · by_cases minus : c = '-'
      · simp [split, ofChar?, chars, char, minus]
      · simp [split, ofChar?, chars, plus, minus]

end Sign

/-- A number as it is written in an expression. -/
structure Numeral where
  sign : Option Sign
  /-- the digits before the point -/
  whole : List Char
  /-- the digits after the point, if there is a point -/
  fraction : Option (List Char)
  deriving DecidableEq, Repr, Inhabited

namespace Numeral

/-- What is written for a fraction that may be missing. -/
def fractionChars : Option (List Char) → List Char
  | none => []
  | some digits => '.' :: digits

/-- The characters of a numeral. -/
def chars (n : Numeral) : List Char :=
  Sign.chars n.sign ++ n.whole ++ fractionChars n.fraction

/-- Both groups of digits follow the grammar: digits only, and at least one. -/
def WellFormed (n : Numeral) : Prop :=
  (n.whole ≠ [] ∧ ∀ c ∈ n.whole, c.isDigit = true) ∧
    ∀ digits ∈ n.fraction, digits ≠ [] ∧ ∀ c ∈ digits, c.isDigit = true

/-- Whether both groups of digits follow the grammar. -/
def isWellFormed (n : Numeral) : Bool :=
  !n.whole.isEmpty && n.whole.all Char.isDigit &&
    n.fraction.all fun digits => !digits.isEmpty && digits.all Char.isDigit

theorem isWellFormed_iff (n : Numeral) : n.isWellFormed = true ↔ n.WellFormed := by
  simp [isWellFormed, WellFormed, Option.all_eq_true]

instance (n : Numeral) : Decidable n.WellFormed := decidable_of_iff _ n.isWellFormed_iff

/-- Whether a minus stands in front. -/
def isNegative (n : Numeral) : Bool := n.sign == some .minus

/-- All digits as one number. -/
def numerator (n : Numeral) : Nat := Nat.ofDigitChars 10 (n.whole ++ n.fraction.getD []) 0

/-- The power of ten by which the digits after the point make the number smaller. -/
def denominator (n : Numeral) : Nat := Nat.pow 10 (n.fraction.getD []).length

/-- The rank of the magnitude. -/
def rank (n : Numeral) : Nat := Number.nearestRank n.numerator n.denominator

/-- Whether the magnitude is that of a finite double. -/
def isReadable (n : Numeral) : Bool := decide (n.rank < Number.infiniteRank)

/-- The double that a numeral denotes. -/
def value (n : Numeral) : Float := Number.ofRank n.isNegative n.rank

/-- Lets a numeral pass unless it is too large. -/
def checked (n : Numeral) : Except LexError Numeral :=
  if n.isReadable then .ok n else .error (.tooLarge n.chars)

/-- Reads the point and the digits after it, if there is a point, once the sign and
the digits before the point have been read. -/
def readFraction (sign : Option Sign) (whole cs : List Char) :
    Except LexError (Numeral × List Char) :=
  if cs.head? = some '.' then
    let digits := cs.tail.takeWhile Char.isDigit
    if digits.isEmpty then .error (.noFraction (Sign.chars sign ++ whole ++ ['.']))
    else (checked ⟨sign, whole, some digits⟩).map
      fun n => (n, cs.tail.dropWhile Char.isDigit)
  else (checked ⟨sign, whole, none⟩).map fun n => (n, cs)

/-- Reads the longest numeral at the front of the input, which is found at
`index`; what is left of the input comes with it. -/
def read (index : Nat) (cs : List Char) : Except LexError (Numeral × List Char) :=
  let (sign, unsigned) := Sign.split cs
  let whole := unsigned.takeWhile Char.isDigit
  if whole.isEmpty then .error (.noDigit (index + (Sign.chars sign).length))
  else readFraction sign whole (unsigned.dropWhile Char.isDigit)

/-! ## Reading loses nothing -/

theorem checked_of_isReadable {n : Numeral} (h : n.isReadable = true) : n.checked = .ok n :=
  if_pos h

theorem checked_eq_ok {n m : Numeral} (h : n.checked = .ok m) : m = n ∧ n.isReadable = true := by
  unfold checked at h
  split at h
  · next hreadable => exact ⟨(Except.ok.inj h).symm, hreadable⟩
  · cases h

theorem map_checked_eq_ok {n m : Numeral} {cs rest : List Char}
    (h : (n.checked.map fun n => (n, cs)) = .ok (m, rest)) :
    m = n ∧ rest = cs ∧ n.isReadable = true := by
  cases hc : n.checked with
  | error e => rw [hc] at h; cases h
  | ok k =>
    obtain ⟨rfl, hreadable⟩ := checked_eq_ok hc
    rw [hc] at h
    cases h
    exact ⟨rfl, rfl, hreadable⟩

theorem chars_of_readFraction {sign : Option Sign} {whole cs rest : List Char} {n : Numeral}
    (h : readFraction sign whole cs = .ok (n, rest)) :
    n.sign = sign ∧ n.whole = whole ∧ fractionChars n.fraction ++ rest = cs := by
  unfold readFraction at h
  split at h
  · next hpoint =>
    obtain ⟨afterPoint, rfl⟩ := List.head?_eq_some_iff.mp hpoint
    dsimp only at h
    split at h
    · cases h
    · obtain ⟨rfl, rfl, _⟩ := map_checked_eq_ok h
      exact ⟨rfl, rfl, by simp [fractionChars, List.takeWhile_append_dropWhile]⟩
  · obtain ⟨rfl, rfl, _⟩ := map_checked_eq_ok h
    exact ⟨rfl, rfl, rfl⟩

theorem chars_append_of_read {index : Nat} {cs rest : List Char} {n : Numeral}
    (h : read index cs = .ok (n, rest)) : n.chars ++ rest = cs := by
  have hsign := Sign.chars_split cs
  unfold read at h
  generalize Sign.split cs = parts at h hsign
  obtain ⟨sign, unsigned⟩ := parts
  dsimp only at h hsign
  split at h
  · cases h
  · obtain ⟨hs, hw, hf⟩ := chars_of_readFraction h
    rw [chars, hs, hw, List.append_assoc, List.append_assoc, hf,
      List.takeWhile_append_dropWhile, hsign]

theorem whole_ne_nil_of_read {index : Nat} {cs rest : List Char} {n : Numeral}
    (h : read index cs = .ok (n, rest)) : n.whole ≠ [] := by
  unfold read at h
  generalize Sign.split cs = parts at h
  obtain ⟨sign, unsigned⟩ := parts
  dsimp only at h
  split at h
  · cases h
  · next hne =>
    rw [(chars_of_readFraction h).2.1]
    simpa using hne

theorem chars_ne_nil_of_read {index : Nat} {cs rest : List Char} {n : Numeral}
    (h : read index cs = .ok (n, rest)) : n.chars ≠ [] := by
  simp [chars, whole_ne_nil_of_read h]

end Numeral

end Reckoner
