set_option autoImplicit false

/-!
# Blank text

The characters of the Unicode property `White_Space`, with the four information
separators U+001C to U+001F.  A text is blank if it holds nothing else; trimming
takes such characters off both ends.
-/

namespace Reckoner.Text

/-- First and last code point of each run of blank characters. -/
def blankRanges : List (Nat × Nat) :=
  [(0x09, 0x0d), (0x1c, 0x20), (0x85, 0x85), (0xa0, 0xa0), (0x1680, 0x1680),
   (0x2000, 0x200a), (0x2028, 0x2029), (0x202f, 0x202f), (0x205f, 0x205f), (0x3000, 0x3000)]

/-- Whether a character is blank. -/
def isBlankChar (c : Char) : Bool :=
  blankRanges.any fun range => decide (range.1 ≤ c.toNat ∧ c.toNat ≤ range.2)

/-- Characters without the blank ones at either end. -/
def trimChars (cs : List Char) : List Char :=
  ((cs.dropWhile isBlankChar).reverse.dropWhile isBlankChar).reverse

/-- A text without the blank characters at either end. -/
def trim (s : String) : String := String.ofList (trimChars s.toList)

/-- Whether nothing is left of a text once it is trimmed. -/
def isBlank (s : String) : Bool := s.toList.all isBlankChar

end Reckoner.Text
