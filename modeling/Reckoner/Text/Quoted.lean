import Reckoner.Text.Printable

set_option autoImplicit false

/-!
# Quoted text

A text in quotation marks, on one line and printable throughout.  The mark is the
apostrophe, or the double quote for a text with apostrophes and no double quote.
The mark itself, the backslash, line feed, carriage return and tab are written
with a backslash; any other unprintable character by its code point in two, four
or eight hexadecimal digits.
-/

namespace Reckoner.Text

/-- The apostrophe. -/
def apostrophe : Char := Char.ofNat 0x27

/-- The double quote. -/
def doubleQuote : Char := Char.ofNat 0x22

/-- The mark that a text is put into. -/
def quotationMark (cs : List Char) : Char :=
  if cs.contains apostrophe && !cs.contains doubleQuote then doubleQuote else apostrophe

/-- The last `width` hexadecimal digits of a number. -/
def hexChars (width n : Nat) : List Char :=
  let digits := Nat.toDigits 16 n
  List.replicate (width - digits.length) '0' ++ digits

/-- A character by its code point. -/
def codePointChars (c : Char) : List Char :=
  if c.toNat < 0x100 then '\\' :: 'x' :: hexChars 2 c.toNat
  else if c.toNat < 0x10000 then '\\' :: 'u' :: hexChars 4 c.toNat
  else '\\' :: 'U' :: hexChars 8 c.toNat

/-- One character between two quotation marks. -/
def quoteChar (mark c : Char) : List Char :=
  if c = mark ∨ c = '\\' then ['\\', c]
  else if c = '\n' then ['\\', 'n']
  else if c = '\r' then ['\\', 'r']
  else if c = '\t' then ['\\', 't']
  else if isPrintable c then [c]
  else codePointChars c

/-- Characters in quotation marks. -/
def quoteChars (cs : List Char) : List Char :=
  let mark := quotationMark cs
  mark :: (cs.flatMap (quoteChar mark) ++ [mark])

/-- A text in quotation marks. -/
def quoted (s : String) : String := String.ofList (quoteChars s.toList)

end Reckoner.Text
