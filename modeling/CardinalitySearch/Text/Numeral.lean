/-
CardinalitySearch.Text.Numeral — decimal numbers in text.

A numeral is one or more ASCII digits after an optional plus sign.  Leading
zeros are allowed, blanks and other digits are not, and a value above the
given maximum makes it no numeral at all.
-/

namespace CardinalitySearch.Text

/-- The greatest number of 32 bits. -/
def maxWord32 : Nat :=
  4294967295

/-- The greatest number of 64 bits. -/
def maxWord64 : Nat :=
  18446744073709551615

/-- The value of a non-empty list of decimal digits. -/
def digits? (text : List Char) : Option Nat :=
  if !text.isEmpty && text.all Char.isDigit then
    some (text.foldl (fun n c => 10 * n + (c.toNat - '0'.toNat)) 0)
  else none

/-- The text without the plus sign at its start, if there is one. -/
def dropPlus : List Char → List Char
  | '+' :: text => text
  | text => text

/-- The value of a numeral up to a maximum. -/
def numeral? (maximum : Nat) (text : List Char) : Option Nat :=
  (digits? (dropPlus text)).filter (· ≤ maximum)

end CardinalitySearch.Text
