/-!
# Decimal digits

Writing and reading unsigned decimal numbers, padded to a width or cut to one.

## Main definitions

* `decimalChars n`: the digits of `n`, without leading zeros.
* `padStart width c cs`: `cs` brought to at least that width from the left.
* `takeDigits least most cs`: the number at the start of a text.
-/

namespace Milestones

/-- The decimal digits of a number, highest first. -/
def decimalChars (n : Nat) : List Char := Nat.toDigits 10 n

/-- Fills up on the left to the given width. -/
def padStart (width : Nat) (c : Char) (cs : List Char) : List Char :=
  List.replicate (width - cs.length) c ++ cs

/-- Fills up on the right to the given width. -/
def padEnd (width : Nat) (c : Char) (cs : List Char) : List Char :=
  cs ++ List.replicate (width - cs.length) c

/-- The digits of a number, with leading zeros up to the given width. -/
def paddedChars (width n : Nat) : List Char := padStart width '0' (decimalChars n)

/-- The decimal digits of a signed number, with a hyphen before a negative one. -/
def signedChars (n : Int) : List Char :=
  if n < 0 then '-' :: decimalChars n.natAbs else decimalChars n.natAbs

/-- The character is one of the ten ASCII digits. -/
def isDigit (c : Char) : Bool := '0' ≤ c && c ≤ '9'

/-- The value of an ASCII digit. -/
def digitValue (c : Char) : Nat := c.toNat - 48

/-- The number that a list of digits writes. -/
def digitsValue (cs : List Char) : Nat := cs.foldl (fun n c => 10 * n + digitValue c) 0

/-- Takes at most `most` digits from the start of a text, and refuses fewer than `least`.
Returns their number and the rest. -/
def takeDigits (least most : Nat) (cs : List Char) : Option (Nat × List Char) :=
  let ds := (cs.take most).takeWhile isDigit
  if ds.length < least then none else some (digitsValue ds, cs.drop ds.length)

/-- Takes all digits from the start of a text, and refuses none at all. -/
def takeNumber (cs : List Char) : Option (Nat × List Char) :=
  let ds := cs.takeWhile isDigit
  if ds.isEmpty then none else some (digitsValue ds, cs.dropWhile isDigit)

/-- The number of decimal digits of a number. -/
def digitCount (n : Nat) : Nat := (decimalChars n).length

end Milestones
