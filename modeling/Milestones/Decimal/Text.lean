import Milestones.Decimal.Shortest

/-!
# Numbers as text

Three written forms of a double.  Messages give the shortest digits that read back,
without an exponent.  Structured output gives the same digits, always with a fraction or
an exponent, so that it stays a fractional number when read.  Reports give a fixed count
of places.  Of two equally near decimals, messages take the one further from zero, structured
output and reports the even one.

## Main definitions

* `plainNumber`: `100.5`, `-1`, `inf`.
* `structuredNumber`: `100.0`, `1e-7`, `1e+16`.
* `fixedNumber`: a given count of places, a half going to the even neighbour.
-/

namespace Milestones

/-- The sign of a negative number. -/
def signChars (negative : Bool) : List Char := if negative then ['-'] else []

/-- The digits of a decimal with the point in place and no exponent. -/
def Decimal.plainChars (d : Decimal) : List Char :=
  let ds := decimalChars d.digits
  if 0 ≤ d.exponent then
    if d.digits = 0 then ds else ds ++ List.replicate d.exponent.toNat '0'
  else
    let places := (-d.exponent).toNat
    let padded := padStart (places + 1) '0' ds
    let whole := padded.length - places
    padded.take whole ++ '.' :: padded.drop whole

/-- What an infinity or NaN is called. -/
def nonFiniteText (x : Float) : String :=
  if x.isNaN then "NaN" else if x < 0 then "-inf" else "inf"

/-- The shortest digits that read back, without an exponent, and without a fraction for
whole numbers. -/
def plainNumber (x : Float) : String :=
  match BinaryFraction.ofFloat? x with
  | none => nonFiniteText x
  | some b => String.ofList (signChars b.negative ++ (b.shortest .awayFromZero).plainChars)

/-- An exponent with its sign. -/
def exponentChars (n : Int) : List Char :=
  if n < 0 then 'e' :: signedChars n else 'e' :: '+' :: signedChars n

/-- The shortest digits that read back, marked as a fractional number.  The point stands
within the number when its first digit has a power of ten from -5 to 15, otherwise the
number has an exponent. -/
def Decimal.structuredChars (d : Decimal) : List Char :=
  let ds := decimalChars d.digits
  let point : Int := ds.length + d.exponent
  if d.digits = 0 then ['0', '.', '0']
  else if 0 ≤ d.exponent ∧ point ≤ 16 then d.plainChars ++ ['.', '0']
  else if -5 < point ∧ point ≤ 16 then d.plainChars
  else
    match ds with
    | [] => []
    | [c] => c :: exponentChars (point - 1)
    | c :: more => c :: '.' :: more ++ exponentChars (point - 1)

/-- A finite number as structured output holds it. -/
def structuredNumber (x : Float) : String :=
  match BinaryFraction.ofFloat? x with
  | none => nonFiniteText x
  | some b => String.ofList (signChars b.negative ++ (b.shortest .toEven).structuredChars)

/-- The magnitude times `10 ^ places`, rounded to a whole number. -/
def BinaryFraction.scaledRound (b : BinaryFraction) (places : Nat) : Nat :=
  roundDiv .toEven (b.mantissa * Nat.pow 2 b.exponent.toNat * Nat.pow 10 places)
    (Nat.pow 2 (-b.exponent).toNat)

/-- A number with a fixed count of places, rounded from its exact value. -/
def fixedNumber (places : Nat) (x : Float) : String :=
  match BinaryFraction.ofFloat? x with
  | none => nonFiniteText x
  | some b =>
    String.ofList (signChars b.negative ++ (⟨b.scaledRound places, -places⟩ : Decimal).plainChars)

end Milestones
