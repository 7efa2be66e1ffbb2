import Milestones.Text.Digits

/-!
# Doubles from decimal digits

Two readings of `digits * 10 ^ exponent`.  The exact one gives the nearest double.  The
quick one rounds the digits to a double first and then scales it in the arithmetic of
doubles.  The two agree where digits and power are doubles themselves, as in all numbers of
common size; elsewhere the quick one may miss the nearest double in the last places.

## Main definitions

* `nearestFloat`: the exact reading.
* `scaledFloat`: the quick reading.
* `appendDigits`: the digits that the quick reading takes into account.
-/

namespace Milestones

/-- The double nearest to `digits * 10 ^ exponent`.  Powers far outside the range of the
doubles are settled by the count of digits alone. -/
def nearestFloat (digits : Nat) (exponent : Int) : Float :=
  if digits = 0 then 0
  else
    let size := digitCount digits + exponent
    if 400 < size then 1 / 0
    else if size < -400 then 0
    else Float.ofScientific digits (exponent < 0) exponent.natAbs

/-- The double nearest to a power of ten. -/
def powerOfTen (exponent : Nat) : Float := nearestFloat 1 exponent

/-- The digits as a double, multiplied or divided by a power of ten.  Where the divisor is
beyond the doubles, the division is done in two steps. -/
def scaledFloat (digits : Nat) (exponent : Int) : Float :=
  let x := nearestFloat digits 0
  if digits = 0 then 0
  else if 308 < exponent then 1 / 0
  else if 0 ≤ exponent then x * powerOfTen exponent.toNat
  else if -308 ≤ exponent then x / powerOfTen (-exponent).toNat
  else if -616 ≤ exponent then x / powerOfTen 308 / powerOfTen (-exponent - 308).toNat
  else 0

/-- Appends digits to a number as long as it stays below `2 ^ 64`.  Returns the number and
how many digits it took. -/
def appendDigits : Nat → List Char → Nat × Nat
  | n, [] => (n, 0)
  | n, c :: rest =>
    let longer := 10 * n + digitValue c
    if longer < Nat.pow 2 64 then
      let (n, taken) := appendDigits longer rest
      (n, taken + 1)
    else (n, 0)

end Milestones
