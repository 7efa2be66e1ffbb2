/-!
# Doubles as exact binary fractions

A finite double is a sign and a magnitude `mantissa * 2 ^ exponent`.  Writing one in
decimal works on this exact value, in natural numbers only.

## Main definitions

* `BinaryFraction`: the sign and the magnitude.
* `BinaryFraction.ofFloat?`: the exact value of a finite double.
* `Tie`: which of two equally near numbers is taken.
* `roundDiv`: a quotient rounded to the nearest number.
-/

namespace Milestones

/-- A signed number `mantissa * 2 ^ exponent`. -/
structure BinaryFraction where
  negative : Bool
  mantissa : Nat
  exponent : Int
deriving DecidableEq

namespace BinaryFraction

/-- The lowest exponent of a double, that of the numbers next to zero. -/
def leastExponent : Int := -1074

/-- The exact value of a finite double; an infinity or NaN has none. -/
def ofFloat? (x : Float) : Option BinaryFraction :=
  let bits := x.toBits.toNat
  let negative := bits / Nat.pow 2 63 == 1
  let biased : Nat := bits / Nat.pow 2 52 % Nat.pow 2 11
  let fraction := bits % Nat.pow 2 52
  if biased = 2047 then none
  else if biased = 0 then some ⟨negative, fraction, leastExponent⟩
  else some ⟨negative, fraction + Nat.pow 2 52, (biased : Int) - 1075⟩

end BinaryFraction

/-- Which of two equally near numbers is taken. -/
inductive Tie where
  | toEven
  | awayFromZero
deriving DecidableEq

/-- The quotient rounded to the nearest number; the tie decides only about a half. -/
def roundDiv (tie : Tie) (num den : Nat) : Nat :=
  let q := num / den
  let twice := 2 * (num % den)
  if twice < den then q
  else if den < twice then q + 1
  else
    match tie with
    | .toEven => if q % 2 = 0 then q else q + 1
    | .awayFromZero => q + 1

end Milestones
