import Milestones.Decimal.Binary
import Milestones.Text.Digits

/-!
# The fewest decimal digits that read back

Every double is the nearest one to all reals of an interval around it.  The shortest
decimal is the point of the coarsest decimal grid that hits this interval.  On each grid
only the two neighbours of the value need a look: if any point of the grid lies in the
interval, so does one of these.  If both do, the nearer one is taken; they can be equally
near, and then it depends on the written form which one it is.

## Main definitions

* `Decimal`: digits and a power of ten.
* `BinaryFraction.shortest`: the shortest decimal that reads back as the double.
-/

namespace Milestones

/-- The number `digits * 10 ^ exponent`. -/
structure Decimal where
  digits : Nat
  exponent : Int
deriving DecidableEq

namespace Decimal

/-- Moves trailing zeros of the digits into the exponent.  The fuel is the number of
digits, and each step drops one. -/
def stripZeros : (fuel : Nat) → Decimal → Decimal
  | 0, d => d
  | fuel + 1, d =>
    if d.digits ≠ 0 ∧ d.digits % 10 = 0 then stripZeros fuel ⟨d.digits / 10, d.exponent + 1⟩
    else d

/-- The same number without trailing zeros. -/
def normalize (d : Decimal) : Decimal := stripZeros (digitCount d.digits) d

end Decimal

namespace BinaryFraction

/-- The value and its two borders as multiples of a quarter of the gap below the value:
the quarter's power of two, the lower border, the value, the upper border.  The gap below
a power of two is half the gap above it, so there the lower border is nearer. -/
def borders (b : BinaryFraction) : Int × Nat × Nat × Nat :=
  let v := 4 * b.mantissa
  let below := if b.mantissa = Nat.pow 2 52 ∧ leastExponent < b.exponent then 1 else 2
  (b.exponent - 2, v - below, v, v + 2)

/-- The power of ten of the first digit of `num / den`. -/
def leadingPower (num den : Nat) : Int :=
  if den ≤ num then (digitCount (num / den) : Int) - 1
  else -(digitCount ((den + num - 1) / num - 1) : Int)

/-- The best point of the grid `10 ^ k` for the value `num / den` within its borders, if the
grid has one there.  Borders count when `closed`. -/
def gridPoint? (tie : Tie) (closed : Bool) (low num high den : Nat) (k : Int) :
    Option Decimal :=
  -- scaled so that the grid points are the multiples of `step`
  let scale := Nat.pow 10 (-k).toNat
  let step := den * Nat.pow 10 k.toNat
  let inside (d : Nat) : Bool :=
    let p := d * step
    if closed then low * scale ≤ p && p ≤ high * scale else low * scale < p && p < high * scale
  let down := num * scale / step
  let up := down + 1
  let nearest := roundDiv tie (num * scale) step
  if inside down && inside up then some ⟨nearest, k⟩
  else if inside down then some ⟨down, k⟩
  else if inside up then some ⟨up, k⟩
  else none

/-- Tries ever finer grids, `steps` of them, from the grid `10 ^ k` on. -/
def finestNeeded (tie : Tie) (closed : Bool) (low num high den : Nat) :
    (steps : Nat) → (k : Int) → Decimal
  | 0, k => ⟨num * Nat.pow 10 (-k).toNat / (den * Nat.pow 10 k.toNat), k⟩
  | steps + 1, k =>
    match gridPoint? tie closed low num high den k with
    | some d => d
    | none => finestNeeded tie closed low num high den steps (k - 1)

/-- The shortest decimal that reads back as the given magnitude, and the nearest of those.
Seventeen digits always suffice. -/
def shortest (b : BinaryFraction) (tie : Tie) : Decimal :=
  if b.mantissa = 0 then ⟨0, 0⟩
  else
    let (power, low, v, high) := b.borders
    let up := Nat.pow 2 power.toNat
    let den := Nat.pow 2 (-power).toNat
    let closed := b.mantissa % 2 == 0
    let first := leadingPower (v * up) den
    (finestNeeded tie closed (low * up) (v * up) (high * up) den 17 first).normalize

end BinaryFraction

end Milestones
