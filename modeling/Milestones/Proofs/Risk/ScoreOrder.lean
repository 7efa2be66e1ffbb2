import Mathlib
import Milestones.Risk.Assessment

/-!
# The order of scores

Scores are sorted by the integers that their bits stand for, and this is the order of their values.
A double is a sign and a distance from zero, counted in doubles.  The sign is the first bit and the
distance is the number made of the others, because the exponent stands before the mantissa and
because a full mantissa does not store its leading one.

Two things are not said by the values.  Negative zero comes before zero.  What is no number is the
quotient of two infinities, which has its sign bit set, and so it comes before all numbers.

## Main definitions

* `Double.sign`, `Double.distance`: a double, apart from its value.
* `RiskAssessment.IsBelow`: the order of scores by their values.

## Main statements

* `Double.of_unpack`: sign and distance stand in the bits.
* `Double.lt_iff`: they decide which double is less.
* `RiskAssessment.scoreRank_lt_iff`, `RiskAssessment.eq_of_scoreRank`: the ranks are a total order
  by the values.
* `RiskAssessment.eq_of_le_of_le`: numbers that are at most each other.
-/

namespace Milestones

open Float.Model Float.Model.UnpackedFloat

/-! ## Doubles -/

namespace Double

/-- The sign of a number. -/
def sign : UnpackedFloat → Sign
  | .infinity s | .zero s | .finite s .. => s
  | .notANumber => .positive

/-- How many doubles a number is away from zero. -/
def distance : UnpackedFloat → Int
  | .infinity _ => 2047 * 2 ^ 52
  | .notANumber | .zero _ => 0
  | .finite _ m e _ => (e + 1074) * 2 ^ 52 + m

/-- A number of a double: the mantissa is as long as there is room for it, unless the exponent is
the lowest one, and what is finite is nearer to zero than what is not. -/
def IsNumber : UnpackedFloat → Prop
  | .infinity _ | .zero _ => True
  | .notANumber => False
  | .finite _ m e _ => m < 2 ^ 53 ∧ -1074 ≤ e ∧ (e = -1074 ∨ 2 ^ 52 ≤ m) ∧
      (e + 1074) * 2 ^ 52 + m < 2047 * 2 ^ 52

/-! ### Bits -/

section Bits

variable (b : BitVec 64)

theorem toNat_unpackMantissa :
    (@unpackMantissa Format.binary64 b).toNat = b.toNat % 2 ^ 52 := by
  simp [unpackMantissa]

theorem toNat_unpackExponent :
    (@unpackExponent Format.binary64 b).toNat = b.toNat / 2 ^ 52 % 2 ^ 11 := by
  simp [unpackExponent, Nat.shiftRight_eq_div_pow]

theorem unpackMantissa_eq_iff {m : BitVec 52} :
    @unpackMantissa Format.binary64 b = m ↔ b.toNat % 2 ^ 52 = m.toNat := by
  rw [← BitVec.toNat_inj, toNat_unpackMantissa]

theorem unpackExponent_eq_iff {e : BitVec 11} :
    @unpackExponent Format.binary64 b = e ↔ b.toNat / 2 ^ 52 % 2 ^ 11 = e.toNat := by
  rw [← BitVec.toNat_inj, toNat_unpackExponent]

theorem unpackSign_eq :
    Sign.ofBitVec (@unpackSign Format.binary64 b) =
      if b.toNat < 2 ^ 63 then .positive else .negative := by
  have htop : (@unpackSign Format.binary64 b).toNat = b.toNat / 2 ^ 63 % 2 := by
    simp [unpackSign, Nat.shiftRight_eq_div_pow]
  have hzero : @unpackSign Format.binary64 b = 0#1 ↔ b.toNat < 2 ^ 63 := by
    have hb := b.isLt
    rw [← BitVec.toNat_inj, htop, BitVec.toNat_zero]
    omega
  simp only [Sign.ofBitVec, hzero]

/-- The leading one of a full mantissa. -/
theorem toNat_leading (m : BitVec 52) : (1#1 ++ m).toNat = 2 ^ 52 + m.toNat := by
  rw [BitVec.toNat_append, ← Nat.shiftLeft_add_eq_or_of_lt m.isLt, Nat.shiftLeft_eq]
  rfl

/-- Sign and distance of a number stand in its bits. -/
theorem of_unpack (h : unpack Format.binary64 b ≠ .notANumber) :
    IsNumber (unpack Format.binary64 b) ∧
      distance (unpack Format.binary64 b) = (b.toNat % 2 ^ 63 : Nat) ∧
        sign (unpack Format.binary64 b) = if b.toNat < 2 ^ 63 then .positive else .negative := by
  have hb := b.isLt
  have hsign := unpackSign_eq b
  have hmant := toNat_unpackMantissa b
  have hexp := toNat_unpackExponent b
  revert h
  -- The exponent is read with the bias of 1023 and with the 52 bits of the mantissa behind it.
  fun_cases unpack Format.binary64 b with
  | case1 m e v s hfull hempty =>
    intro _
    have hfull : b.toNat / 2 ^ 52 % 2 ^ 11 = 2047 := (unpackExponent_eq_iff b).1 hfull
    have hempty : b.toNat % 2 ^ 52 = 0 := (unpackMantissa_eq_iff b).1 hempty
    refine ⟨trivial, ?_, hsign⟩
    rw [distance]
    omega
  | case2 => exact fun h => absurd rfl h
  | case3 m e v s _ hlow hempty =>
    intro _
    have hlow : b.toNat / 2 ^ 52 % 2 ^ 11 = 0 := (unpackExponent_eq_iff b).1 hlow
    have hempty : b.toNat % 2 ^ 52 = 0 := (unpackMantissa_eq_iff b).1 hempty
    refine ⟨trivial, ?_, hsign⟩
    rw [distance]
    omega
  | case4 m e x v s _ hlow _ =>
    intro _
    have hlow : b.toNat / 2 ^ 52 % 2 ^ 11 = 0 := (unpackExponent_eq_iff b).1 hlow
    have hm : m.toNat = b.toNat % 2 ^ 52 := hmant
    have hx : x = (e.toNat : Int) - 1075 := rfl
    have he : e.toNat = b.toNat / 2 ^ 52 % 2 ^ 11 := hexp
    simp only [IsNumber, distance, hm, hx, he]
    refine ⟨?_, ?_, hsign⟩ <;> omega
  | case5 m e x v s hfull hlow =>
    intro _
    have hfull : b.toNat / 2 ^ 52 % 2 ^ 11 ≠ 2047 := fun h =>
      hfull ((unpackExponent_eq_iff b).2 h)
    have hlow : b.toNat / 2 ^ 52 % 2 ^ 11 ≠ 0 := fun h =>
      hlow ((unpackExponent_eq_iff b).2 h)
    have hm : m.toNat = b.toNat % 2 ^ 52 := hmant
    have hx : x = (e.toNat : Int) - 1075 := rfl
    have he : e.toNat = b.toNat / 2 ^ 52 % 2 ^ 11 := hexp
    have hleading : (1#1 ++ m).toNat = 2 ^ 52 + m.toNat := toNat_leading m
    simp only [IsNumber, distance, hleading, hm, hx, he]
    refine ⟨?_, ?_, hsign⟩ <;> omega

end Bits

/-! ### Order -/

/-- With a greater exponent, or with a greater mantissa and the same exponent, a number is farther
from zero. -/
theorem compare_finite_iff {s s' : Sign} {m m' : Nat} {e e' : Int} {hm : 0 < m} {hm' : 0 < m'}
    (h : IsNumber (.finite s m e hm)) (h' : IsNumber (.finite s' m' e' hm')) :
    (compare e e').then (compare m m') = .lt ↔
      distance (.finite s m e hm) < distance (.finite s' m' e' hm') := by
  obtain ⟨hlong, hlow, hfull, -⟩ := h
  obtain ⟨hlong', hlow', hfull', -⟩ := h'
  rw [Ordering.then_eq_lt, Int.compare_eq_lt, Int.compare_eq_eq, Nat.compare_eq_lt, distance,
    distance]
  omega

/-- The farther of two numbers is the nearer one seen from the other side. -/
theorem swap_compare (m m' : Nat) (e e' : Int) :
    ((compare e e').then (compare m m')).swap = (compare e' e).then (compare m' m) := by
  rw [Ordering.swap_then, Int.compare_swap, Nat.compare_swap]

/-- A number is less than another one if its signed distance is. -/
theorem lt_iff {u v : UnpackedFloat} (hu : IsNumber u) (hv : IsNumber v) :
    u.lt v = true ↔ (sign u).apply (distance u) < (sign v).apply (distance v) := by
  rw [UnpackedFloat.lt, beq_iff_eq]
  -- Only two finite numbers are compared by what they are made of.
  rcases u with s | _ | s | ⟨s, m, e, hm⟩ <;> rcases v with s' | _ | s' | ⟨s', m', e', hm'⟩ <;>
    first
    | exact hu.elim
    | exact hv.elim
    | cases s <;> cases s' <;> decide
    | skip
  case finite.finite =>
    have hlt := compare_finite_iff hu hv
    have hgt := compare_finite_iff hv hu
    obtain ⟨-, hlow, -⟩ := hu
    obtain ⟨-, hlow', -⟩ := hv
    cases s <;> cases s' <;>
      simp only [UnpackedFloat.compare, Option.some.injEq, swap_compare, hlt, hgt, distance, sign,
        Sign.apply, reduceCtorEq, true_iff, false_iff] <;> omega
  all_goals
    simp only [IsNumber] at hu hv
    cases s <;> cases s' <;>
      simp only [UnpackedFloat.compare, Option.some.injEq, distance, sign, Sign.apply, reduceCtorEq,
        true_iff, false_iff] <;> omega

/-- With the numbers exchanged, a comparison has the opposite result. -/
theorem compare_swap (u v : UnpackedFloat) : v.compare u = (u.compare v).map Ordering.swap := by
  rcases u with s | _ | s | ⟨s, m, e, hm⟩ <;> rcases v with s' | _ | s' | ⟨s', m', e', hm'⟩
  case finite.finite =>
    -- Only two finite numbers of one sign are compared by what they are made of.
    have hswap := (swap_compare m m' e e').symm
    cases s <;> cases s'
    · exact congrArg (fun o => some o.swap) hswap
    · rfl
    · rfl
    · exact congrArg some hswap
  all_goals (try cases s) <;> (try cases s') <;> rfl

/-- What is at most another number is not greater. -/
theorem not_lt_of_le {u v : UnpackedFloat} (h : u.le v = true) : ¬v.lt u = true := by
  rw [UnpackedFloat.le] at h
  rw [UnpackedFloat.lt, compare_swap]
  cases hcompare : u.compare v with
  | none => simp
  | some o =>
    rw [hcompare] at h
    cases o <;> simp_all

end Double

/-! ## Ranks -/

namespace RiskAssessment

/-- The order of scores: first that which is no number, then by value, and negative zero before
zero. -/
def IsBelow (x y : Float) : Prop :=
  (x.isNaN = true ∧ y.isNaN = false) ∨ x < y ∨ (x = -0.0 ∧ y = 0.0)

theorem eq_of_toBits {x y : Float} (h : x.toBits.toNat = y.toBits.toNat) : x = y := by
  obtain ⟨⟨b, hb⟩⟩ := x
  obtain ⟨⟨b', hb'⟩⟩ := y
  cases UInt64.toNat_inj.1 h
  rfl

theorem isNumber {x : Float} (h : x.isNaN = false) :
    Double.IsNumber x.toModel.unpack ∧
      Double.distance x.toModel.unpack = (x.toBits.toNat % 2 ^ 63 : Nat) ∧
        Double.sign x.toModel.unpack =
          if x.toBits.toNat < 2 ^ 63 then .positive else .negative :=
  Double.of_unpack _ fun hnan => by
    have hisNaN : (x.toModel.unpack).isNaN = false := h
    rw [Float.Model.unpack, hnan] at hisNaN
    cases hisNaN

/-- The rank is the signed distance, except that below zero all ranks are lower by one. -/
theorem scoreRank_eq {x : Float} (h : x.isNaN = false) :
    scoreRank x = if x.toBits.toNat < 2 ^ 63 then (x.toBits.toNat : Int)
      else -(x.toBits.toNat - 2 ^ 63 : Nat) - 1 := by
  simp only [scoreRank, h, Bool.false_eq_true, if_false, Nat.pow_eq]

theorem scoreRank_of_isNaN {x : Float} (h : x.isNaN = true) : scoreRank x = -2 ^ 64 := by
  simp only [scoreRank, h, if_true, Nat.pow_eq]
  rfl

theorem neg_lt_scoreRank {x : Float} (h : x.isNaN = false) : -2 ^ 64 < scoreRank x := by
  have hbits := x.toBits.toNat_lt
  rw [scoreRank_eq h]
  split <;> omega

theorem lt_iff_unpack {x y : Float} : x < y ↔ x.toModel.unpack.lt y.toModel.unpack = true := by
  change decide (x.toModel.unpack.lt y.toModel.unpack = true) = true ↔ _
  rw [decide_eq_true_eq]

theorem unpack_of_isNaN {x : Float} (h : x.isNaN = true) : x.toModel.unpack = .notANumber := by
  have hnan : x.toModel.unpack.isNaN = true := h
  cases hu : x.toModel.unpack with
  | notANumber => rfl
  | _ => rw [hu] at hnan; cases hnan

/-- What is no number is not less than anything, and nothing is less. -/
theorem not_lt_of_isNaN {x y : Float} (h : x.isNaN = true ∨ y.isNaN = true) : ¬x < y := by
  rw [lt_iff_unpack]
  rcases h with h | h <;> rw [unpack_of_isNaN h]
  · simp [UnpackedFloat.lt, UnpackedFloat.compare]
  · cases x.toModel.unpack <;> simp [UnpackedFloat.lt, UnpackedFloat.compare]

/-- There is only one double that is no number. -/
theorem toBits_of_isNaN {x : Float} (h : x.isNaN = true) :
    x.toBits.toBitVec = packedNaN Format.binary64 := by
  have hu : unpack Format.binary64 x.toBits.toBitVec = .notANumber := unpack_of_isNaN h
  revert hu
  fun_cases unpack Format.binary64 x.toBits.toBitVec with
  | case2 m e hexp hmant => exact fun _ => x.toModel.valid.eq_packedNaN hexp hmant
  | _ => exact fun hu => nomatch hu

theorem toBits_zero : (0.0 : Float).toBits.toNat = 0 := by
  decide

theorem toBits_neg_zero : (-0.0 : Float).toBits.toNat = 2 ^ 63 := by
  decide

theorem zeros_iff {x y : Float} :
    (x = -0.0 ∧ y = 0.0) ↔ x.toBits.toNat = 2 ^ 63 ∧ y.toBits.toNat = 0 := by
  constructor
  · rintro ⟨rfl, rfl⟩
    exact ⟨toBits_neg_zero, toBits_zero⟩
  · rintro ⟨hx, hy⟩
    exact ⟨eq_of_toBits (hx.trans toBits_neg_zero.symm), eq_of_toBits (hy.trans toBits_zero.symm)⟩

/-- The rank is the order of scores. -/
theorem scoreRank_lt_iff {x y : Float} : scoreRank x < scoreRank y ↔ IsBelow x y := by
  have hnan : (x = -0.0 ∧ y = 0.0) → x.isNaN = false ∧ y.isNaN = false := by
    rintro ⟨rfl, rfl⟩
    decide
  rw [IsBelow]
  cases hx : x.isNaN <;> cases hy : y.isNaN
  case false.false =>
    obtain ⟨hnx, hdx, hsx⟩ := isNumber hx
    obtain ⟨hny, hdy, hsy⟩ := isNumber hy
    have hbx := x.toBits.toNat_lt
    have hby := y.toBits.toNat_lt
    rw [lt_iff_unpack, Double.lt_iff hnx hny, zeros_iff, hdx, hdy, hsx, hsy, scoreRank_eq hx,
      scoreRank_eq hy]
    simp only [Bool.false_eq_true, false_and, false_or]
    split <;> split <;> simp only [Sign.apply] <;> omega
  case false.true =>
    have hlt := neg_lt_scoreRank hx
    rw [scoreRank_of_isNaN hy]
    refine ⟨fun h => absurd hlt (Int.lt_asymm h), ?_⟩
    rintro (⟨h, -⟩ | h | h)
    · cases h
    · exact absurd h (not_lt_of_isNaN (.inr hy))
    · exact absurd (hy.symm.trans (hnan h).2) Bool.noConfusion
  case true.false =>
    rw [scoreRank_of_isNaN hx]
    exact ⟨fun _ => .inl ⟨rfl, rfl⟩, fun _ => neg_lt_scoreRank hy⟩
  case true.true =>
    rw [scoreRank_of_isNaN hx, scoreRank_of_isNaN hy]
    refine ⟨fun h => absurd h (Int.lt_irrefl _), ?_⟩
    rintro (⟨-, h⟩ | h | h)
    · cases h
    · exact absurd h (not_lt_of_isNaN (.inl hx))
    · exact absurd (hx.symm.trans (hnan h).1) Bool.noConfusion

/-- Only equal scores have the same rank. -/
theorem eq_of_scoreRank {x y : Float} (h : scoreRank x = scoreRank y) : x = y := by
  cases hx : x.isNaN <;> cases hy : y.isNaN
  case false.false =>
    have hbx := x.toBits.toNat_lt
    have hby := y.toBits.toNat_lt
    rw [scoreRank_eq hx, scoreRank_eq hy] at h
    refine eq_of_toBits ?_
    split at h <;> split at h <;> omega
  case false.true => exact absurd (scoreRank_of_isNaN hy ▸ h) (Int.ne_of_gt (neg_lt_scoreRank hx))
  case true.false =>
    exact absurd (scoreRank_of_isNaN hx ▸ h).symm (Int.ne_of_gt (neg_lt_scoreRank hy))
  case true.true =>
    refine eq_of_toBits (congrArg BitVec.toNat ?_)
    rw [toBits_of_isNaN hx, toBits_of_isNaN hy]

/-! ## Numbers that are equal -/

theorem le_iff_unpack {x y : Float} : x ≤ y ↔ x.toModel.unpack.le y.toModel.unpack = true := by
  change decide (x.toModel.unpack.le y.toModel.unpack = true) = true ↔ _
  rw [decide_eq_true_eq]

/-- Only numbers are compared. -/
theorem isNaN_of_le {x y : Float} (h : x ≤ y) : x.isNaN = false ∧ y.isNaN = false := by
  rw [le_iff_unpack] at h
  constructor <;> rw [← Bool.not_eq_true] <;> intro hnan <;> rw [unpack_of_isNaN hnan] at h
  · simp [UnpackedFloat.le, UnpackedFloat.compare] at h
  · cases hx : x.toModel.unpack <;> rw [hx] at h <;> cases h

/-- Two numbers that are at most each other are the same, zeros apart. -/
theorem eq_of_le_of_le {x y : Float} (h : x ≤ y) (h' : y ≤ x) (hy : y ≠ 0.0 ∧ y ≠ -0.0) :
    x = y := by
  obtain ⟨hx, hnumber⟩ := isNaN_of_le h
  refine eq_of_scoreRank (Int.le_antisymm (Int.not_lt.1 ?_) (Int.not_lt.1 ?_)) <;>
    rw [scoreRank_lt_iff]
  · rintro (⟨hnan, -⟩ | hlt | ⟨hzero, -⟩)
    · exact Bool.false_ne_true (hnumber.symm.trans hnan)
    · exact Double.not_lt_of_le (le_iff_unpack.1 h) (lt_iff_unpack.1 hlt)
    · exact hy.2 hzero
  · rintro (⟨hnan, -⟩ | hlt | ⟨-, hzero⟩)
    · exact Bool.false_ne_true (hx.symm.trans hnan)
    · exact Double.not_lt_of_le (le_iff_unpack.1 h') (lt_iff_unpack.1 hlt)
    · exact hy.1 hzero

end RiskAssessment

end Milestones
