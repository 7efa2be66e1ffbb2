import Mathlib
import Milestones.Text.Blank
import Milestones.Text.Digits

/-!
# Numbers that are read back

A number that is written with leading zeros is read back, whatever comes after it, as long as that
does not go on with a digit.

## Main statements

* `takeDigits_paddedChars`, `takeNumber_paddedChars`: reading a written number.
-/

namespace Milestones

/-- No digit is a blank. -/
theorem isBlank_of_isDigit {c : Char} (hc : isDigit c = true) : isBlank c = false := by
  simp only [isDigit, Bool.and_eq_true, decide_eq_true_eq, Char.le_def, UInt32.le_iff_toNat_le] at hc
  have h48 : 48 ≤ c.toNat := hc.1
  have h57 : c.toNat ≤ 57 := hc.2
  simp only [isBlank, Bool.or_eq_false_iff, Bool.and_eq_false_iff, decide_eq_false_iff_not,
    beq_eq_false_iff_ne]
  omega

theorem digitsValue_eq_ofDigitChars (ds : List Char) :
    digitsValue ds = Nat.ofDigitChars 10 ds 0 := by
  rw [Nat.ofDigitChars_eq_foldl]
  rfl

/-! ## What is written -/

section paddedChars

variable {width n : Nat}

theorem isDigit_of_mem_paddedChars {c : Char} (hc : c ∈ paddedChars width n) :
    isDigit c = true := by
  rw [paddedChars, padStart, List.mem_append] at hc
  rcases hc with hc | hc
  · rw [List.eq_of_mem_replicate hc]
    rfl
  · exact Nat.isDigit_of_mem_toDigits (by decide) (by decide) hc

theorem digitsValue_paddedChars : digitsValue (paddedChars width n) = n := by
  rw [digitsValue_eq_ofDigitChars, paddedChars, padStart, Nat.ofDigitChars_append,
    Nat.ofDigitChars_replicate_zero, Nat.mul_zero, decimalChars, Nat.ofDigitChars_ten_toDigits]

/-- A number that fits fills exactly the given width. -/
theorem length_paddedChars (hwidth : 0 < width) (hn : n < 10 ^ width) :
    (paddedChars width n).length = width := by
  have h := (Nat.length_toDigits_le_iff (by decide) hwidth).2 hn
  rw [paddedChars, padStart, List.length_append, List.length_replicate, decimalChars]
  omega

/-- There is a first digit. -/
theorem exists_paddedChars_eq_cons (width n : Nat) :
    ∃ c cs, paddedChars width n = c :: cs ∧ isDigit c = true := by
  have hne : paddedChars width n ≠ [] := by
    simp [paddedChars, padStart, decimalChars, Nat.toDigits_ne_nil]
  obtain ⟨c, cs, h⟩ := List.exists_cons_of_ne_nil hne
  exact ⟨c, cs, h, isDigit_of_mem_paddedChars (h ▸ List.mem_cons_self)⟩

theorem isEmpty_paddedChars (width n : Nat) : (paddedChars width n).isEmpty = false := by
  obtain ⟨_, _, h, -⟩ := exists_paddedChars_eq_cons width n
  rw [h]
  rfl

theorem dropBlanks_paddedChars (rest : List Char) :
    dropBlanks (paddedChars width n ++ rest) = paddedChars width n ++ rest := by
  obtain ⟨c, cs, h, hc⟩ := exists_paddedChars_eq_cons width n
  rw [h]
  exact List.dropWhile_cons_of_neg (by simp [isBlank_of_isDigit hc])

end paddedChars

/-! ## What is read -/

section append

variable {ds : List Char} (rest : List Char) {c : Char} (hds : ∀ d ∈ ds, isDigit d = true)
  (hc : isDigit c = false)
include hds hc

/-- The digits end where something else begins. -/
theorem takeWhile_take_append {most : Nat} (hmost : ds.length ≤ most) :
    ((ds ++ c :: rest).take most).takeWhile isDigit = ds := by
  rw [List.take_append, List.take_of_length_le hmost, List.takeWhile_append_of_pos hds]
  cases most - ds.length with
  | zero => simp
  | succ k => simp [hc]

theorem dropWhile_append : (ds ++ c :: rest).dropWhile isDigit = c :: rest := by
  rw [List.dropWhile_append_of_pos hds, List.dropWhile_cons_of_neg (by simp [hc])]

end append

section paddedChars

variable {width n : Nat} {c : Char} (hc : isDigit c = false) (rest : List Char)
include hc

/-- A number is read back if the limits on the number of digits allow for its width. -/
theorem takeDigits_paddedChars {least most : Nat} (hwidth : 0 < width) (hn : n < 10 ^ width)
    (hleast : least ≤ width) (hmost : width ≤ most) :
    takeDigits least most (paddedChars width n ++ c :: rest) = some (n, c :: rest) := by
  have hlength := length_paddedChars hwidth hn
  have hds := takeWhile_take_append rest (fun _ => isDigit_of_mem_paddedChars) hc
    (hlength.trans_le hmost)
  have hlong : ¬(paddedChars width n).length < least := by omega
  simp only [takeDigits, hds, if_neg hlong, digitsValue_paddedChars, List.drop_left]

theorem takeNumber_paddedChars :
    takeNumber (paddedChars width n ++ c :: rest) = some (n, c :: rest) := by
  have hall : ∀ d ∈ paddedChars width n, isDigit d = true := fun _ => isDigit_of_mem_paddedChars
  have hds : (paddedChars width n ++ c :: rest).takeWhile isDigit = paddedChars width n := by
    rw [List.takeWhile_append_of_pos hall, List.takeWhile_cons_of_neg (by simp [hc]),
      List.append_nil]
  simp only [takeNumber, hds, isEmpty_paddedChars, Bool.false_eq_true, if_false,
    digitsValue_paddedChars, dropWhile_append rest hall hc]

end paddedChars

end Milestones
