import Milestones.Proofs.Outcome
import Milestones.Proofs.Text.Digits
import Milestones.Proofs.Time.Calendar
import Milestones.Proofs.Time.Instant
import Milestones.Time.Text

/-!
# Dates that are read back

An instant is written as year, month, day, hour, minute, second and fraction.  The loose reader takes
each part off the front of the text and leaves the rest as it is, and the parts name the instant.

## Main statements

* `Instant.ofParts?_date`: the parts of an instant name it.
* `Instant.ofLooseText?_text`: a written instant is read back.
-/

namespace Milestones.Instant

open Outcome

/-! ## Reading the parts -/

section parts

variable {c : Char} (rest : List Char)

/-- A separator is taken off. -/
theorem takeChar_dropBlanks (hc : isBlank c = false) :
    takeChar c (dropBlanks (c :: rest)) = some rest := by
  rw [dropBlanks, List.dropWhile_cons_of_neg (by simp [hc]), takeChar, if_pos rfl]

/-- A part of two digits is read back. -/
theorem takePart_paddedChars {n : Nat} (hn : n < 100) (hc : isDigit c = false) :
    takePart (paddedChars 2 n ++ c :: rest) = some (n, c :: rest) := by
  rw [takePart, dropBlanks_paddedChars]
  exact takeDigits_paddedChars hc rest (by decide) hn (by decide) (by decide)

/-- A year without a sign has up to four digits. -/
theorem takeYear_of_isDigit {d : Char} (hd : isDigit d = true) (cs : List Char) :
    takeYear (d :: cs) = (takeDigits 1 4 (d :: cs)).map fun (n, rest) => ((n : Int), rest) := by
  rw [takeYear]
  · rintro _ ⟨rfl, -⟩
    cases hd
  · rintro _ ⟨rfl, -⟩
    cases hd

/-- A year is read back before the hyphen after it. -/
theorem takeYear_yearChars (year : Int) :
    takeYear (dropBlanks (yearChars year ++ '-' :: rest)) = some (year, '-' :: rest) := by
  rw [yearChars]
  split
  · rename_i hyear
    have hread : takeDigits 1 4 (paddedChars 4 year.natAbs ++ '-' :: rest) =
        some (year.natAbs, '-' :: rest) :=
      takeDigits_paddedChars rfl rest (by decide) (by omega) (by decide) (by decide)
    have habs : (year.natAbs : Int) = year := by omega
    obtain ⟨d, ds, hds, hd⟩ := exists_paddedChars_eq_cons 4 year.natAbs
    rw [dropBlanks_paddedChars]
    rw [hds, List.cons_append] at hread ⊢
    simp only [takeYear_of_isDigit hd, hread, Option.map_some, habs]
  · have hread : takeNumber (paddedChars 4 year.natAbs ++ '-' :: rest) =
        some (year.natAbs, '-' :: rest) :=
      takeNumber_paddedChars rfl rest
    by_cases hneg : year < 0
    · have habs : -(year.natAbs : Int) = year := by omega
      rw [if_pos hneg]
      change (takeNumber (paddedChars 4 year.natAbs ++ '-' :: rest)).map _ = _
      simp only [hread, Option.map_some, habs]
    · have habs : (year.natAbs : Int) = year := by omega
      rw [if_neg hneg]
      change (takeNumber (paddedChars 4 year.natAbs ++ '-' :: rest)).map _ = _
      simp only [hread, Option.map_some, habs]

/-- The digits after the point count for as much as there are. -/
theorem takeFraction_paddedChars {width n : Nat} (hwidth : 0 < width) (hmost : width ≤ 9)
    (hn : n < 10 ^ width) (hc : isDigit c = false) :
    takeFraction ('.' :: (paddedChars width n ++ c :: rest)) =
      some (n * Nat.pow 10 (9 - width), c :: rest) := by
  have hlength := length_paddedChars hwidth hn
  have hall : ∀ d ∈ paddedChars width n, isDigit d = true := fun _ => isDigit_of_mem_paddedChars
  have hds := takeWhile_take_append rest hall hc (hlength.trans_le hmost)
  simp only [takeFraction, hds, isEmpty_paddedChars, Bool.false_eq_true, if_false, hlength,
    digitsValue_paddedChars, dropWhile_append rest hall hc]

/-- A fraction is read back, in whichever of the four lengths it is written. -/
theorem takeFraction_fractionChars {n : Nat} (hn : n < 1000000000) (hc : isDigit c = false)
    (hpoint : c ≠ '.') : takeFraction (fractionChars n ++ c :: rest) = some (n, c :: rest) := by
  rw [fractionChars]
  split
  · rename_i hzero
    rw [hzero, List.nil_append, takeFraction]
    rintro _ ⟨rfl, -⟩
    exact hpoint rfl
  split
  · have hvalue : n / 1000000 * Nat.pow 10 (9 - 3) = n := by
      change n / 1000000 * 1000000 = n
      omega
    rw [List.cons_append, takeFraction_paddedChars _ (by decide) (by decide) (by omega) hc, hvalue]
  split
  · have hvalue : n / 1000 * Nat.pow 10 (9 - 6) = n := by
      change n / 1000 * 1000 = n
      omega
    rw [List.cons_append, takeFraction_paddedChars _ (by decide) (by decide) (by omega) hc, hvalue]
  · have hvalue : n * Nat.pow 10 (9 - 9) = n := Nat.mul_one n
    rw [List.cons_append, takeFraction_paddedChars _ (by decide) (by decide) (by omega) hc, hvalue]

/-- No fraction begins with a digit. -/
theorem exists_fractionChars_eq_cons (n : Nat) (hc : isDigit c = false) :
    ∃ d cs, fractionChars n ++ c :: rest = d :: cs ∧ isDigit d = false := by
  rw [fractionChars]
  split
  · exact ⟨c, rest, rfl, hc⟩
  split
  · exact ⟨'.', _, rfl, rfl⟩
  split
  · exact ⟨'.', _, rfl, rfl⟩
  · exact ⟨'.', _, rfl, rfl⟩

/-- The parts of a written date come out of the text as they went in. -/
theorem ofLooseChars?_parts {date : Date} {hour minute second nanos : Nat}
    (hmonth : date.month < 100) (hday : date.day < 100) (hhour : hour < 100) (hminute : minute < 100)
    (hsecond : second < 100) (hnanos : nanos < 1000000000) :
    ofLooseChars? (yearChars date.year ++ '-' :: (paddedChars 2 date.month ++
      '-' :: (paddedChars 2 date.day ++ 'T' :: (paddedChars 2 hour ++
      ':' :: (paddedChars 2 minute ++ ':' :: (paddedChars 2 second ++
      (fractionChars nanos ++ ['Z']))))))) = ofParts? date hour minute second nanos 0 := by
  -- the seconds end where the fraction begins, or the offset if there is no fraction
  obtain ⟨c, cs, hcs, hc⟩ := exists_fractionChars_eq_cons (c := 'Z') [] nanos rfl
  have hseconds := takePart_paddedChars cs hsecond hc
  rw [← hcs] at hseconds
  have hfraction := takeFraction_fractionChars (c := 'Z') [] hnanos rfl (by decide)
  rw [ofLooseChars?]
  refine (bind_of_eq_some (takeYear_yearChars _ _)).trans ?_
  refine (bind_of_eq_some (takeChar_dropBlanks _ rfl)).trans ?_
  refine (bind_of_eq_some (takePart_paddedChars _ hmonth rfl)).trans ?_
  refine (bind_of_eq_some (takeChar_dropBlanks _ rfl)).trans ?_
  refine (bind_of_eq_some (takePart_paddedChars _ hday rfl)).trans ?_
  refine (bind_of_eq_some rfl).trans ?_
  refine (bind_of_eq_some (takePart_paddedChars _ hhour rfl)).trans ?_
  refine (bind_of_eq_some (takeChar_dropBlanks _ rfl)).trans ?_
  refine (bind_of_eq_some (takePart_paddedChars _ hminute rfl)).trans ?_
  refine (bind_of_eq_some (takeChar_dropBlanks _ rfl)).trans ?_
  refine (bind_of_eq_some hseconds).trans ?_
  refine (bind_of_eq_some hfraction).trans ?_
  rfl

end parts

/-! ## The parts of an instant -/

section instant

variable (t : Instant)

theorem toDays_date : t.date.toDays = t.day := Date.toDays_ofDays _

theorem valid_date : t.date.Valid := Date.valid_ofDays t.firstDay_le t.day_le

/-- The parts of an instant name it. -/
theorem ofParts?_date : ofParts? t.date (t.second / 3600) (t.second / 60 % 60)
    (t.second % 60 + t.nano / 1000000000) (t.nano % 1000000000) 0 = some t := by
  have hsecond := t.second_lt; have hnano := t.nano_lt; have hmod := t.second_mod
  have hparts : t.date.Valid ∧ t.second / 3600 < 24 ∧ t.second / 60 % 60 < 60 ∧
      t.second % 60 + t.nano / 1000000000 ≤ 60 ∧ (0 : Int).natAbs < 86400 :=
    ⟨t.valid_date, by omega, by omega, by omega, by decide⟩
  rw [ofParts?, if_pos hparts, ofSecond?_eq_some_iff, toDays_date]
  -- Second 60 is shown exactly within a leap second.
  have hleap : (t.second % 60 + t.nano / 1000000000) / 60 = t.nano / 1000000000 := by omega
  simp only [hleap]
  omega

/-- The written form, part by part. -/
theorem chars_eq : t.chars = yearChars t.date.year ++ '-' :: (paddedChars 2 t.date.month ++
    '-' :: (paddedChars 2 t.date.day ++ 'T' ::
    (paddedChars 2 (t.second / 3600) ++ ':' :: (paddedChars 2 (t.second / 60 % 60) ++
    ':' :: (paddedChars 2 (t.second % 60 + t.nano / 1000000000) ++
    (fractionChars (t.nano % 1000000000) ++ ['Z'])))))) := by
  simp only [chars, Date.chars, clockChars, List.append_assoc, List.cons_append]

/-- A written instant is read back. -/
theorem ofLooseText?_text : ofLooseText? t.text = some t := by
  have hsecond := t.second_lt
  have hnano := t.nano_lt
  obtain ⟨-, -, -, hmonth, -, hday⟩ := t.valid_date
  have hlength := Date.daysInMonth_le t.date.year t.date.month
  rw [ofLooseText?, text, String.toList_ofList, chars_eq,
    ofLooseChars?_parts (by omega) (by omega) (by omega) (by omega) (by omega) (by omega)]
  exact t.ofParts?_date

end instant

end Milestones.Instant
