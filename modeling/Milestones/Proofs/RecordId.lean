import Mathlib
import Milestones.RecordId

/-!
# Identifiers that are read back

The digits of a number are read onto what stands above them.  In a written identifier each group of
digits is read onto the groups before it, so the whole number comes together group by group.

## Main statements

* `RecordId.takeHex_hexDigits`: the digits of a number give the number.
* `RecordId.ofText?_text`: a written identifier is read back.
-/

namespace Milestones.RecordId

variable {kind : RecordKind}

theorem hexValue?_hexDigit : ∀ d < 16, hexValue? (hexDigit d) = some d := by decide

theorem length_hexDigits (width n : Nat) : (hexDigits width n).length = width := by
  induction width generalizing n with
  | zero => rfl
  | succ width ih => simp [hexDigits, ih]

/-- One more digit at the end of the others. -/
theorem takeHex_succ {width acc m d : Nat} {cs rest : List Char} {c : Char}
    (h : takeHex width acc cs = some (m, c :: rest)) (hd : hexValue? c = some d) :
    takeHex (width + 1) acc cs = some (16 * m + d, rest) := by
  induction width generalizing acc cs with
  | zero =>
    cases h
    simp [takeHex, hd]
  | succ width ih =>
    cases cs with
    | nil => cases h
    | cons b cs =>
      rw [takeHex] at h ⊢
      obtain ⟨e, he, h⟩ := Option.bind_eq_some_iff.1 h
      exact Option.bind_eq_some_iff.2 ⟨e, he, ih h⟩

/-- The digits of a number are read onto what stands above them. -/
theorem takeHex_hexDigits (width acc n : Nat) (rest : List Char) (hacc : acc = n / 16 ^ width) :
    takeHex width acc (hexDigits width n ++ rest) = some (n, rest) := by
  induction width generalizing acc n rest with
  | zero => simp [hexDigits, takeHex, hacc]
  | succ width ih =>
    have habove : acc = n / 16 / 16 ^ width := by
      rw [hacc, Nat.pow_succ', Nat.div_div_eq_div_mul]
    have hdigit := hexValue?_hexDigit (n % 16) (Nat.mod_lt n (by decide))
    rw [hexDigits, List.append_assoc, List.singleton_append, takeHex_succ (ih _ _ _ habove) hdigit,
      Nat.div_add_mod]

theorem length_chars (id : RecordId kind) : id.chars.length = 36 := by
  simp [chars, length_hexDigits]

/-- All groups together give the value. -/
theorem takeGroups_chars (id : RecordId kind) :
    takeGroups [8, 4, 4, 4, 12] 0 id.chars = some (id.value, []) := by
  have hvalue := id.value_lt
  rw [count] at hvalue
  have h24 := fun rest => takeHex_hexDigits 8 0 (id.value / 16 ^ 24) rest (by omega)
  have h20 := fun rest =>
    takeHex_hexDigits 4 (id.value / 16 ^ 24) (id.value / 16 ^ 20) rest (by omega)
  have h16 := fun rest =>
    takeHex_hexDigits 4 (id.value / 16 ^ 20) (id.value / 16 ^ 16) rest (by omega)
  have h12 := fun rest =>
    takeHex_hexDigits 4 (id.value / 16 ^ 16) (id.value / 16 ^ 12) rest (by omega)
  have h0 := takeHex_hexDigits 12 (id.value / 16 ^ 12) id.value [] (by omega)
  rw [List.append_nil] at h0
  simp only [chars, takeGroups, List.append_assoc, List.cons_append, Nat.pow_eq]
  simp only [h24, h20, h16, h12, h0, Option.bind_eq_bind, Option.bind_some]

/-- A written identifier is read back. -/
theorem ofText?_text (id : RecordId kind) : ofText? id.text = some id := by
  have hlength := id.length_chars
  rw [ofText?, text, String.toList_ofList, ofChars?, if_neg (by omega), if_pos hlength]
  simp only [ofGrouped?, ofGroups?, takeGroups_chars, Option.bind_eq_bind, Option.bind_some,
    List.isEmpty_nil, if_true, ofNat?, dif_pos id.value_lt]

end Milestones.RecordId
