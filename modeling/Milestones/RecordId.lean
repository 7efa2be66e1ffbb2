/-!
# Record identifiers

Milestones, contracts and dependencies are named by 128-bit numbers.  The kind of
record is part of the type, so an identifier of one kind is never mistaken for
another.  Identifiers are ordered by value; that order is the last tie-break
wherever milestones are ranked.

The written form groups the 32 hexadecimal digits 8-4-4-4-12 in lower case.
Reading also accepts the bare digits, braces, and the `urn:uuid:` form.

## Main definitions

* `RecordId kind`: an identifier of a record of that kind.
* `RecordId.text`: the written form.
* `RecordId.ofText?`: reading any of the accepted forms.
-/

namespace Milestones

/-- The kinds of record that carry an identifier. -/
inductive RecordKind where
  | milestone
  | contract
  | dependency
deriving DecidableEq, Repr

/-- The number of identifiers: `2 ^ 128`. -/
def RecordId.count : Nat := 340282366920938463463374607431768211456

/-- An identifier: a number below `2 ^ 128`. -/
structure RecordId (kind : RecordKind) where
  value : Nat
  value_lt : value < RecordId.count
deriving DecidableEq

abbrev MilestoneId := RecordId .milestone
abbrev ContractId := RecordId .contract
abbrev DependencyId := RecordId .dependency

namespace RecordId

variable {kind : RecordKind}

@[ext] theorem ext {a b : RecordId kind} (h : a.value = b.value) : a = b := by
  cases a; cases b; simp_all

instance : LT (RecordId kind) := ⟨fun a b => a.value < b.value⟩
instance : LE (RecordId kind) := ⟨fun a b => a.value ≤ b.value⟩

instance (a b : RecordId kind) : Decidable (a < b) := inferInstanceAs (Decidable (a.value < b.value))
instance (a b : RecordId kind) : Decidable (a ≤ b) := inferInstanceAs (Decidable (a.value ≤ b.value))

theorem lt_iff {a b : RecordId kind} : a < b ↔ a.value < b.value := Iff.rfl
theorem le_iff {a b : RecordId kind} : a ≤ b ↔ a.value ≤ b.value := Iff.rfl

/-- Numerals name identifiers; beyond the range they start over. -/
instance (n : Nat) : OfNat (RecordId kind) n :=
  ⟨⟨n % count, Nat.mod_lt n (by decide)⟩⟩

/-- The identifier with the given value, if the value fits. -/
def ofNat? (n : Nat) : Option (RecordId kind) :=
  if h : n < count then some ⟨n, h⟩ else none

/-! ## Written form -/

/-- The lower-case hexadecimal digit of a number below sixteen. -/
def hexDigit (d : Nat) : Char :=
  if d < 10 then Char.ofNat (48 + d) else Char.ofNat (87 + d)

/-- The `width` lowest hexadecimal digits of `n`, highest first. -/
def hexDigits : (width n : Nat) → List Char
  | 0, _ => []
  | width + 1, n => hexDigits width (n / 16) ++ [hexDigit (n % 16)]

/-- The value of a hexadecimal digit in either case. -/
def hexValue? (c : Char) : Option Nat :=
  if '0' ≤ c ∧ c ≤ '9' then some (c.toNat - 48)
  else if 'a' ≤ c ∧ c ≤ 'f' then some (c.toNat - 87)
  else if 'A' ≤ c ∧ c ≤ 'F' then some (c.toNat - 55)
  else none

/-- The 32 digits in groups of 8, 4, 4, 4 and 12. -/
def chars (id : RecordId kind) : List Char :=
  hexDigits 8 (id.value / Nat.pow 16 24) ++
    '-' :: hexDigits 4 (id.value / Nat.pow 16 20) ++
    '-' :: hexDigits 4 (id.value / Nat.pow 16 16) ++
    '-' :: hexDigits 4 (id.value / Nat.pow 16 12) ++ '-' :: hexDigits 12 id.value

/-- The written form of an identifier. -/
def text (id : RecordId kind) : String := String.ofList id.chars

instance : ToString (RecordId kind) := ⟨text⟩

/-! ## Reading -/

/-- Reads `width` hexadecimal digits onto an accumulated value and returns the rest. -/
def takeHex : (width acc : Nat) → List Char → Option (Nat × List Char)
  | 0, acc, rest => some (acc, rest)
  | _ + 1, _, [] => none
  | width + 1, acc, c :: rest => do
    let d ← hexValue? c
    takeHex width (16 * acc + d) rest

/-- Reads groups of hexadecimal digits with a hyphen between two groups. -/
def takeGroups : List Nat → (acc : Nat) → List Char → Option (Nat × List Char)
  | [], acc, rest => some (acc, rest)
  | [width], acc, rest => takeHex width acc rest
  | width :: more, acc, rest => do
    match ← takeHex width acc rest with
    | (acc, '-' :: rest) => takeGroups more acc rest
    | _ => none

/-- Reads digits in the given groups up to the end of the text. -/
def ofGroups? (widths : List Nat) (cs : List Char) : Option (RecordId kind) := do
  let (n, rest) ← takeGroups widths 0 cs
  if rest.isEmpty then ofNat? n else none

/-- The grouped form. -/
def ofGrouped? (cs : List Char) : Option (RecordId kind) := ofGroups? [8, 4, 4, 4, 12] cs

/-- Reads an identifier: the grouped digits, alone, in braces or after `urn:uuid:`
in any case, or the 32 digits without hyphens. -/
def ofChars? (cs : List Char) : Option (RecordId kind) :=
  if cs.length = 32 then ofGroups? [32] cs
  else if cs.length = 36 then ofGrouped? cs
  else if cs.length = 38 then
    if cs.head? = some '{' ∧ cs.getLast? = some '}' then ofGrouped? (cs.tail.dropLast) else none
  else if cs.length = 45 then
    if (cs.take 9).map Char.toLower = "urn:uuid:".toList then ofGrouped? (cs.drop 9) else none
  else none

/-- Reads an identifier in any accepted form. -/
def ofText? (s : String) : Option (RecordId kind) := ofChars? s.toList

end RecordId

end Milestones
