import Milestones.Time.Calendar
import Milestones.Text.Blank
import Milestones.Text.Digits

/-!
# Dates as text

Instants are written as RFC 3339 dates in universal time, those within a leap second with second 60.
There are two readers.  The
strict one accepts RFC 3339 and nothing else.  The loose one, used for dates inside
records, also accepts blanks between the parts, parts of one digit, signed years of any
length and a few more spellings of the offset.

## Main definitions

* `Instant.text`: the written form, `2026-01-05T08:00:00.500Z`.
* `Instant.displayText`: the form for people, `2026-01-05 08:00:00.500 UTC`.
* `Instant.ofStrictText?`, `Instant.ofLooseText?`: the two readers.
-/

namespace Milestones

/-! ## Writing -/

/-- Years of four digits stand alone; all others carry a sign. -/
def yearChars (year : Int) : List Char :=
  if 0 ≤ year ∧ year ≤ 9999 then paddedChars 4 year.natAbs
  else (if year < 0 then '-' else '+') :: paddedChars 4 year.natAbs

namespace Date

/-- Year, month and day with hyphens. -/
def chars (d : Date) : List Char :=
  yearChars d.year ++ '-' :: paddedChars 2 d.month ++ '-' :: paddedChars 2 d.day

/-- The written form of a date. -/
def text (d : Date) : String := String.ofList d.chars

end Date

/-- A fraction of a second in the fewest groups of three digits that are exact. -/
def fractionChars (nanos : Nat) : List Char :=
  if nanos = 0 then []
  else if nanos % 1000000 = 0 then '.' :: paddedChars 3 (nanos / 1000000)
  else if nanos % 1000 = 0 then '.' :: paddedChars 6 (nanos / 1000)
  else '.' :: paddedChars 9 nanos

namespace Instant

/-- The time of day with its fraction of a second. -/
def clockChars (t : Instant) : List Char :=
  let leap := t.nano / 1000000000
  paddedChars 2 (t.second / 3600) ++ ':' :: paddedChars 2 (t.second / 60 % 60) ++
    ':' :: paddedChars 2 (t.second % 60 + leap) ++ fractionChars (t.nano % 1000000000)

/-- The written form as characters. -/
def chars (t : Instant) : List Char := t.date.chars ++ 'T' :: t.clockChars ++ ['Z']

/-- The written form: RFC 3339 in universal time. -/
def text (t : Instant) : String := String.ofList t.chars

/-- The form for people. -/
def displayText (t : Instant) : String :=
  String.ofList (t.date.chars ++ ' ' :: t.clockChars ++ " UTC".toList)

/-! ## Reading -/

/-- The instant that local date, local time and offset name together.  Second 60 of any minute is a
leap second.  The offset is in seconds and stays below a day; the readers give one of whole
minutes. -/
def ofParts? (date : Date) (hour minute second nanos : Nat) (offset : Int) : Option Instant :=
  if date.Valid ∧ hour < 24 ∧ minute < 60 ∧ second ≤ 60 ∧ offset.natAbs < 86400 then
    let leap := second / 60
    let clock := hour * 3600 + minute * 60 + (second - leap)
    ofSecond? (date.toDays * 86400 + clock - offset) (nanos + leap * 1000000000)
  else none

/-- Takes one given character. -/
def takeChar (c : Char) : List Char → Option (List Char)
  | [] => none
  | d :: rest => if d = c then some rest else none

/-- Takes the mark between date and time. -/
def takeSeparator : List Char → Option (List Char)
  | [] => none
  | c :: rest => if c = 'T' ∨ c = 't' ∨ c = ' ' then some rest else none

/-- Takes an optional fraction of a second.  Nine digits count, further ones are dropped. -/
def takeFraction : List Char → Option (Nat × List Char)
  | '.' :: rest =>
    let ds := (rest.take 9).takeWhile isDigit
    if ds.isEmpty then none
    else some (digitsValue ds * Nat.pow 10 (9 - ds.length), rest.dropWhile isDigit)
  | cs => some (0, cs)

/-- Takes the sign of an offset; the true minus sign is read like a hyphen. -/
def takeSign : List Char → Option (Int × List Char)
  | '+' :: rest => some (1, rest)
  | '-' :: rest => some (-1, rest)
  | '−' :: rest => some (-1, rest)
  | _ => none

/-- Takes an offset: `Z`, or a sign, two digits of hours, whatever `between` takes, and two
digits of minutes. -/
def takeOffset (between : List Char → Option (List Char)) : List Char → Option (Int × List Char)
  | 'Z' :: rest => some (0, rest)
  | 'z' :: rest => some (0, rest)
  | cs => do
    let (sign, cs) ← takeSign cs
    let (hours, cs) ← takeDigits 2 2 cs
    let cs ← between cs
    let (minutes, cs) ← takeDigits 2 2 cs
    if minutes < 60 then some (sign * (hours * 3600 + minutes * 60 : Nat), cs) else none

/-- Reads RFC 3339 and nothing else. -/
def ofStrictChars? (cs : List Char) : Option Instant := do
  let (year, cs) ← takeDigits 4 4 cs
  let cs ← takeChar '-' cs
  let (month, cs) ← takeDigits 2 2 cs
  let cs ← takeChar '-' cs
  let (day, cs) ← takeDigits 2 2 cs
  let cs ← takeSeparator cs
  let (hour, cs) ← takeDigits 2 2 cs
  let cs ← takeChar ':' cs
  let (minute, cs) ← takeDigits 2 2 cs
  let cs ← takeChar ':' cs
  let (second, cs) ← takeDigits 2 2 cs
  let (nanos, cs) ← takeFraction cs
  let (offset, cs) ← takeOffset (takeChar ':') cs
  if cs.isEmpty then ofParts? ⟨year, month, day⟩ hour minute second nanos offset else none

/-- Reads RFC 3339 and nothing else. -/
def ofStrictText? (s : String) : Option Instant := ofStrictChars? s.toList

/-- Takes a year: a sign and any number of digits, or up to four digits. -/
def takeYear (cs : List Char) : Option (Int × List Char) :=
  match cs with
  | '-' :: rest => (takeNumber rest).map fun (n, rest) => (-(n : Int), rest)
  | '+' :: rest => (takeNumber rest).map fun (n, rest) => ((n : Int), rest)
  | _ => (takeDigits 1 4 cs).map fun (n, rest) => ((n : Int), rest)

/-- Takes a part of one or two digits, after blanks. -/
def takePart (cs : List Char) : Option (Nat × List Char) := takeDigits 1 2 (dropBlanks cs)

/-- Takes the offset of a loosely written date: also `UTC` in any case, and any run of
colons and blanks between hours and minutes. -/
def takeLooseOffset (cs : List Char) : Option (Int × List Char) :=
  if (cs.take 3).map Char.toUpper = ['U', 'T', 'C'] then some (0, cs.drop 3)
  else takeOffset (fun cs => some (cs.dropWhile fun c => c == ':' || isBlank c)) cs

/-- Reads a date as records hold it, more loosely than RFC 3339. -/
def ofLooseChars? (cs : List Char) : Option Instant := do
  let (year, cs) ← takeYear (dropBlanks cs)
  let cs ← takeChar '-' (dropBlanks cs)
  let (month, cs) ← takePart cs
  let cs ← takeChar '-' (dropBlanks cs)
  let (day, cs) ← takePart cs
  let cs ← takeSeparator cs
  let (hour, cs) ← takePart cs
  let cs ← takeChar ':' (dropBlanks cs)
  let (minute, cs) ← takePart cs
  let cs ← takeChar ':' (dropBlanks cs)
  let (second, cs) ← takePart cs
  let (nanos, cs) ← takeFraction cs
  let (offset, cs) ← takeLooseOffset (dropBlanks cs)
  if (dropBlanks cs).isEmpty then ofParts? ⟨year, month, day⟩ hour minute second nanos offset
  else none

/-- Reads a date as records hold it, more loosely than RFC 3339. -/
def ofLooseText? (s : String) : Option Instant := ofLooseChars? s.toList

end Instant

end Milestones
