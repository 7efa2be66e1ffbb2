import Milestones.Datum.Toml.Text
import Milestones.Decimal.Reading
import Milestones.Time.Calendar

/-!
# TOML numbers, truth values and dates

These values are recognised by their whole spelling: a run of letters, digits, signs,
points and colons.

## Main definitions

* `scalar?`: the value of such a run.
* `takeScalar`: takes a run and reads it; a date may go on after one space.
-/

namespace Milestones.Toml

/-- The character may stand in a number, a truth value or a date. -/
def isScalarChar (c : Char) : Bool := isBare c || c == '+' || c == '.' || c == ':'

/-- Digits with single underscores between them, underscores dropped. -/
def ungroup? (ok : Char → Bool) : List Char → Option (List Char)
  | [] => none
  | [c] => if ok c then some [c] else none
  | c :: '_' :: rest => if ok c then (ungroup? ok rest).map (c :: ·) else none
  | c :: rest => if ok c then (ungroup? ok rest).map (c :: ·) else none

/-! ## Numbers -/

/-- A signed 64-bit number. -/
def bounded? (n : Int) : Option Datum :=
  if -9223372036854775808 ≤ n ∧ n ≤ 9223372036854775807 then some (.int n) else none

/-- The digits of a decimal number without leading zeros. -/
def decimalPart? (cs : List Char) : Option (List Char) :=
  match ungroup? isDigit cs with
  | some ('0' :: _ :: _) => none
  | ds => ds

/-- A number in base 2, 8 or 16. -/
def radix? (base : Nat) (cs : List Char) : Option Datum := do
  let digit? (c : Char) : Option Nat :=
    let d :=
      if '0' ≤ c ∧ c ≤ '9' then c.toNat - 48
      else if 'a' ≤ c ∧ c ≤ 'f' then c.toNat - 87
      else if 'A' ≤ c ∧ c ≤ 'F' then c.toNat - 55
      else base
    if d < base then some d else none
  let ds ← ungroup? (fun c => (digit? c).isSome) cs
  let values ← ds.mapM digit?
  let n : Nat := values.foldl (fun n d => base * n + d) 0
  bounded? n

/-- The sign of a number and what follows it. -/
def splitSign : List Char → Bool × List Char
  | '+' :: rest => (false, rest)
  | '-' :: rest => (true, rest)
  | cs => (false, cs)

/-- A whole number in base ten. -/
def whole? (cs : List Char) : Option Datum := do
  let (negative, rest) := splitSign cs
  let ds ← decimalPart? rest
  let n : Int := digitsValue ds
  bounded? (if negative then -n else n)

/-- A number with a fraction or an exponent.  One beyond the doubles is refused when it is
positive. -/
def fractional? (cs : List Char) : Option Datum := do
  let (negative, rest) := splitSign cs
  let isMark (c : Char) : Bool := c == 'e' || c == 'E'
  let mantissa := rest.takeWhile fun c => !isMark c
  let exponent? : Option Int ←
    match rest.dropWhile fun c => !isMark c with
    | [] => some none
    | _ :: rest => do
      let (negative, rest) := splitSign rest
      let ds ← ungroup? isDigit rest
      let n : Int := digitsValue ds
      some (some (if negative then -n else n))
  let whole ← decimalPart? (mantissa.takeWhile (· != '.'))
  let places? : Option (List Char) ←
    match mantissa.dropWhile (· != '.') with
    | [] => some none
    | _ :: rest => (ungroup? isDigit rest).map some
  if exponent?.isNone && places?.isNone then none
  else
    let places := places?.getD []
    let x := nearestFloat (digitsValue (whole ++ places)) (exponent?.getD 0 - places.length)
    if negative then some (.float (-x)) else if x.isFinite then some (.float x) else none

/-- An infinity or NaN. -/
def special? (cs : List Char) : Option Datum :=
  let (negative, rest) := splitSign cs
  if rest = ['i', 'n', 'f'] then some (.float (if negative then -(1 / 0) else 1 / 0))
  else if rest = ['n', 'a', 'n'] then some (.float (0 / 0))
  else none

/-! ## Dates -/

/-- Takes exactly so many digits, at most the given number. -/
def takeField (width most : Nat) (cs : List Char) : Option (Nat × List Char) := do
  let (n, rest) ← takeDigits width width cs
  if n ≤ most then some (n, rest) else none

/-- Takes one given character. -/
def takeMark (c : Char) : List Char → Option (List Char)
  | [] => none
  | d :: rest => if d = c then some rest else none

/-- Takes a date. -/
def takeDate (cs : List Char) : Option (List Char) := do
  let (year, cs) ← takeField 4 9999 cs
  let cs ← takeMark '-' cs
  let (month, cs) ← takeField 2 12 cs
  let cs ← takeMark '-' cs
  let (day, cs) ← takeField 2 31 cs
  if month = 0 ∨ day = 0 ∨ Date.daysInMonth year month < day then none else some cs

/-- Takes a time of day. -/
def takeTime (cs : List Char) : Option (List Char) := do
  let (_, cs) ← takeField 2 23 cs
  let cs ← takeMark ':' cs
  let (_, cs) ← takeField 2 59 cs
  let cs ← takeMark ':' cs
  let (_, cs) ← takeField 2 60 cs
  match cs with
  | '.' :: rest => (takeNumber rest).map Prod.snd
  | cs => some cs

/-- Takes an optional offset. -/
def takeZone : List Char → Option (List Char)
  | [] => some []
  | c :: cs =>
    if c = 'Z' ∨ c = 'z' then some cs
    else if c = '+' ∨ c = '-' then do
      let (_, cs) ← takeField 2 23 cs
      let cs ← takeMark ':' cs
      let (_, cs) ← takeField 2 59 cs
      some cs
    else none

/-- A time with an optional offset, up to the end. -/
def isClock (cs : List Char) : Bool := ((takeTime cs).bind takeZone) == some []

/-- A date alone. -/
def isDay (cs : List Char) : Bool := takeDate cs == some []

/-- A date, a time, or both with an optional offset.  As data it is a record of one field
that no reader asks for, so a date never passes for a text. -/
def date? (cs : List Char) : Option Datum :=
  let recognised :=
    match takeDate cs with
    | none => takeTime cs == some []
    | some [] => true
    | some (c :: rest) => (c == 'T' || c == 't' || c == ' ') && isClock rest
  if recognised then some (.record [("$date", .text (String.ofList cs))]) else none

/-! ## Any of these -/

/-- The value that a whole run of characters spells. -/
def scalar? (cs : List Char) : Option Datum :=
  match cs with
  | ['t', 'r', 'u', 'e'] => some (.bool true)
  | ['f', 'a', 'l', 's', 'e'] => some (.bool false)
  | '0' :: 'x' :: rest => radix? 16 rest
  | '0' :: 'o' :: rest => radix? 8 rest
  | '0' :: 'b' :: rest => radix? 2 rest
  | _ => (special? cs).orElse fun _ => (whole? cs).orElse fun _ =>
    (fractional? cs).orElse fun _ => date? cs

/-- Takes a run of characters and reads it.  After a date one space may stand before the
time. -/
def takeScalar (cs : List Char) : Option (Datum × List Char) :=
  let run := cs.takeWhile isScalarChar
  let rest := cs.dropWhile isScalarChar
  let longer :=
    match rest with
    | ' ' :: more =>
      let clock := more.takeWhile isScalarChar
      if isDay run && isClock clock then
        (date? (run ++ ' ' :: clock)).map fun d => (d, more.dropWhile isScalarChar)
      else none
    | _ => none
  longer.orElse fun _ => (scalar? run).map fun d => (d, rest)

end Milestones.Toml
