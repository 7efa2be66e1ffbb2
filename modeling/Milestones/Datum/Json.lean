import Milestones.Datum.Basic
import Milestones.Decimal.Reading
import Milestones.Decimal.Text

/-!
# JSON

Reading and writing structured data as JSON text.

A number without fraction and exponent is whole as long as it fits a 64-bit word, signed
or not; every other number is a double, in the quick reading.  Negative zero is a double in
any spelling.  Lists and records within 127 others are well formed but cannot be read.

## Main definitions

* `Datum.ofJson?`: reads a JSON text.
* `Datum.toJson`, `Datum.toPrettyJson`: one line, or indented by two spaces.
-/

namespace Milestones

namespace Json

/-! ## Numbers -/

/-- The double with a sign. -/
def signedFloat (negative : Bool) (digits : Nat) (exponent : Int) : Datum :=
  let x := scaledFloat digits exponent
  if x.isFinite then .float (if negative then -x else x) else .unreadable

/-- The value of a number below `2 ^ 64` without fraction and exponent. -/
def wholeNumber (negative : Bool) (n : Nat) : Datum :=
  if !negative then .int n
  else if n ≠ 0 ∧ n ≤ Nat.pow 2 63 then .int (-n)
  else signedFloat true n 0

/-- Takes the digits before the point: a zero alone, or digits that start with another. -/
def takeWhole : List Char → Option (List Char × List Char)
  | '0' :: rest => if rest.head?.any isDigit then none else some (['0'], rest)
  | cs =>
    let ds := cs.takeWhile isDigit
    if ds.isEmpty then none else some (ds, cs.dropWhile isDigit)

/-- Takes the exponent of a number, if there is one. -/
def takeExponent : List Char → Option (Option Int × List Char)
  | c :: rest =>
    if c = 'e' ∨ c = 'E' then
      match rest with
      | '+' :: rest => (takeNumber rest).map fun (n, rest) => (some (n : Int), rest)
      | '-' :: rest => (takeNumber rest).map fun (n, rest) => (some (-(n : Int)), rest)
      | rest => (takeNumber rest).map fun (n, rest) => (some (n : Int), rest)
    else some (none, c :: rest)
  | [] => some (none, [])

/-- Takes a number after its sign.  Digits that do not fit a 64-bit word count as zeros. -/
def takeMagnitude (negative : Bool) (cs : List Char) : Option (Datum × List Char) := do
  let (ds, cs) ← takeWhole cs
  let (whole, taken) := appendDigits 0 ds
  let dropped : Int := ds.length - taken
  match cs with
  | '.' :: rest =>
    let places := rest.takeWhile isDigit
    if places.isEmpty then none
    else
      let (exponent, cs) ← takeExponent (rest.dropWhile isDigit)
      let (digits, taken) := appendDigits whole places
      some (signedFloat negative digits (exponent.getD 0 + dropped - taken), cs)
  | _ =>
    match ← takeExponent cs with
    | (some e, cs) => some (signedFloat negative whole (e + dropped), cs)
    | (none, cs) =>
      if dropped = 0 then some (wholeNumber negative whole, cs)
      else some (signedFloat negative whole dropped, cs)

/-- Takes a number. -/
def takeNumeral : List Char → Option (Datum × List Char)
  | '-' :: rest => takeMagnitude true rest
  | cs => takeMagnitude false cs

/-! ## Strings -/

/-- The value of four hexadecimal digits. -/
def hexUnit? (a b c d : Char) : Option Nat :=
  let value? (c : Char) : Option Nat :=
    if '0' ≤ c ∧ c ≤ '9' then some (c.toNat - 48)
    else if 'a' ≤ c ∧ c ≤ 'f' then some (c.toNat - 87)
    else if 'A' ≤ c ∧ c ≤ 'F' then some (c.toNat - 55)
    else none
  do some (4096 * (← value? a) + 256 * (← value? b) + 16 * (← value? c) + (← value? d))

/-- What a one-letter escape stands for. -/
def escaped? : Char → Option Char
  | '"' => some '"'
  | '\\' => some '\\'
  | '/' => some '/'
  | 'b' => some '\x08'
  | 'f' => some '\x0c'
  | 'n' => some '\n'
  | 'r' => some '\r'
  | 't' => some '\t'
  | _ => none

/-- The unit is the first half of a surrogate pair. -/
def isHighSurrogate (n : Nat) : Bool := 0xD800 ≤ n && n < 0xDC00

/-- The unit is the second half of a surrogate pair. -/
def isLowSurrogate (n : Nat) : Bool := 0xDC00 ≤ n && n < 0xE000

/-- Takes a string after its opening quote.  Half a surrogate pair leaves the text without
a value, which the flag reports. -/
def takeString : List Char → Option (List Char × Bool × List Char)
  | [] => none
  | '"' :: rest => some ([], true, rest)
  | '\\' :: 'u' :: a :: b :: c :: d :: '\\' :: 'u' :: e :: f :: g :: h :: rest => do
    let high ← hexUnit? a b c d
    let low ← hexUnit? e f g h
    if isHighSurrogate high && isLowSurrogate low then
      let (s, whole, rest) ← takeString rest
      some (Char.ofNat (0x10000 + (high - 0xD800) * 0x400 + (low - 0xDC00)) :: s, whole, rest)
    else
      let (s, whole, rest) ← takeString ('\\' :: 'u' :: e :: f :: g :: h :: rest)
      some (Char.ofNat high :: s,
        whole && !(isHighSurrogate high || isLowSurrogate high), rest)
  | '\\' :: 'u' :: a :: b :: c :: d :: rest => do
    let unit ← hexUnit? a b c d
    let (s, whole, rest) ← takeString rest
    some (Char.ofNat unit :: s, whole && !(isHighSurrogate unit || isLowSurrogate unit), rest)
  | '\\' :: c :: rest => do
    let c ← escaped? c
    let (s, whole, rest) ← takeString rest
    some (c :: s, whole, rest)
  | c :: rest =>
    if c.toNat < 0x20 then none
    else do
      let (s, whole, rest) ← takeString rest
      some (c :: s, whole, rest)
termination_by cs => cs.length

/-! ## Values -/

/-- The character may stand between tokens. -/
def isSpace (c : Char) : Bool := c == ' ' || c == '\n' || c == '\r' || c == '\t'

/-- The text after its leading spaces. -/
def skip (cs : List Char) : List Char := cs.dropWhile isSpace

/-- Takes a name with its colon, as a field starts.  There is no name where the text between
the quotes has no value. -/
def takeFieldName (cs : List Char) : Option (Option String × List Char) :=
  match cs with
  | '"' :: rest => do
    let (name, whole, rest) ← takeString rest
    match skip rest with
    | ':' :: rest => some (if whole then some (String.ofList name) else none, skip rest)
    | _ => none
  | _ => none

/-- A record of fields, of which every one needs a name. -/
def recordOf (fields : List (Option String × Datum)) : Datum :=
  match fields.mapM fun (name?, d) => name?.map (·, d) with
  | some fields => .record fields
  | none => .unreadable

/-- How many lists and records may stand within each other. -/
def nestingLimit : Nat := 127

/-- A list or record that was taken, which is out of reach where no level is left for it. -/
def ifRoom (room : Nat) (d : Datum) : Datum := if room = 0 then .unreadable else d

mutual
/-- Takes a value that starts at the first character.  `room` is the number of levels left.
Every step takes at least one character, so the length of the text is fuel enough. -/
def takeValue (room : Nat) : (fuel : Nat) → List Char → Option (Datum × List Char)
  | 0, _ => none
  | fuel + 1, cs =>
    match cs with
    | 'n' :: 'u' :: 'l' :: 'l' :: rest => some (.null, rest)
    | 't' :: 'r' :: 'u' :: 'e' :: rest => some (.bool true, rest)
    | 'f' :: 'a' :: 'l' :: 's' :: 'e' :: rest => some (.bool false, rest)
    | '"' :: rest => do
      let (s, whole, rest) ← takeString rest
      some (if whole then .text (String.ofList s) else .unreadable, rest)
    | '[' :: rest =>
      match skip rest with
      | ']' :: rest => some (ifRoom room (.list []), rest)
      | rest => do
        let (items, rest) ← takeItems (room - 1) fuel rest
        some (ifRoom room (.list items), rest)
    | '{' :: rest =>
      match skip rest with
      | '}' :: rest => some (ifRoom room (.record []), rest)
      | rest => do
        let (fields, rest) ← takeFields (room - 1) fuel rest
        some (ifRoom room (recordOf fields), rest)
    | _ => takeNumeral cs

/-- Takes the items of a list up to its closing bracket. -/
def takeItems (room : Nat) : (fuel : Nat) → List Char → Option (List Datum × List Char)
  | 0, _ => none
  | fuel + 1, cs => do
    let (item, rest) ← takeValue room fuel cs
    match skip rest with
    | ',' :: rest =>
      let (items, rest) ← takeItems room fuel (skip rest)
      some (item :: items, rest)
    | ']' :: rest => some ([item], rest)
    | _ => none

/-- Takes the fields of a record up to its closing brace. -/
def takeFields (room : Nat) :
    (fuel : Nat) → List Char → Option (List (Option String × Datum) × List Char)
  | 0, _ => none
  | fuel + 1, cs => do
    let (name, rest) ← takeFieldName cs
    let (value, rest) ← takeValue room fuel rest
    match skip rest with
    | ',' :: rest =>
      let (fields, rest) ← takeFields room fuel (skip rest)
      some ((name, value) :: fields, rest)
    | '}' :: rest => some ([(name, value)], rest)
    | _ => none
end

/-- Reads a JSON text: one value with spaces around it. -/
def read? (cs : List Char) : Option Datum := do
  let (value, rest) ← takeValue nestingLimit (cs.length + 1) (skip cs)
  if (skip rest).isEmpty then some value else none

/-! ## Writing -/

/-- The escape of a character inside a string, where it needs one. -/
def escapeChar (c : Char) : List Char :=
  match c with
  | '"' => ['\\', '"']
  | '\\' => ['\\', '\\']
  | '\x08' => ['\\', 'b']
  | '\x0c' => ['\\', 'f']
  | '\n' => ['\\', 'n']
  | '\r' => ['\\', 'r']
  | '\t' => ['\\', 't']
  | c =>
    if c.toNat < 0x20 then
      ['\\', 'u', '0', '0', Nat.digitChar (c.toNat / 16), Nat.digitChar (c.toNat % 16)]
    else [c]

/-- A string with its quotes. -/
def quoted (s : String) : String :=
  String.ofList ('"' :: s.toList.flatMap escapeChar ++ ['"'])

/-- A number; those that are not finite have no JSON form and are written as null. -/
def numeral (x : Float) : String := if x.isFinite then structuredNumber x else "null"

/-- A line break with two spaces for every level. -/
def indent (level : Nat) : String := "\n" ++ String.ofList (List.replicate (2 * level) ' ')

mutual
/-- A value on one line. -/
def compact : Datum → String
  | .null => "null"
  | .bool b => if b then "true" else "false"
  | .int n => String.ofList (signedChars n)
  | .float x => numeral x
  | .text s => quoted s
  | .list items => "[" ++ compactItems true items ++ "]"
  | .record fields => "\x7b" ++ compactFields true fields ++ "\x7d"
  | .unreadable => "null"

/-- Items with commas between them. -/
def compactItems (first : Bool) : List Datum → String
  | [] => ""
  | d :: rest => (if first then "" else ",") ++ compact d ++ compactItems false rest

/-- Fields with commas between them. -/
def compactFields (first : Bool) : List (String × Datum) → String
  | [] => ""
  | (name, d) :: rest =>
    (if first then "" else ",") ++ quoted name ++ ":" ++ compact d ++ compactFields false rest
end

mutual
/-- A value with one item or field a line. -/
def pretty (level : Nat) : Datum → String
  | .list [] => "[]"
  | .list items => "[" ++ prettyItems (level + 1) true items ++ indent level ++ "]"
  | .record [] => "\x7b\x7d"
  | .record fields =>
    "\x7b" ++ prettyFields (level + 1) true fields ++ indent level ++ "\x7d"
  | .null => "null"
  | .bool b => if b then "true" else "false"
  | .int n => String.ofList (signedChars n)
  | .float x => numeral x
  | .text s => quoted s
  | .unreadable => "null"

/-- Items, one a line. -/
def prettyItems (level : Nat) (first : Bool) : List Datum → String
  | [] => ""
  | d :: rest =>
    (if first then "" else ",") ++ indent level ++ pretty level d ++
      prettyItems level false rest

/-- Fields, one a line. -/
def prettyFields (level : Nat) (first : Bool) : List (String × Datum) → String
  | [] => ""
  | (name, d) :: rest =>
    (if first then "" else ",") ++ indent level ++ quoted name ++ ": " ++ pretty level d ++
      prettyFields level false rest
end

end Json

namespace Datum

/-- Reads a JSON text. -/
def ofJson? (s : String) : Option Datum := Json.read? s.toList

/-- The JSON text on one line. -/
def toJson (d : Datum) : String := Json.compact d

/-- The JSON text with one item or field a line. -/
def toPrettyJson (d : Datum) : String := Json.pretty 0 d

end Datum

end Milestones
