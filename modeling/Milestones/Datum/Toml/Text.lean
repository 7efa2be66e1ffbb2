import Milestones.Datum.Json

/-!
# TOML strings, keys and spaces

The smallest parts of a TOML text.  Every function takes what it names from the start of
the text and returns the rest.

## Main definitions

* `takeQuoted`: a string in any of the four notations.
* `takeKey`: a key, bare or quoted, with dots between its parts.
* `skipBlank`, `skipLines`: spaces within a line, and across lines with comments.
-/

namespace Milestones.Toml

/-! ## Spaces -/

/-- The text after spaces and tabs. -/
def skipBlank (cs : List Char) : List Char := cs.dropWhile fun c => c == ' ' || c == '\t'

/-- A control character that may not stand in a string or comment. -/
def isControl (c : Char) : Bool := (c.toNat < 0x20 && c != '\t') || c.toNat == 0x7F

/-- The text after an optional comment, which ends before a control character. -/
def skipComment : List Char → List Char
  | '#' :: rest => rest.dropWhile fun c => !isControl c
  | cs => cs

/-- Takes a line break in either spelling. -/
def takeBreak : List Char → Option (List Char)
  | '\n' :: rest => some rest
  | '\r' :: '\n' :: rest => some rest
  | _ => none

/-- The text after blanks, comments and line breaks.  The fuel is the length of the text;
every line takes at least its break. -/
def skipLinesFrom : (fuel : Nat) → List Char → List Char
  | 0, cs => cs
  | fuel + 1, cs =>
    let rest := skipComment (skipBlank cs)
    match takeBreak rest with
    | some rest => skipLinesFrom fuel rest
    | none => rest

/-- The text after blanks, comments and line breaks. -/
def skipLines (cs : List Char) : List Char := skipLinesFrom cs.length cs

/-! ## Strings -/

/-- The character with a code of the given digits, if it is a character. -/
def codeChar? (digits : List Char) : Option Char := do
  let values ← digits.mapM fun c =>
    if '0' ≤ c ∧ c ≤ '9' then some (c.toNat - 48)
    else if 'a' ≤ c ∧ c ≤ 'f' then some (c.toNat - 87)
    else if 'A' ≤ c ∧ c ≤ 'F' then some (c.toNat - 55)
    else none
  let n := values.foldl (fun n d => 16 * n + d) 0
  if n.isValidChar then some (Char.ofNat n) else none

/-- What a one-letter escape stands for. -/
def escaped? : Char → Option Char
  | '"' => some '"'
  | '\\' => some '\\'
  | 'b' => some '\x08'
  | 'f' => some '\x0c'
  | 'n' => some '\n'
  | 'r' => some '\r'
  | 't' => some '\t'
  | _ => none

/-- Takes an escape after its backslash. -/
def takeEscape : List Char → Option (Char × List Char)
  | 'u' :: rest =>
    if rest.length < 4 then none else (codeChar? (rest.take 4)).map fun c => (c, rest.drop 4)
  | 'U' :: rest =>
    if rest.length < 8 then none else (codeChar? (rest.take 8)).map fun c => (c, rest.drop 8)
  | c :: rest => (escaped? c).map fun c => (c, rest)
  | [] => none

/-- Takes a string of one line with escapes, after its opening quote. -/
def takeBasic : (fuel : Nat) → List Char → Option (List Char × List Char)
  | 0, _ => none
  | fuel + 1, cs =>
    match cs with
    | [] => none
    | '"' :: rest => some ([], rest)
    | '\\' :: rest => do
      let (c, rest) ← takeEscape rest
      let (s, rest) ← takeBasic fuel rest
      some (c :: s, rest)
    | c :: rest =>
      if isControl c then none
      else do
        let (s, rest) ← takeBasic fuel rest
        some (c :: s, rest)

/-- Takes a string of one line without escapes, after its opening quote. -/
def takeLiteral : List Char → Option (List Char × List Char)
  | [] => none
  | c :: rest =>
    if c = '\'' then some ([], rest)
    else if isControl c then none
    else (takeLiteral rest).map fun (s, rest) => (c :: s, rest)

/-- Takes the end of a string of many lines: three quotes, before which one or two more may
belong to the string. -/
def takeClosing (quote : Char) (cs : List Char) : Option (List Char × List Char) :=
  let run := (cs.take 5).takeWhile (· == quote)
  if run.length < 3 then none else some (run.drop 3, cs.drop run.length)

/-- The text after blanks and line breaks.  The fuel is the length of the text. -/
def skipBreaks : (fuel : Nat) → List Char → List Char
  | 0, cs => cs
  | fuel + 1, cs =>
    match takeBreak (skipBlank cs) with
    | some rest => skipBreaks fuel rest
    | none => skipBlank cs

/-- The text after a backslash at the end of a line: blanks and line breaks are dropped, of
which there has to be one. -/
def skipContinuation (cs : List Char) : Option (List Char) :=
  (takeBreak (skipBlank cs)).map fun rest => skipBreaks rest.length rest

/-- Takes a string of many lines, after its opening quotes. -/
def takeLong (quote : Char) (escapes : Bool) :
    (fuel : Nat) → List Char → Option (List Char × List Char)
  | 0, _ => none
  | fuel + 1, cs =>
    match takeClosing quote cs with
    | some (s, rest) => some (s, rest)
    | none =>
      match takeBreak cs with
      | some rest => (takeLong quote escapes fuel rest).map fun (s, rest) => ('\n' :: s, rest)
      | none =>
        match cs with
        | [] => none
        | c :: rest =>
          if c = '\\' ∧ escapes then
            match skipContinuation rest with
            | some rest => takeLong quote escapes fuel rest
            | none => do
              let (c, rest) ← takeEscape rest
              let (s, rest) ← takeLong quote escapes fuel rest
              some (c :: s, rest)
          else if isControl c then none
          else (takeLong quote escapes fuel rest).map fun (s, rest) => (c :: s, rest)

/-- The text after a line break that directly follows opening quotes. -/
def skipFirstBreak (cs : List Char) : List Char := (takeBreak cs).getD cs

/-- Takes a string in any notation. -/
def takeQuoted (cs : List Char) : Option (String × List Char) :=
  let fuel := cs.length
  let taken :=
    match cs with
    | '"' :: '"' :: '"' :: rest => takeLong '"' true fuel (skipFirstBreak rest)
    | '\'' :: '\'' :: '\'' :: rest => takeLong '\'' false fuel (skipFirstBreak rest)
    | '"' :: rest => takeBasic fuel rest
    | '\'' :: rest => takeLiteral rest
    | _ => none
  taken.map fun (s, rest) => (String.ofList s, rest)

/-! ## Keys -/

/-- The character may stand in a key without quotes. -/
def isBare (c : Char) : Bool :=
  ('A' ≤ c && c ≤ 'Z') || ('a' ≤ c && c ≤ 'z') || isDigit c || c == '_' || c == '-'

/-- Takes one part of a key. -/
def takeKeyPart (cs : List Char) : Option (String × List Char) :=
  match cs with
  | '"' :: rest => (takeBasic cs.length rest).map fun (s, rest) => (String.ofList s, rest)
  | '\'' :: rest => (takeLiteral rest).map fun (s, rest) => (String.ofList s, rest)
  | _ =>
    let bare := cs.takeWhile isBare
    if bare.isEmpty then none else some (String.ofList bare, cs.dropWhile isBare)

/-- Takes a key: parts with dots between them, and blanks around the dots. -/
def takeKeyFrom : (fuel : Nat) → List Char → Option (List String × List Char)
  | 0, _ => none
  | fuel + 1, cs => do
    let (part, rest) ← takeKeyPart (skipBlank cs)
    match skipBlank rest with
    | '.' :: rest =>
      let (parts, rest) ← takeKeyFrom fuel rest
      some (part :: parts, rest)
    | rest => some ([part], rest)

/-- How many lists and tables in braces may stand within each other, and how many parts a key
may have. -/
def nestingLimit : Nat := 79

/-- Takes a key with the blanks around it. -/
def takeKey (cs : List Char) : Option (List String × List Char) := do
  let (parts, rest) ← takeKeyFrom cs.length cs
  if parts.length ≤ nestingLimit then some (parts, rest) else none

end Milestones.Toml
