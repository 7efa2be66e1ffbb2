import Milestones.Datum.Toml.Scalar
import Milestones.Datum.Toml.Table

/-!
# TOML documents

A document is a sequence of lines: entries, headers of tables, headers of items in a list
of tables.  The lines are read first and then put together.

## Main definitions

* `Line`: an entry or a header.
* `takeValue`: a value of any kind.
* `Datum.ofToml?`: reads a TOML text.
-/

namespace Milestones.Toml

mutual
/-- Takes a value.  Lists and tables in braces stand within each other at most `room` deep. -/
def takeValue (room : Nat) : (fuel : Nat) → List Char → Option (Datum × List Char)
  | 0, _ => none
  | fuel + 1, cs =>
    match cs with
    | '"' :: _ => (takeQuoted cs).map fun (s, rest) => (.text s, rest)
    | '\'' :: _ => (takeQuoted cs).map fun (s, rest) => (.text s, rest)
    | '[' :: rest =>
      if room = 0 then none
      else (takeItems (room - 1) fuel (skipLines rest)).map fun (ds, rest) => (.list ds, rest)
    | '{' :: rest =>
      if room = 0 then none
      else
        match skipBlank rest with
        | '}' :: rest => some (.record [], rest)
        | rest =>
          (takeInline (room - 1) fuel [] rest).map fun (entries, rest) =>
            (.record (entriesData entries), rest)
    | _ => takeScalar cs

/-- Takes the items of a list up to its closing bracket; a comma may follow the last. -/
def takeItems (room : Nat) : (fuel : Nat) → List Char → Option (List Datum × List Char)
  | 0, _ => none
  | fuel + 1, cs =>
    match cs with
    | ']' :: rest => some ([], rest)
    | _ => do
      let (d, rest) ← takeValue room fuel cs
      match skipLines rest with
      | ',' :: rest =>
        let (ds, rest) ← takeItems room fuel (skipLines rest)
        some (d :: ds, rest)
      | ']' :: rest => some ([d], rest)
      | _ => none

/-- Takes the entries of a table in braces, which stay on one line. -/
def takeInline (room : Nat) :
    (fuel : Nat) → Entries → List Char → Option (Entries × List Char)
  | 0, _, _ => none
  | fuel + 1, entries, cs => do
    let (path, rest) ← takeKey cs
    match rest with
    | '=' :: rest =>
      let (d, rest) ← takeValue room fuel (skipBlank rest)
      let entries ← addValue? path d entries
      match skipBlank rest with
      | ',' :: rest => takeInline room fuel entries rest
      | '}' :: rest => some (entries, rest)
      | _ => none
    | _ => none
end

/-- A line of a document. -/
inductive Line where
  | entry (path : List String) (d : Datum)
  | table (path : List String)
  | item (path : List String)

/-- Takes the line at the start of a text, which is neither blank nor a comment. -/
def takeLine (cs : List Char) : Option (Line × List Char) :=
  match cs with
  | '[' :: '[' :: rest => do
    let (path, rest) ← takeKey rest
    match rest with
    | ']' :: ']' :: rest => some (.item path, rest)
    | _ => none
  | '[' :: rest => do
    let (path, rest) ← takeKey rest
    match rest with
    | ']' :: rest => some (.table path, rest)
    | _ => none
  | _ => do
    let (path, rest) ← takeKey cs
    match rest with
    | '=' :: rest =>
      let (d, rest) ← takeValue nestingLimit (rest.length + 1) (skipBlank rest)
      some (.entry path d, rest)
    | _ => none

/-- Reads the lines of a document.  Only blanks and a comment may follow on a line. -/
def lines? : (fuel : Nat) → List Char → Option (List Line)
  | 0, _ => none
  | fuel + 1, cs =>
    match skipLines cs with
    | [] => some []
    | cs => do
      let (line, rest) ← takeLine cs
      match skipComment (skipBlank rest) with
      | [] => some [line]
      | rest =>
        let rest ← takeBreak rest
        let lines ← lines? fuel rest
        some (line :: lines)

/-- Puts a line in its place.  `current` is the path of the open table. -/
def place? (current : List String) (root : Entries) : Line → Option (List String × Entries)
  | .entry path d => (within? (addValue? path d) current root).map (current, ·)
  | .table path =>
    match path.getLast? with
    | none => none
    | some name => (within? (openTable? name) path.dropLast root).map (path, ·)
  | .item path =>
    match path.getLast? with
    | none => none
    | some name => (within? (openItem? name) path.dropLast root).map (path, ·)

/-- Puts the lines of a document together. -/
def assemble? (lines : List Line) : Option Entries :=
  (lines.foldlM (fun (current, root) line => place? current root line) ([], [])).map Prod.snd

/-- The text without a byte order mark. -/
def dropMark : List Char → List Char
  | '\uFEFF' :: rest => rest
  | cs => cs

end Milestones.Toml

namespace Milestones

/-- Reads a TOML text. -/
def Datum.ofToml? (s : String) : Option Datum := do
  let cs := Toml.dropMark s.toList
  let lines ← Toml.lines? (cs.length + 1) cs
  let entries ← Toml.assemble? lines
  some (.record (Toml.entriesData entries))

end Milestones
