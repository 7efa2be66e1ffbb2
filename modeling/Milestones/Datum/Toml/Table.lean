import Milestones.Datum.Basic

/-!
# TOML tables under construction

A TOML text gives the entries of a table in several places, and rules say which of them
may meet.  A table defined by a header is closed to dotted keys, one that came about
through dotted keys is closed to headers, and a value is closed to both.

## Main definitions

* `Node`: a value, a table with the way it came about, or a list of tables.
* `addValue?`: an entry under a dotted key.
* `openTable?`, `openItem?`: what a header does to the tree.
-/

namespace Milestones.Toml

/-- How a table came about. -/
inductive Origin where
  /-- On the way to a table that a header names. -/
  | passing
  /-- Named by a header, or the document itself. -/
  | header
  /-- Through a dotted key. -/
  | dotted
deriving DecidableEq

/-- A part of the document under construction.  The last table of a list is the open one,
and stands first. -/
inductive Node where
  | value (d : Datum)
  | table (origin : Origin) (entries : List (String × Node))
  | tables (items : List (List (String × Node)))

/-- The entries of a table, in the order they came. -/
abbrev Entries := List (String × Node)

mutual
/-- A finished part as data. -/
def Node.datum : Node → Datum
  | .value d => d
  | .table _ entries => .record (entriesData entries)
  | .tables items => .list (itemsData items).reverse

/-- Finished entries as data. -/
def entriesData : List (String × Node) → List (String × Datum)
  | [] => []
  | (name, node) :: rest => (name, node.datum) :: entriesData rest

/-- The tables of a list as data. -/
def itemsData : List (List (String × Node)) → List Datum
  | [] => []
  | entries :: rest => .record (entriesData entries) :: itemsData rest
end

/-- Changes one entry, or adds it at the end. -/
def alterKey? (name : String) (change : Option Node → Option Node) : Entries → Option Entries
  | [] => (change none).map fun node => [(name, node)]
  | (key, node) :: rest =>
    if key = name then (change (some node)).map fun node => (key, node) :: rest
    else (alterKey? name change rest).map ((key, node) :: ·)

/-! ## Dotted keys -/

/-- Adds a value under a dotted key.  The table that takes the value came about through a
dotted key too.  The way to it may cross tables that headers passed, and the open table of
a list. -/
def addValue? (path : List String) (d : Datum) (entries : Entries) : Option Entries :=
  match path with
  | [] => none
  | [name] =>
    alterKey? name (fun | none => some (.value d) | some _ => none) entries
  | name :: more =>
    alterKey? name
      (fun
        | none => (addValue? more d []).map (.table .dotted)
        | some (.table .dotted inner) => (addValue? more d inner).map (.table .dotted)
        | some (.table .passing inner) =>
          if more.length = 1 then none else (addValue? more d inner).map (.table .passing)
        | some (.tables (inner :: rest)) =>
          if more.length = 1 then none
          else (addValue? more d inner).map fun inner => .tables (inner :: rest)
        | some _ => none)
      entries

/-! ## Headers -/

/-- Applies a change to the entries of the table at a path of headers: missing tables on
the way are made, and a list of tables is entered at its open table. -/
def within? (change : Entries → Option Entries) : List String → Entries → Option Entries
  | [], entries => change entries
  | name :: more, entries =>
    alterKey? name
      (fun
        | none => (within? change more []).map (.table .passing)
        | some (.table origin inner) => (within? change more inner).map (.table origin)
        | some (.tables (inner :: rest)) =>
          (within? change more inner).map fun inner => .tables (inner :: rest)
        | some _ => none)
      entries

/-- Opens the table that a header names: a new one, or one that so far was only passed. -/
def openTable? (name : String) (entries : Entries) : Option Entries :=
  alterKey? name
    (fun
      | none => some (.table .header [])
      | some (.table .passing inner) => some (.table .header inner)
      | some _ => none)
    entries

/-- Opens a further table of a list of tables. -/
def openItem? (name : String) (entries : Entries) : Option Entries :=
  alterKey? name
    (fun
      | none => some (.tables [[]])
      | some (.tables items) => some (.tables ([] :: items))
      | some _ => none)
    entries

end Milestones.Toml
