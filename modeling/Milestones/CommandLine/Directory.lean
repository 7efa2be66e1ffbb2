/-!
# Files by path

The command line names files by paths.  What it reads is a parameter: any function from
paths to texts will do, and one is given here for the files of a tree of directories.
A path that starts with a slash is looked up from the top of the tree, any other one from
the current directory.  There are no links and no permissions: what the tree holds can be
read.

## Main definitions

* `FileError`: why a file cannot be read.
* `Files`: text files by path.
* `FileTree`: text files in directories.
* `FileTree.follow`: looks a path up, part by part.
* `Files.ofTree`: the files of a tree, by path.
-/

namespace Milestones.CommandLine

/-- Why a file cannot be read. -/
inductive FileError where
  | notFound
  | permissionDenied
  /-- The path goes on after a file. -/
  | notDirectory
  | isDirectory
  | nameTooLong
  | other (reason : String)
deriving DecidableEq

/-- The reason in words. -/
def FileError.message : FileError → String
  | notFound => "No such file or directory (os error 2)"
  | permissionDenied => "Permission denied (os error 13)"
  | notDirectory => "Not a directory (os error 20)"
  | isDirectory => "Is a directory (os error 21)"
  | nameTooLong => "File name too long (os error 36)"
  | other reason => reason

/-- Text files by path. -/
abbrev Files := String → Except FileError String

/-- A place in a tree of directories: the names that lead there from the top. -/
abbrev Place := List String

/-- Text files in directories. -/
structure FileTree where
  files : List (Place × String)
  /-- Directories that may hold no file. -/
  directories : List Place := []
  /-- Where relative paths start. -/
  current : Place := []

namespace FileTree

/-- The directories of a tree are those listed, the current one, those of its files, and all
that lie above one of these. -/
def isDirectory (t : FileTree) (place : Place) : Bool :=
  (t.current :: t.directories ++ t.files.map fun file => file.1.dropLast).any
    place.isPrefixOf

/-- A name has at most 255 bytes. -/
def longestName : Nat := 255

/-- Looks a path up, part by part, from a directory.  The directory above the top is the top
itself.  A name is measured where it is looked up, so a path that ends earlier is refused for
the earlier reason. -/
def follow (t : FileTree) (place : Place) : List String → Except FileError String
  | [] => .error .isDirectory
  | part :: rest =>
    if part = "" ∨ part = "." then t.follow place rest
    else if part = ".." then t.follow place.dropLast rest
    else if longestName < part.utf8ByteSize then .error .nameTooLong
    else
      match t.files.lookup (place ++ [part]) with
      | some content => if rest.isEmpty then .ok content else .error .notDirectory
      | none =>
        if t.isDirectory (place ++ [part]) then t.follow (place ++ [part]) rest
        else .error .notFound

end FileTree

namespace Files

/-- The parts of a path between its slashes. -/
def parts : List Char → List (List Char)
  | [] => [[]]
  | c :: rest =>
    if c = '/' then [] :: parts rest
    else
      match parts rest with
      | [] => [[c]]
      | first :: more => (c :: first) :: more

/-- A path has at most 4095 bytes. -/
def longestPath : Nat := 4095

/-- The files of a tree, by path.  The length of a path is checked before any part of it, and
the empty path names nothing. -/
def ofTree (t : FileTree) : Files := fun path =>
  if path.isEmpty then .error .notFound
  else if longestPath < path.utf8ByteSize then .error .nameTooLong
  else
    t.follow (if path.startsWith "/" then [] else t.current)
      ((parts path.toList).map String.ofList)

end Files

end Milestones.CommandLine
