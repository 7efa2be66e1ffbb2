import Milestones.CommandLine.Answer
import Std.Time.DateTime.Timestamp

/-!
# The program

Reads files and the clock, and prints the answer to its arguments.
-/

namespace Milestones.CommandLine

/-- The reason why a file cannot be read. -/
def readFailure : IO.Error → FileError
  | .noFileOrDirectory .. => .notFound
  | .permissionDenied .. => .permissionDenied
  | .inappropriateType (some _) .. => .notDirectory
  | .inappropriateType none .. => .isDirectory
  | .invalidArgument .. => .nameTooLong
  | e => .other (toString e)

/-- The present time. -/
def currentInstant : IO Instant := do
  let now ← Std.Time.Timestamp.now
  pure ((Instant.ofUnixNanos? now.toNanosecondsSinceUnixEpoch.val).getD .epoch)

/-- The files that some arguments name, as far as they can be read. -/
def readFiles (args : List String) : IO Files := do
  let contents ← (pathsOf args).mapM fun (path : String) => do
    let content ← (IO.FS.readFile path).toBaseIO
    pure (path, content.mapError readFailure)
  pure fun path => (contents.lookup path).getD (.error .notFound)

end Milestones.CommandLine

open Milestones.CommandLine in
/-- Answers the arguments of the command line. -/
def main (args : List String) : IO UInt32 := do
  let answer := Answer.ofArgs (← readFiles args) (← currentInstant) args
  IO.print answer.output
  IO.eprint answer.errors
  pure answer.exitCode.toUInt32
