import Typecase.Report.Basic

/-!
# The program

Reading access to the files of the running system, and the entry point: the arguments go to
`Report.run`, and its outcome is printed. Notices go to the error output, the more of them the
more verbosity was asked for.
-/

namespace Typecase

/-- The cause behind a failed system call. -/
def FileError.ofSystem : IO.Error → FileError
  | .noFileOrDirectory .. => .notFound
  | .inappropriateType _ 20 _ => .notADirectory
  | .inappropriateType _ 21 _ => .isADirectory
  | e => .other (toString e)

/-- Runs a system call and gives its failure as a value. -/
def attempt {α : Type} (action : IO α) : IO (Except FileError α) := do
  match ← action.toBaseIO with
  | .ok a => return .ok a
  | .error e => return .error (.ofSystem e)

/-- The bytes of a file. -/
def readBytes (path : String) : IO Bytes := do
  return (← IO.FS.readBinFile path).data

/-- The names of the files in a directory, subdirectories left out. -/
def readNames (path : String) : IO (List String) := do
  let mut names := []
  for item in ← (← IO.FS.realPath path).readDir do
    match ← item.path.metadata.toBaseIO with
    | .ok found => if found.type == .file then names := item.fileName :: names
    | .error _ => pure ()
  return names

/-- Reading access to the files of the running system. -/
def systemReader : Reader IO where
  text path := do
    match ← attempt (readBytes path) with
    | .ok data => return FileTree.textOf (.bytes data)
    | .error e => return .error e
  font path := return (← attempt (readBytes path)).map .bytes
  files path := attempt (readNames path)

/-- The least severe level to print at a verbosity. -/
def Level.ofVerbosity (n : Nat) : Level :=
  if n < 2 then .warn else if n = 2 then .debug else .trace

/-- The verbosity that a command asks for. -/
def Report.Command.verbosity : Report.Command → Nat
  | .report options => options.verbosity
  | _ => 0

end Typecase

open Typecase in
/-- Runs the program. -/
def main (arguments : List String) : IO UInt32 := do
  let command := Report.Command.parse arguments
  let outcome ← Report.perform systemReader command
  let output ← IO.getStdout
  let errors ← IO.getStderr
  for notice in outcome.notices do
    if notice.level.rank ≤ (Level.ofVerbosity command.verbosity).rank then
      errors.putStrLn (notice.level.label ++ ": " ++ notice.message)
  output.putStr outcome.stdout
  errors.putStr outcome.stderr
  return outcome.exitCode.toUInt32
