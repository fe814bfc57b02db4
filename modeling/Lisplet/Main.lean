import Lisplet.CommandLine

/-!
# The program

Connects the command line to the surroundings: arguments, settings, files and the two standard
streams.
-/

namespace Lisplet.CommandLine

/-- Why a file cannot be read, by the error that reading it gave.  The code 21, under either sign,
says that it is a directory, and the code 36 that its name is too long. -/
def fileFault : IO.Error → FileFault
  | .inappropriateType _ code _ =>
    if code = 21 ∨ code + 21 = 0 then .isDirectory else .notDirectory
  | .invalidArgument _ code _ => if code = 36 ∨ code + 36 = 0 then .nameTooLong else .missing
  | _ => .missing

/-- The content of the file at a path. -/
def readFile (path : String) : IO (Except FileFault ByteArray) := do
  try
    let bytes ← IO.FS.readBinFile (FilePath.ofString path).text
    pure (.ok bytes)
  catch e => pure (.error (fileFault e))

/-- The content of the file that a command line asks for. -/
def readArgument (arguments : List String) : IO (Except FileFault ByteArray) :=
  match parseArguments arguments with
  | .ok (.run path _) => readFile path
  | _ => pure (.error .missing)

end Lisplet.CommandLine

open Lisplet in
/-- Runs the command and returns its exit code. -/
def main (arguments : List String) : IO UInt32 := do
  let settings : Settings := ⟨← IO.getEnv "TSS_RECURSION_LIMIT", ← IO.getEnv "TSS_LOG_LEVEL"⟩
  let found ← CommandLine.readArgument arguments
  let report := CommandLine.run (fun _ => found) settings arguments
  IO.print report.output
  IO.eprint report.errors
  match report.exit with
  | .ok code => pure (UInt32.ofNat code)
  | .error failure =>
    IO.eprintln failure.message
    pure 1
