import Lisplet.CommandLine.Arguments
import Lisplet.CommandLine.Directory
import Lisplet.CommandLine.FilePath
import Lisplet.Session

/-!
# The command line

Runs the program in a file.  Results and printed lines go to the standard output; the entries of
the journal that are severe enough, and then a fault of the program, go to the standard error.
What is found at a path is a parameter: it may be a file of the system, or one of a directory in
memory (`Directory.read`).
-/

namespace Lisplet.CommandLine

/-- What ends a command without an exit code. -/
inductive Failure where
  /-- A fault that the command does not report itself. -/
  | unreported (fault : Fault)
  /-- A level was asked for, but none was given. -/
  | absentLevel
  /-- No file can have a path with a null character in it. -/
  | nullInPath

def Failure.message : Failure → String
  | unreported fault => fault.message
  | absentLevel => "Level not an integer or a valid string: []"
  | nullInPath => "embedded null byte"

/-- What a command leaves behind: its exit code, or what ended it before, and what it wrote. -/
structure Report where
  exit : Except Failure Nat
  output : String := ""
  errors : String := ""

/-- The texts, each on a line of its own. -/
def asLines (texts : List String) : String := String.join (texts.map (· ++ "\n"))

/-- The lines of the entries that reach a threshold. -/
def journalLines (threshold : Severity) (journal : Array Entry) : List String :=
  (journal.toList.filter fun entry => decide (threshold.weight ≤ entry.severity.weight)).map
    Entry.text

/-- Faults of the program are reported; faults of the surroundings are not. -/
def isReported (fault : Fault) : Bool :=
  match fault.kind with
  | .value | .encoding | .attribute | .overflow => false
  | _ => true

/-- The report of a run that ended in a session. -/
def report (threshold : Severity) (s : Session) (result : Except Fault Unit) : Report :=
  let output := asLines s.machine.output.toList
  let noted := journalLines threshold s.machine.journal
  match result with
  | .ok () => ⟨.ok 0, output, asLines noted⟩
  | .error fault =>
    if isReported fault then ⟨.ok 1, output, asLines (noted ++ ["error: " ++ fault.message])⟩
    else ⟨.error (.unreported fault), output, asLines noted⟩

/-- Runs the program at a path, whose content is what `read` finds there. -/
def runPath (read : String → Except FileFault ByteArray) (settings : Settings)
    (threshold : Severity) (path : String) : Report :=
  let s : Session := { settings := settings }
  let noted := journalLines threshold (s.note (.running path)).machine.journal
  if path.toList.contains '\x00' then ⟨.error .nullInPath, "", asLines noted⟩
  else
    match read path with
    | .error fault => ⟨.ok 1, "", asLines (noted ++ ["error: " ++ fault.message path])⟩
    | .ok bytes =>
      match s.runFile path bytes with
      | (result, s) => report threshold s result

/-- The threshold that was asked for, or else the one that the settings give. -/
def thresholdOf (settings : Settings) : Option Level → Except Failure Severity
  | none => .ok settings.threshold
  | some (.named name) => .ok ((Severity.named? name).getD settings.threshold)
  | some .absent => .error .absentLevel

/-- Runs a command. -/
def run (read : String → Except FileFault ByteArray) (settings : Settings)
    (arguments : List String) : Report :=
  match parseArguments arguments with
  | .error fault => ⟨.ok 2, "", usage ++ "tss: error: " ++ fault.message ++ "\n"⟩
  | .ok .help => ⟨.ok 0, helpText, ""⟩
  | .ok (.run path level) =>
    match thresholdOf settings level with
    | .error failure => ⟨.error failure, "", ""⟩
    | .ok threshold => runPath read settings threshold path

end Lisplet.CommandLine
