import Lisplet.Value

/-!
# The journal

What an interpreter notes down about its own work.  Each entry has a severity, and a line of text
that names the part of the interpreter which made it.
-/

namespace Lisplet

/-- An entry of the journal. -/
inductive Entry where
  | running (path : String)
  | scanning (line : Nat) (row : List Char)
  | evaluating (tree : Tree)
  | calling (closure : Closure Value) (arguments : Nat)
  | bound (name : String) (isLocal : Bool)

/-- How much an entry or a threshold weighs. -/
structure Severity where
  weight : Nat
deriving DecidableEq, Repr

namespace Severity

def debug : Severity := ⟨10⟩
def info : Severity := ⟨20⟩
def warning : Severity := ⟨30⟩
def error : Severity := ⟨40⟩
def critical : Severity := ⟨50⟩

/-- The severity of a name in upper case. -/
def named? (name : String) : Option Severity :=
  match name with
  | "CRITICAL" | "FATAL" => some critical
  | "ERROR" => some error
  | "WARNING" | "WARN" => some warning
  | "INFO" => some info
  | "DEBUG" => some debug
  | "NOTSET" => some ⟨0⟩
  | _ => none

end Severity

namespace Entry

def severity : Entry → Severity
  | running _ => .info
  | _ => .debug

/-- The line of an entry. -/
def text : Entry → String
  | running path => "INFO tss.interpreter: running " ++ path
  | scanning line row =>
    "DEBUG tss.reader.tokenizer: scanning line " ++ toString line ++ ": " ++
      String.ofList (Text.quote row)
  | evaluating tree => "DEBUG tss.interpreter: evaluating top-level form " ++ tree.description
  | calling closure arguments =>
    "DEBUG tss.evaluation.apply: calling " ++ closure.display ++ " with " ++
      toString arguments ++ " argument(s)"
  | bound name isLocal =>
    "DEBUG tss.evaluation.special_forms.define_form: bound " ++ name ++ " in " ++
      (if isLocal then "local" else "global") ++ " scope"

end Entry

end Lisplet
