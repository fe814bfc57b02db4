import Lisplet.Journal
import Lisplet.Text.UpperCase

/-!
# Settings

Two settings steer an interpreter: how deeply evaluations may be nested, and how severe an entry
of the journal has to be to be shown.  A limit is an integer; below 100 it counts as 100, and if
it is not given, or blank, as 10000.  An unknown severity counts as a warning.
-/

namespace Lisplet

/-- The texts of the settings that were given. -/
structure Settings where
  recursionLimit : Option String := none
  logLevel : Option String := none
deriving DecidableEq, Repr

/-- The most digits that an integer may be written with. -/
def maxIntegerDigits : Nat := 4300

/-- Reads an integer: an optional sign and a group of digits, with blanks around them. -/
def readInteger? (s : List Char) : Option Int :=
  let text := Text.trim s
  match Text.digitGroup (dropSign text) with
  | (d :: ds, []) =>
    if maxIntegerDigits < (d :: ds).length then none
    else
      let n : Int := Text.Digits.value (d :: ds)
      some (if isMinus text then -n else n)
  | _ => none

/-- A setting that has to be an integer and is none. -/
structure BadInteger where
  name : String
  text : String
deriving DecidableEq, Repr

def BadInteger.message (f : BadInteger) : String :=
  f.name ++ " must be an integer, got " ++ Text.quoted f.text

namespace Settings

def defaultRecursionLimit : Nat := 10000

def leastRecursionLimit : Nat := 100

/-- The limit that evaluations run under. -/
def limit (v : Settings) : Except BadInteger Nat :=
  match v.recursionLimit with
  | none => .ok defaultRecursionLimit
  | some text =>
    if text.toList.all Text.isBlank then .ok defaultRecursionLimit
    else
      match readInteger? text.toList with
      | some n => .ok (max n.toNat leastRecursionLimit)
      | none => .error ⟨"TSS_RECURSION_LIMIT", text⟩

/-- The severity from which on entries of the journal are shown. -/
def threshold (v : Settings) : Severity :=
  match v.logLevel with
  | none => .warning
  | some text =>
    (Severity.named? (String.ofList (Text.upper (Text.trim text.toList)))).getD .warning

end Settings

end Lisplet
