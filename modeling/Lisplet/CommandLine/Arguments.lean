import Lisplet.Text.Digit
import Lisplet.Text.Quoted
import Lisplet.Text.UpperCase

/-!
# Command line arguments

A command line is one path and the options `-h`, `--help` and `--log-level`.  Long options may be
abbreviated; an option may have its value in the same argument, after an equals sign; `--` ends
the options, and as a value it stands for none; a negative number, and a text with a space in it,
is never an option.  `parseArguments` gives the invocation that a command line asks for, or says
why it asks for none.
-/

namespace Lisplet.CommandLine

inductive Flag where
  | help
  | logLevel
deriving DecidableEq, Repr

/-- What an argument is on its own. -/
inductive Argument where
  | word (text : List Char)
  /-- The argument that ends the options. -/
  | separator
  | unknown (text : List Char)
  /-- An option, with the text that was written into the same argument. -/
  | flag (flag : Flag) (long : Bool) (attached : Option (List Char))
deriving DecidableEq, Repr

/-- Why a command line is refused. -/
inductive UsageFault where
  | pathRequired
  | unrecognized (arguments : List (List Char))
  | levelExpected
  | badLevel (text : List Char)
  | ignoredValue (text : List Char)
  | ambiguous (argument : List Char)
deriving DecidableEq, Repr

/-- The level that a command line asks for. -/
inductive Level where
  | named (name : String)
  /-- The value that was given for the level stands for none. -/
  | absent
deriving DecidableEq, Repr

/-- What a command line asks for. -/
inductive Invocation where
  | help
  | run (path : String) (level : Option Level)
deriving DecidableEq, Repr

/-- The levels that may be asked for. -/
def levels : List String := ["DEBUG", "INFO", "WARNING", "ERROR"]

namespace UsageFault

def message : UsageFault → String
  | pathRequired => "the following arguments are required: path"
  | unrecognized arguments =>
    "unrecognized arguments: " ++ " ".intercalate (arguments.map String.ofList)
  | levelExpected => "argument --log-level: expected one argument"
  | badLevel text =>
    "argument --log-level: invalid choice: " ++ String.ofList (Text.quote text) ++
      " (choose from " ++ ", ".intercalate (levels.map Text.quoted) ++ ")"
  | ignoredValue text =>
    "argument -h/--help: ignored explicit argument " ++ String.ofList (Text.quote text)
  | ambiguous argument =>
    "ambiguous option: " ++ String.ofList argument ++ " could match --help, --log-level"

end UsageFault

/-! ## Arguments on their own -/

def helpName : List Char := "--help".toList

def logLevelName : List Char := "--log-level".toList

/-- The option of a full name, and whether the name is a long one. -/
def flagNamed? (name : List Char) : Option (Flag × Bool) :=
  if name = ['-', 'h'] then some (.help, false)
  else if name = helpName then some (.help, true)
  else if name = logLevelName then some (.logLevel, true)
  else none

/-- The text before the first equals sign, and the value after it. -/
def splitEquals (text : List Char) : List Char × Option (List Char) :=
  match text.dropWhile (· != '=') with
  | [] => (text, none)
  | _ :: value => (text.takeWhile (· != '='), some value)

/-- A minus sign, and then digits with at most one point, which has digits after it.  One line
feed may follow. -/
def isNegativeNumber (text : List Char) : Bool :=
  let body := if text.getLast? = some '\n' then text.dropLast else text
  match body with
  | '-' :: rest =>
    match rest.dropWhile Text.isDigit with
    | [] => !rest.isEmpty
    | '.' :: fraction => !fraction.isEmpty && fraction.all Text.isDigit
    | _ => false
  | _ => false

/-- An argument that begins like an option, but is none. -/
def plain (text : List Char) : Argument :=
  if isNegativeNumber text || text.contains ' ' then .word text else .unknown text

/-- An argument that begins with two dashes and is no full name. -/
def classifyLong (text : List Char) : Except UsageFault Argument :=
  let (name, attached) := splitEquals text
  match name.isPrefixOf helpName, name.isPrefixOf logLevelName with
  | true, true => .error (.ambiguous text)
  | true, false => .ok (.flag .help true attached)
  | false, true => .ok (.flag .logLevel true attached)
  | false, false => .ok (plain text)

/-- An argument that begins with a dash and is no full name, with or without a value. -/
def classifyShort (text : List Char) : Except UsageFault Argument :=
  match text with
  | '-' :: '-' :: _ => classifyLong text
  | '-' :: 'h' :: rest => .ok (.flag .help false (some rest))
  | _ => .ok (plain text)

/-- What an argument is, when the options have not ended. -/
def classify (text : List Char) : Except UsageFault Argument :=
  if text.head? ≠ some '-' then .ok (.word text)
  else
    match flagNamed? text, splitEquals text with
    | some (flag, long), _ => .ok (.flag flag long none)
    | none, (_, none) => if text.length = 1 then .ok (.word text) else classifyShort text
    | none, (name, some attached) =>
      match flagNamed? name with
      | some (flag, long) => .ok (.flag flag long (some attached))
      | none => classifyShort text

/-- What the arguments of a command line are, each on its own. -/
def classifyAll : List String → Except UsageFault (List Argument)
  | [] => .ok []
  | text :: rest =>
    if text = "--" then .ok (.separator :: rest.map (.word ·.toList))
    else
      match classify text.toList with
      | .error fault => .error fault
      | .ok argument => (classifyAll rest).map (argument :: ·)

/-! ## Invocations -/

/-- What is known of the invocation after some arguments. -/
structure Progress where
  path : Option String := none
  level : Option Level := none
  /-- The arguments that have no place, last first. -/
  extras : List (List Char) := []
deriving DecidableEq, Repr

/-- Several short options may share an argument, so a text after `-h` has to be more of them; the
only one is `h`. -/
def helpWith : List Char → Except UsageFault Invocation
  | [] => .ok .help
  | c :: cs => if c = 'h' then helpWith cs else .error (.ignoredValue (c :: cs))

/-- Help, unless a text was given with it that has no meaning. -/
def helpInvocation (long : Bool) (attached : Option (List Char)) : Except UsageFault Invocation :=
  match attached with
  | none => .ok .help
  | some text => if long || text.isEmpty then .error (.ignoredValue text) else helpWith text

/-- The level that a text names, in any case of letters. -/
def levelOf (text : List Char) : Except UsageFault Level :=
  if text = ['-', '-'] then .ok .absent
  else
    let name := Text.upper text
    if levels.contains (String.ofList name) then .ok (.named (String.ofList name))
    else .error (.badLevel name)

/-- The end of the arguments. -/
def finish (p : Progress) : Except UsageFault Invocation :=
  match p.path with
  | none => .error .pathRequired
  | some path =>
    if p.extras.isEmpty then .ok (.run path p.level) else .error (.unrecognized p.extras.reverse)

/-- Takes the arguments one after the other.  The first word is the path; a separator next to it
is dropped. -/
def proceed (p : Progress) : List Argument → Except UsageFault Invocation
  | [] => finish p
  | .word text :: .separator :: rest =>
    match p.path with
    | none => proceed { p with path := some (String.ofList text) } rest
    | some _ => proceed { p with extras := ['-', '-'] :: text :: p.extras } rest
  | .separator :: .word text :: rest =>
    match p.path with
    | none => proceed { p with path := some (String.ofList text) } rest
    | some _ => proceed { p with extras := text :: ['-', '-'] :: p.extras } rest
  | .word text :: rest =>
    match p.path with
    | none => proceed { p with path := some (String.ofList text) } rest
    | some _ => proceed { p with extras := text :: p.extras } rest
  | .separator :: rest => proceed { p with extras := ['-', '-'] :: p.extras } rest
  | .unknown text :: rest => proceed { p with extras := text :: p.extras } rest
  | .flag .help long attached :: _ => helpInvocation long attached
  | .flag .logLevel _ (some text) :: rest =>
    match levelOf text with
    | .error fault => .error fault
    | .ok level => proceed { p with level := some level } rest
  | .flag .logLevel _ none :: .word text :: rest =>
    match levelOf text with
    | .error fault => .error fault
    | .ok level => proceed { p with level := some level } rest
  | .flag .logLevel _ none :: _ => .error .levelExpected

/-- The invocation that a command line asks for. -/
def parseArguments (arguments : List String) : Except UsageFault Invocation :=
  match classifyAll arguments with
  | .error fault => .error fault
  | .ok arguments => proceed {} arguments

/-! ## Texts -/

def usage : String := "usage: tss [-h] [--log-level \x7bDEBUG,INFO,WARNING,ERROR\x7d] path\n"

def helpText : String :=
  usage ++ "\nRun a tss program\n\npositional arguments:\n" ++
  "  path                  path to the script to execute\n\noptions:\n" ++
  "  -h, --help            show this help message and exit\n" ++
  "  --log-level \x7bDEBUG,INFO,WARNING,ERROR\x7d\n" ++
  "                        logging level (overrides TSS_LOG_LEVEL)\n"

end Lisplet.CommandLine
