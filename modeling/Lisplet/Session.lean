import Lisplet.Eval
import Lisplet.Settings
import Lisplet.Tree.Script

/-!
# Sessions

A session runs programs, one after the other or side by side, on one machine, so that what one
program defines is there for the next.  A program is run by following its script: forms are
evaluated in order, each under the limit that the settings give at that moment, and a fault ends
the run.  A run can also be started and followed form by form (`Session.start`, `Session.pull`).
All that a session can be asked for is a `Request`, which `Session.perform` answers.
-/

namespace Lisplet

/-- Why a session could not do what it was asked to. -/
inductive Fault where
  | reading (fault : ReadFault)
  | evaluation (fault : EvalFault)
  | setting (fault : BadInteger)
  /-- A limit has to be positive. -/
  | limitTooSmall
  /-- A limit has to be beyond the levels that are in use already. -/
  | limitInUse
  /-- A limit has to fit into 32 bits. -/
  | limitTooLarge
  /-- The bytes of a program are not text. -/
  | undecodable

namespace Fault

def line? : Fault → Option Nat
  | reading fault => fault.line?
  | evaluation fault => fault.line?
  | _ => none

def message : Fault → String
  | reading fault => fault.message
  | evaluation fault => fault.message
  | setting fault => fault.message
  | limitTooSmall => "recursion limit must be greater or equal than 1"
  | limitInUse => "the limit is too low"
  | limitTooLarge => "Python int too large to convert to C int"
  | undecodable => "invalid text encoding"

/-- The classes of faults. -/
inductive Kind where
  | scan
  | shape
  | target
  | unbound
  | naming
  | type
  | attribute
  | value
  | depth
  | encoding
  | overflow
deriving DecidableEq, Repr

def kind : Fault → Kind
  | reading (.scan (.badNumeral _)) => .value
  | reading (.scan _) => .scan
  | reading .tooDeep => .depth
  | reading _ => .shape
  | evaluation fault =>
    match fault with
    | .emptyForm | .notAForm _ | .defineArity _ | .lambdaArity _ | .branchArity _
    | .badParameters _ => .shape
    | .nameless _ => .attribute
    | .unbound _ _ => .unbound
    | .notFunction _ _ | .notApplicable _ | .notNumber _ _ | .badFlag _ => .type
    | .badTarget _ => .target
    | .reservedName _ _ | .alreadyDefined _ _ | .nestedDefine _ => .naming
    | .tooDeep => .depth
  | setting _ | limitTooSmall => .value
  | limitInUse => .depth
  | limitTooLarge => .overflow
  | undecodable => .encoding

end Fault

/-- A machine, the limit in force, the settings, and the scripts of the runs that were started
and not yet followed to their end. -/
structure Session where
  machine : Machine := {}
  limit : Nat := defaultLimit
  settings : Settings := {}
  runs : List Script := []

/-- The levels that are in use before anything is evaluated. -/
def levelsInUse : Nat := 7

/-- The limit that a number asks for. -/
def limitOf (n : Int) : Except Fault Nat :=
  if n < -2147483648 ∨ 2147483647 < n then .error .limitTooLarge
  else if n < 1 then .error .limitTooSmall
  else if n.toNat ≤ levelsInUse then .error .limitInUse
  else .ok n.toNat

/-- The evaluations that may be nested under a limit: each is charged for three levels, and no
more than 100000 levels are ever granted. -/
def nestingUnder (limit : Nat) : Nat := min limit 100000 / 3

namespace Session

variable (s : Session)

def note (entry : Entry) : Session :=
  { s with machine := { s.machine with journal := s.machine.journal.push entry } }

def print (line : String) : Session :=
  { s with machine := { s.machine with output := s.machine.output.push line } }

/-- Does something under a limit, and then puts the old limit back. -/
def underLimit {α : Type} (limit : Nat) (act : Session → α × Session) : α × Session :=
  match act { s with limit := limit } with
  | (a, after) => (a, { after with limit := s.limit })

/-- The given limit, or else the one that the settings give, if it can be put in force. -/
def limitFrom (limit : Option Int) : Except Fault Nat :=
  match limit, s.settings.limit with
  | some n, _ => limitOf n
  | none, .ok n => limitOf n
  | none, .error fault => .error (.setting fault)

/-- Does something under the given limit, or else under the one that the settings give. -/
def withLimit {α : Type} (limit : Option Int) (act : Session → α × Session) :
    Except Fault α × Session :=
  match s.limitFrom limit with
  | .error fault => (.error fault, s)
  | .ok n =>
    match s.underLimit n act with
    | (a, s) => (.ok a, s)

/-- Evaluates on the session's machine, as deeply as the limit in force allows. -/
def evaluateNow (tree : Tree) : Except EvalFault Value × Session :=
  match evaluate (nestingUnder s.limit) tree s.machine with
  | (result, machine) => (result, { s with machine := machine })

/-- Evaluates one form of a program. -/
def evaluateForm (tree : Tree) : Except Fault Value × Session :=
  match (s.note (.evaluating tree)).withLimit none (·.evaluateNow tree) with
  | (.error fault, s) => (.error fault, s)
  | (.ok (.error fault), s) => (.error (.evaluation fault), s)
  | (.ok (.ok value), s) => (.ok value, s)

/-! ## Whole programs -/

/-- Follows a script to its end or its first fault.  Every result is handed to `emit` before the
script goes on. -/
def follow (emit : Value → Session → Session) : Script → Session →
    Except Fault (List Value) × Session
  | [], s => (.ok [], s)
  | .row line text :: rest, s => follow emit rest (s.note (.scanning line text))
  | .fault fault :: _, s => (.error (.reading fault), s)
  | .form tree :: rest, s =>
    match s.evaluateForm tree with
    | (.error fault, s) => (.error fault, s)
    | (.ok value, s) =>
      match follow emit rest (emit value s) with
      | (.error fault, s) => (.error fault, s)
      | (.ok values, s) => (.ok (value :: values), s)

/-- The script of a text, read under the limit in force. -/
def scriptOf (text : String) : Script := Script.ofText s.limit text

/-- One value for the results of several forms. -/
def combine : List Value → Value
  | [] => .null
  | [value] => value
  | values => .list values

/-- Evaluates all forms of a text. -/
def eval (text : String) : Except Fault Value × Session :=
  match follow (fun _ s => s) (s.scriptOf text) s with
  | (.error fault, s) => (.error fault, s)
  | (.ok values, s) => (.ok (combine values), s)

/-- Prints a result, unless it is nothing. -/
def printResult (value : Value) (s : Session) : Session :=
  match value with
  | .null => s
  | value => s.print value.display

/-- Runs the text of a file and prints the results of its forms. -/
def runText (text : String) : Except Fault Unit × Session :=
  let unified := String.ofList (Text.unifyBreaks text.toList)
  match follow printResult (s.scriptOf unified) s with
  | (.error fault, s) => (.error fault, s)
  | (.ok _, s) => (.ok (), s)

/-- Runs the bytes of a file, which have to be text in UTF-8. -/
def runBytes (bytes : ByteArray) : Except Fault Unit × Session :=
  match String.fromUTF8? bytes with
  | none => (.error .undecodable, s)
  | some text => s.runText text

/-- Runs a file: the run is noted, then the file is read. -/
def runFile (path : String) (bytes : ByteArray) : Except Fault Unit × Session :=
  (s.note (.running path)).runBytes bytes

/-! ## Runs form by form -/

/-- What a run answers when it is asked for its next result. -/
inductive Pulled where
  | result (value : Value)
  | fault (fault : Fault)
  | ended

/-- Follows a script up to its next result, and returns what is left of it. -/
def followOne : Script → Session → Pulled × Script × Session
  | [], s => (.ended, [], s)
  | .row line text :: rest, s => followOne rest (s.note (.scanning line text))
  | .fault fault :: _, s => (.fault (.reading fault), [], s)
  | .form tree :: rest, s =>
    match s.evaluateForm tree with
    | (.error fault, s) => (.fault fault, [], s)
    | (.ok value, s) => (.result value, rest, s)

/-- Starts a run of a text; the number of the run is the number of runs before it. -/
def start (text : String) : Session := { s with runs := s.runs ++ [s.scriptOf text] }

/-- Asks a run for its next result. -/
def pull (run : Nat) : Pulled × Session :=
  match s.runs[run]? with
  | none => (.ended, s)
  | some script =>
    match followOne script s with
    | (pulled, rest, s) => (pulled, { s with runs := s.runs.set run rest })

/-! ## Requests -/

/-- What a session can be asked for. -/
inductive Request where
  | eval (text : String)
  | file (path : String) (content : ByteArray)
  | start (text : String)
  | pull (run : Nat)
  | configure (settings : Settings)
  | print (line : String)

/-- What a session answers. -/
inductive Reply where
  | finished (result : Except Fault Value)
  | pulled (pulled : Pulled)

/-- Does what a session is asked for. -/
def perform (request : Request) (s : Session) : Reply × Session :=
  match request with
  | .eval text =>
    match s.eval text with
    | (result, s) => (.finished result, s)
  | .file path content =>
    match s.runFile path content with
    | (result, s) => (.finished (result.map fun _ => .null), s)
  | .start text => (.finished (.ok .null), s.start text)
  | .pull run =>
    match s.pull run with
    | (pulled, s) => (.pulled pulled, s)
  | .configure settings => (.finished (.ok .null), { s with settings := settings })
  | .print line => (.finished (.ok .null), s.print line)

end Session

end Lisplet
