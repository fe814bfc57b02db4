import Lisplet.Tree.Reader

/-!
# Scripts

A script is what reading a program does, in the order in which it does it: rows are fetched,
forms are finished, and the reading may end in a fault.  A form stands before the next row, so
that whoever follows a script can evaluate the forms of a row before the rows after it are
fetched; a fault in a row stands before the forms of that row.
-/

namespace Lisplet

/-- One step of reading a program. -/
inductive Event where
  | row (line : Nat) (text : List Char)
  | form (tree : Tree)
  | fault (fault : ReadFault)

abbrev Script := List Event

namespace Script

/-- The forms that tokens finish, and the lists that are open after them. -/
def formsOf (limit : Nat) : Partial → List Token → List Tree × Except ReadFault Partial
  | p, [] => ([], .ok p)
  | p, token :: tokens =>
    match p.feed limit token with
    | .more p => formsOf limit p tokens
    | .fault fault => ([], .error fault)
    | .form tree =>
      let (trees, rest) := formsOf limit [] tokens
      (tree :: trees, rest)

/-- A row is fetched, unless it is blank. -/
def rowEvents (line : Nat) (row : List Char) : Script :=
  if isBlankRow row then [] else [.row line row]

/-- The end of the input: a fault if a list is open. -/
def endEvents : Partial → Script
  | [] => []
  | inner :: _ => [.fault (.unclosed inner.line)]

/-- The script of the rows from `line` on, with some lists open. -/
def ofRowsFrom (limit : Nat) (p : Partial) (line : Nat) : List (List Char) → Script
  | [] => endEvents p
  | row :: rows =>
    rowEvents line row ++
      match scanRow line row with
      | (_, some fault) => [.fault (.scan fault)]
      | (tokens, none) =>
        match formsOf limit p tokens with
        | (trees, .ok p) => trees.map .form ++ ofRowsFrom limit p (line + 1) rows
        | (trees, .error fault) => trees.map .form ++ [.fault fault]

/-- The script of a program that is given by its rows. -/
def ofRows (limit : Nat) (rows : List (List Char)) : Script := ofRowsFrom limit [] 0 rows

/-- The script of a text. -/
def ofText (limit : Nat) (text : String) : Script := ofRows limit (Text.lines text.toList)

/-- The forms of a script, or its fault. -/
def forms : Script → Except ReadFault (List Tree)
  | [] => .ok []
  | .row _ _ :: rest => forms rest
  | .form tree :: rest => (forms rest).map (tree :: ·)
  | .fault fault :: _ => .error fault

end Script

/-- The nesting that is allowed where nothing else is said. -/
def defaultLimit : Nat := 1000

/-- The forms of a text. -/
def parse (text : String) : Except ReadFault (List Tree) := (Script.ofText defaultLimit text).forms

end Lisplet
