import Lisplet.Text.Quoted

/-!
# Paths of files

A path is cut at its slashes; empty parts and single dots mean nothing.  The faults of reading a
file name its path without them.
-/

namespace Lisplet.CommandLine

/-- A path: the slashes that it begins with, if it starts at the root, and its parts. -/
structure FilePath where
  root : String
  parts : List String
deriving DecidableEq, Repr

namespace FilePath

/-- Exactly two slashes at the front are kept; any other number of them is one. -/
def rootOf : List Char → String
  | '/' :: '/' :: '/' :: _ => "/"
  | '/' :: '/' :: _ => "//"
  | '/' :: _ => "/"
  | _ => ""

/-- The parts of a path, the last one with the characters collected so far in reverse. -/
def partsFrom (seen : List Char) : List Char → List String
  | [] => [String.ofList seen.reverse]
  | c :: cs =>
    if c = '/' then String.ofList seen.reverse :: partsFrom [] cs else partsFrom (c :: seen) cs

def ofString (path : String) : FilePath :=
  ⟨rootOf path.toList, (partsFrom [] path.toList).filter fun part => part ≠ "" ∧ part ≠ "."⟩

/-- The path without the parts that mean nothing. -/
def text (p : FilePath) : String :=
  if p.root = "" ∧ p.parts = [] then "." else p.root ++ "/".intercalate p.parts

end FilePath

/-- Why a file cannot be read. -/
inductive FileFault where
  | missing
  | notDirectory
  | isDirectory
  | nameTooLong
deriving DecidableEq, Repr

namespace FileFault

def text : FileFault → String
  | missing => "[Errno 2] No such file or directory"
  | notDirectory => "[Errno 20] Not a directory"
  | isDirectory => "[Errno 21] Is a directory"
  | nameTooLong => "[Errno 36] File name too long"

/-- The message about a path. -/
def message (f : FileFault) (path : String) : String :=
  f.text ++ ": " ++ Text.quoted (FilePath.ofString path).text

end FileFault

end Lisplet.CommandLine
