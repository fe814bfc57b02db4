import Lisplet.CommandLine.FilePath

/-!
# Directories in memory

A working directory with the files under it, by their paths, in which a command can be run without
the files of a system (`Directory.read`).  Of what is outside of the working directory only an
outline is known: the directories that lead to it, the usual directories at the root, and the null
device, which is an empty file.  Paths and their parts may only be so long.
-/

namespace Lisplet.CommandLine

/-- The files of a working directory, each with the parts of its path. -/
structure Directory where
  files : List (List String × ByteArray)

namespace Directory

def ofFiles (files : List (String × ByteArray)) : Directory :=
  ⟨files.map fun (name, bytes) => ((FilePath.ofString name).parts, bytes)⟩

/-- The file at a place below the working directory. -/
def file? (d : Directory) (place : List String) : Option ByteArray := d.files.lookup place

def isDirectory (d : Directory) (place : List String) : Bool :=
  place.isEmpty || d.files.any fun (parts, _) => place.isPrefixOf parts && parts != place

/-- What a path can lead to. -/
inductive Node where
  | file (content : ByteArray)
  | directory

/-- Where a walk along a path has come to. -/
inductive Place where
  /-- The parts from the working directory on. -/
  | working (parts : List String)
  /-- The parts from the root on. -/
  | root (parts : List String)
  /-- One of the directories that lead to the working directory. -/
  | above
deriving DecidableEq, Repr

namespace Place

/-- The directory that a place is in; the root is in itself. -/
def parent : Place → Place
  | working [] => above
  | working parts => working parts.dropLast
  | root parts => root parts.dropLast
  | above => above

/-- The place of a name in a directory, if it can be known. -/
def child? (name : String) : Place → Option Place
  | working parts => some (working (parts ++ [name]))
  | root parts => some (root (parts ++ [name]))
  | above => none

end Place

/-- The usual directories at the root. -/
def rootNames : List String :=
  ["bin", "boot", "dev", "etc", "home", "lib", "media", "mnt", "opt", "proc", "root", "run",
    "sbin", "srv", "sys", "tmp", "usr", "var"]

/-- What is known to be at a place. -/
def node? (d : Directory) : Place → Option Node
  | .working parts =>
    match d.file? parts with
    | some content => some (.file content)
    | none => if d.isDirectory parts then some .directory else none
  | .root [] => some .directory
  | .root ["dev", "null"] => some (.file ByteArray.empty)
  | .root [name] => if rootNames.contains name then some .directory else none
  | .root _ => none
  | .above => some .directory

/-- The most bytes that a part of a path may have. -/
def maxNameSize : Nat := 255

/-- The most bytes that a path may have. -/
def maxPathSize : Nat := 4095

/-- Walks along the parts of a path. -/
def walk (d : Directory) (place : Place) : List String → Except FileFault ByteArray
  | [] =>
    match d.node? place with
    | some (.file content) => .ok content
    | some .directory => .error .isDirectory
    | none => .error .missing
  | part :: rest =>
    match d.node? place with
    | some (.file _) => .error .notDirectory
    | none => .error .missing
    | some .directory =>
      if part = ".." then walk d place.parent rest
      else if maxNameSize < part.utf8ByteSize then .error .nameTooLong
      else
        match place.child? part with
        | some place => walk d place rest
        | none => .error .missing

/-- The content of the file at a path. -/
def read (d : Directory) (path : String) : Except FileFault ByteArray :=
  let p := FilePath.ofString path
  if maxPathSize < p.text.utf8ByteSize then .error .nameTooLong
  else walk d (if p.root = "" then .working [] else .root []) p.parts

end Directory

end Lisplet.CommandLine
