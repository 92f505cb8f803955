/-
A directory tree as a value: what is there under which path, seen from a
working directory.

A path is looked up part by part, from the root if it starts with a slash and
from the working directory otherwise, and every part but the last must lead
into a directory. The parts `.` and `..` have their usual meaning; above the
root there is only itself.
-/
import CombLexer.Bytes
import CombLexer.Tool.Host
import CombLexer.Tool.Path

namespace CombLexer.Tool

inductive Item where
  | directory
  | file (bytes : Bytes)
  /-- A device that gives nothing and keeps nothing. -/
  | null

/-- Directories and files by the names that lead to them. -/
structure Disk where
  items : List (List String × Item) := []
  here : List String := []

namespace Disk

/-- What the names lead to; no names lead to the root. -/
def find? (d : Disk) (names : List String) : Option Item :=
  if names.isEmpty then some .directory
  else (d.items.find? fun e => e.1 = names).map Prod.snd

/-- The disk with an item in place of an older one. -/
def put (d : Disk) (names : List String) (item : Item) : Disk :=
  { d with items := (names, item) :: d.items.filter fun e => e.1 ≠ names }

/-- The disk with an item and the directories that it lies in. -/
def install (d : Disk) (names : List String) (item : Item) : Disk :=
  let directories := (List.range names.length).map names.take
  (directories.foldl (fun d names => if (d.find? names).isSome then d else d.put names .directory) d).put
    names item

/-- The directories that lie in the root of every disk. -/
def rootDirectories : List String :=
  ["bin", "boot", "dev", "etc", "home", "lib", "media", "mnt", "opt", "proc", "root", "run", "sbin",
   "srv", "sys", "tmp", "usr", "var"]

/-- A disk with an empty working directory, which lies where temporary files do. There is a device
that holds nothing, and the input of the tools is one too. -/
def fresh : Disk :=
  let d : Disk := rootDirectories.foldl (fun d name => d.put [name] .directory) {}
  let d := (d.put ["dev", "null"] .null).put ["dev", "stdin"] .null
  { d.install ["tmp", "work"] .directory with here := ["tmp", "work"] }

/-- The disk with an item at a place below the working directory. -/
def place (d : Disk) (path : String) (item : Item) : Disk :=
  d.install (d.here ++ Path.significant (Path.parts path)) item

/-- Requires that the names lead to a directory. -/
def enter (d : Disk) (names : List String) : Except FileError Unit :=
  match d.find? names with
  | some .directory => .ok ()
  | some _ => .error .notDirectory
  | none => .error .notFound

/-- The names that parts lead to from a place, without asking whether the last is there. -/
def follow (d : Disk) : List String → List String → Except FileError (List String)
  | names, [] => .ok names
  | names, part :: rest => do
    d.enter names
    if part = "" ∨ part = "." then d.follow names rest
    else if part = ".." then d.follow names.dropLast rest
    else if Path.partLimit < part.utf8ByteSize then throw .nameTooLong
    else d.follow (names ++ [part]) rest

/-- Where the parts of a path are followed from. -/
def origin (d : Disk) (path : String) : List String := if Path.isAbsolute path then [] else d.here

def resolve (d : Disk) (path : String) : Except FileError (List String) :=
  if path = "" then .error .notFound
  else if Path.limit < path.utf8ByteSize then .error .nameTooLong
  else d.follow (d.origin path) (Path.parts path)

def item (d : Disk) (path : String) : Except FileError Item := do
  match d.find? (← d.resolve path) with
  | some e => return e
  | none => throw .notFound

def read (d : Disk) (path : String) : Except FileError Bytes := do
  match ← d.item path with
  | .file bytes => return bytes
  | .null => return []
  | .directory => throw .isDirectory

/-- What the reads of an opened file do. A directory can be opened but not read. -/
def openScript (d : Disk) (path : String) : Except FileError (List Read) := do
  match ← d.item path with
  | .file bytes => return [.data bytes]
  | .null => return []
  | .directory => return [.failure ⟨FileError.isDirectory.message⟩]

/-- The disk with a file written. Its directory must be there. -/
def write (d : Disk) (path : String) (bytes : Bytes) : Except FileError Disk := do
  let names ← d.resolve path
  match d.find? names with
  | some .directory => throw .isDirectory
  | some .null => return d
  | _ => return d.put names (.file bytes)

/-- The disk with one more directory, at the end of some parts. -/
def makeDirectory (d : Disk) (origin parts : List String) : Except FileError Disk := do
  let names ← d.follow origin parts
  match d.find? names with
  | some _ => throw .alreadyThere
  | none => return d.put names .directory

/-- The disk with a directory and those that it lies in, `depth` of them at most. -/
def makeDirectoriesAt (d : Disk) (origin : List String) :
    Nat → List String → Except FileError Disk
  | 0, _ => .ok d
  | depth + 1, parts =>
    let settle (d : Disk) : Except FileError Disk → Except FileError Disk
      | .ok d => .ok d
      | .error e =>
        match (d.follow origin parts).toOption.bind d.find? with
        | some .directory => .ok d
        | _ => .error e
    match d.makeDirectory origin parts with
    | .error .notFound => do
      let d ← d.makeDirectoriesAt origin depth (Path.significant parts).dropLast
      settle d (d.makeDirectory origin parts)
    | result => settle d result

/-- The disk with the directory of a path and those that it lies in. -/
def makeDirectories (d : Disk) (path : String) : Except FileError Disk :=
  if path = "" then .ok d
  else if Path.limit < path.utf8ByteSize then .error .nameTooLong
  else
    let parts := ((Path.parts path).reverse.dropWhile fun p => p = "").reverse
    d.makeDirectoriesAt (d.origin path) (parts.length + 1) parts

end Disk

end CombLexer.Tool
