/-
Names of files: the parts between slashes, how long they may be, what a name
ends in, and joining a name to that of a directory.
-/
namespace CombLexer.Tool.Path

/-- The parts of a path between slashes. An empty part stands for what it lies behind. -/
def parts (path : String) : List String := (path.split (· = '/')).toList.map fun s => s.toString

/-- The parts that say something: neither empty nor a single dot. -/
def significant (parts : List String) : List String := parts.filter fun p => p ≠ "" ∧ p ≠ "."

def isAbsolute (path : String) : Bool := path.toList.head? == some '/'

def partLimit : Nat := 255

def limit : Nat := 4095

/-- What stands behind the last dot of a name, if something stands before it. -/
def extension? (path : String) : Option String := do
  let name ← (significant (parts path)).getLast?
  if name = ".." then none
  else
    let reversed := name.toList.reverse
    let ending := reversed.takeWhile (· ≠ '.')
    match reversed.drop ending.length with
    | _ :: _ :: _ => some (String.ofList ending.reverse)
    | _ => none

def join (directory name : String) : String :=
  if directory = "" ∨ directory.toList.getLast? = some '/' then directory ++ name
  else directory ++ "/" ++ name

end CombLexer.Tool.Path
