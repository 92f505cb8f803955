/-
What a command-line tool asks of the machine it runs on: variables, files, a
clock and two places to print to. The tools are written for any `Host`, so
they run on a real machine and on one that is only a value.
-/
import CombLexer.Source.Reader

namespace CombLexer.Tool

/-- Why the machine could not do something with a file. -/
inductive FileError where
  | notFound
  | alreadyThere
  | notDirectory
  | isDirectory
  | nameTooLong
  | other (text : String)
  deriving DecidableEq, Repr

def FileError.message : FileError → String
  | notFound => "No such file or directory (os error 2)"
  | alreadyThere => "File exists (os error 17)"
  | notDirectory => "Not a directory (os error 20)"
  | isDirectory => "Is a directory (os error 21)"
  | nameTooLong => "File name too long (os error 36)"
  | other text => text

/-- Monads that give a tool what it needs. -/
class Host (m : Type → Type) where
  setting? : String → m (Option String)
  load : String → m (Except FileError Bytes)
  /-- Opens a file; what its reads will do. -/
  openScript : String → m (Except FileError (List Read))
  /-- Makes a directory together with those that it lies in; one that is there will do. -/
  makeDirectories : String → m (Except FileError Unit)
  save : String → Bytes → m (Except FileError Unit)
  printLine : String → m Unit
  reportLine : String → m Unit
  /-- The value of a computation, and how many milliseconds it took. -/
  timed {α : Type} : (Unit → α) → m (α × Nat)

/-- Why a tool gave up: what it was doing, and the causes behind that. -/
structure Failure where
  context : String
  /-- The causes, the nearest first. -/
  causes : List String := []

namespace Failure

/-- The causes, numbered if there are several. -/
def causeLines : List String → List String
  | [cause] => ["    " ++ cause]
  | causes => causes.zipIdx.map fun (cause, i) =>
    String.ofList (List.replicate (5 - (toString i).length) ' ') ++ toString i ++ ": " ++ cause

def lines (f : Failure) : List String :=
  ("Error: " ++ f.context) ::
    if f.causes.isEmpty then [] else "" :: "Caused by:" :: causeLines f.causes

end Failure

variable {m : Type → Type} [Monad m] [Host m]

/-- The work of a tool, which may give up. -/
abbrev Job (m : Type → Type) := ExceptT Failure m

/-- Says what was being done when a file could not be used. -/
def orFail {α : Type} (context : String) (result : Except FileError α) : Job m α :=
  match result with
  | .ok x => return x
  | .error e => throw { context, causes := [e.message] }

def report (line : String) : Job m Unit := ExceptT.lift (Host.reportLine line)

def print (line : String) : Job m Unit := ExceptT.lift (Host.printLine line)

def setting? (name : String) : Job m (Option String) := ExceptT.lift (Host.setting? name)

/-- Runs a job to its exit code, reporting why it gave up. -/
def runJob (job : Job m UInt32) : m UInt32 := do
  match ← job.run with
  | .ok code => return code
  | .error failure =>
    for line in failure.lines do
      Host.reportLine line
    return 1

end CombLexer.Tool
