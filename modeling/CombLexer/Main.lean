/-
The command line: the first argument names a tool, which is given the others
and the machine that this runs on.
-/
import CombLexer.Tool.Command

namespace CombLexer

open Tool (FileError Host)

/-- Why a file could not be used, in the terms of the tools. -/
def fileError : IO.Error → FileError
  | .noFileOrDirectory .. => .notFound
  | .alreadyExists .. => .alreadyThere
  | .inappropriateType .. => .notDirectory
  | .invalidArgument _ 36 _ => .nameTooLong
  | e => .other (toString e)

/-- Does something with files that can fail. -/
def attempt {α : Type} (action : IO α) : IO (Except FileError α) := do
  try return .ok (← action)
  catch e => return .error (fileError e)

instance : Host IO where
  setting? name := IO.getEnv name
  load path := attempt do return (← IO.FS.readBinFile path).toList
  openScript path := attempt do
    try return [.data (← IO.FS.readBinFile path).toList]
    catch
      | .inappropriateType .. => return [.failure ⟨FileError.isDirectory.message⟩]
      | e => throw e
  makeDirectories path := attempt (IO.FS.createDirAll path)
  save path bytes := attempt (IO.FS.writeBinFile path ⟨bytes.toArray⟩)
  printLine line := IO.println line
  reportLine line := IO.eprintln line
  timed value := do
    let before ← IO.monoMsNow
    let value ← IO.lazyPure value
    return (value, (← IO.monoMsNow) - before)

end CombLexer

/-- Runs the tool that the first argument names. -/
def main (arguments : List String) : IO UInt32 := do
  match arguments with
  | name :: rest =>
    match CombLexer.Tool.Command.named? name with
    | some command => command.run rest
    | none =>
      IO.eprintln ("no tool is named " ++ name)
      return 2
  | [] =>
    IO.eprintln "the first argument names a tool: scan, emit or crosscheck"
    return 2
