/-
The tool that writes the tables of the sample language to files, as text and
as binary.
-/
import CombLexer.Sample.Automaton
import CombLexer.Table.Binary
import CombLexer.Table.Json
import CombLexer.Tool.Host
import CombLexer.Tool.Path

namespace CombLexer.Tool.Emit

/-- How many slots of the comb are taken. -/
def usedSlots (t : Table) : Nat := t.check.toList.countP Option.isSome

/-- A part of a whole in percent with one place, a half rounded up. -/
def percent (part whole : Nat) : String :=
  let tenths := (2000 * part + whole) / (2 * whole)
  toString (tenths / 10) ++ "." ++ toString (tenths % 10)

def sizeLine (t : Table) : String :=
  "[gen_tables] states = " ++ toString t.size ++ ", slots = " ++ toString t.slotCount ++ " ("
    ++ toString (usedSlots t) ++ " used, " ++ percent (usedSlots t) (max t.slotCount 1)
    ++ "%), rules = " ++ toString t.ruleCount

variable {m : Type → Type} [Monad m] [Host m]

def writeFile (path : String) (data : Bytes) : Job m Unit := do
  orFail ("failed to write " ++ path) (← ExceptT.lift (Host.save path data))
  print ("[gen_tables] wrote " ++ path)

/-- The whole tool. The argument names the directory of the files. -/
def job (arguments : List String) : Job m UInt32 := do
  let directory := arguments.head?.getD "tables"
  orFail ("failed to create " ++ directory) (← ExceptT.lift (Host.makeDirectories directory))
  print "[gen_tables] building sample grammar tables…"
  match Sample.table with
  | .error e => throw { context := e.message }
  | .ok t =>
    print (sizeLine t)
    writeFile (Path.join directory "lexer_tables.json") (Json.encode t.toArrays)
    writeFile (Path.join directory "lexer_tables.bin") (Binary.encode t.toArrays)
    return 0

end CombLexer.Tool.Emit
