/-
A machine that is only a value: settings, a disk, and the lines that have been
printed. Its clock stands still.
-/
import CombLexer.Tool.Disk

namespace CombLexer.Tool

structure Machine where
  settings : List (String × String) := []
  disk : Disk := .fresh
  results : Array String := #[]
  messages : Array String := #[]

namespace Machine

/-- Changes the disk unless that fails. -/
def change (result : Machine → Except FileError Disk) : StateM Machine (Except FileError Unit) :=
  fun machine =>
    match result machine with
    | .ok disk => (.ok (), { machine with disk })
    | .error e => (.error e, machine)

instance : Host (StateM Machine) where
  setting? name := do return ((← get).settings.find? fun s => s.1 = name).map Prod.snd
  load path := do return (← get).disk.read path
  openScript path := do return (← get).disk.openScript path
  makeDirectories path := change fun machine => machine.disk.makeDirectories path
  save path bytes := change fun machine => machine.disk.write path bytes
  printLine line := modify fun machine => { machine with results := machine.results.push line }
  reportLine line := modify fun machine => { machine with messages := machine.messages.push line }
  timed value := return (value (), 0)

def text (lines : Array String) : String := lines.foldl (fun text line => text ++ line ++ "\n") ""

end Machine

end CombLexer.Tool
