/-
The tools by their names.
-/
import CombLexer.Tool.Crosscheck
import CombLexer.Tool.Emit
import CombLexer.Tool.Scan

namespace CombLexer.Tool

inductive Command where
  | scan
  | emit
  | crosscheck
  deriving DecidableEq, Repr

namespace Command

def name : Command → String
  | scan => "scan"
  | emit => "emit"
  | crosscheck => "crosscheck"

def named? (name : String) : Option Command :=
  [scan, emit, crosscheck].find? fun c => c.name = name

/-- Runs a tool to its exit code. -/
def run {m : Type → Type} [Monad m] [Host m] (c : Command) (arguments : List String) : m UInt32 :=
  runJob (match c with
    | scan => Scan.job arguments
    | emit => Emit.job arguments
    | crosscheck => Crosscheck.job)

end Command

end CombLexer.Tool
