/-
Notes: what the library has to say about its own work while it runs, each with
a level and a wording.
-/
namespace CombLexer

inductive Note where
  | parsingJson (bytes : Nat)
  | loadedBinary (states slots : Nat)
  | unpacked (states terminals slots : Nat)
  | packed (states slots : Nat)
  | token (rule start stop : Nat)
  | refill (offset state : Nat)
  | skipped (offset : Nat)
  deriving DecidableEq, Repr

inductive Level where
  | trace
  | debug
  | warn
  deriving DecidableEq, Repr

def Level.name : Level → String
  | trace => "trace"
  | debug => "debug"
  | warn => "warn"

namespace Note

def level : Note → Level
  | parsingJson _ | loadedBinary .. | unpacked .. | packed .. => .debug
  | token .. | refill .. => .trace
  | skipped _ => .warn

def text : Note → String
  | parsingJson bytes => "parsing tables JSON (" ++ toString bytes ++ " bytes)"
  | loadedBinary states slots =>
    "loaded tables .bin: " ++ toString states ++ " states, " ++ toString slots ++ " slots"
  | unpacked states terminals slots =>
    "unpacked 16-bit tables: " ++ toString states ++ " states (" ++ toString terminals
      ++ " terminal), " ++ toString slots ++ " slots"
  | packed states slots =>
    "packed " ++ toString states ++ " states into " ++ toString slots
      ++ " slots (dense would be " ++ toString (states * 257) ++ ")"
  | token rule start stop =>
    "rule " ++ toString rule ++ " at " ++ toString start ++ ".." ++ toString stop
  | refill offset state =>
    "refill at " ++ toString offset ++ " (state " ++ toString state ++ ")"
  | skipped offset => "resync: skipped byte at " ++ toString offset

end Note

end CombLexer
