/-
How a scanner is set up, and the two environment variables that change it.
-/
import CombLexer.Text.Blank
import CombLexer.Text.Decimal

namespace CombLexer

/-- What a scanner does behind input that no rule matches. -/
inductive Recovery where
  | abort
  | resync
  deriving DecidableEq, Repr

namespace Recovery

def name : Recovery → String
  | abort => "abort"
  | resync => "resync"

/-- Reads a name, in any case and with blanks around it; `skip` is another name of `resync`. -/
def parse? (text : String) : Option Recovery :=
  let word := String.ofList ((Blank.trim text.toList).map Char.toLower)
  if word = "abort" then some abort
  else if word = "resync" ∨ word = "skip" then some resync
  else none

end Recovery

structure Config where
  chunkSize : Nat := 512
  recovery : Recovery := .abort
  initialState : Nat := 0
  deriving DecidableEq, Repr

namespace Config

/-- The limit below which machine words lie. -/
def wordLimit : Nat := 18446744073709551616

def chunkSizeVariable : String := "LEXSTEP_CHUNK_SIZE"

def recoveryVariable : String := "LEXSTEP_RECOVERY"

/-- The size that a variable gives, if it gives one. -/
def parseChunkSize? (text : String) : Option Nat :=
  (Decimal.parse? wordLimit text.toUTF8.toList).filter (0 < ·)

/-- The setup that the variables ask for; what they do not say, or say badly, stays as it is by
default. -/
def ofVariables (value? : String → Option String) : Config :=
  { chunkSize := ((value? chunkSizeVariable).bind parseChunkSize?).getD 512
    recovery := ((value? recoveryVariable).bind Recovery.parse?).getD .abort }

/-- Changes the chunk size, which is 1 at least. -/
def withChunkSize (c : Config) (size : Nat) : Config := { c with chunkSize := max size 1 }

end Config

end CombLexer
