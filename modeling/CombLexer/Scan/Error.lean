/-
What can go wrong while scanning.

A `ScanError` is an outcome that scanning reports and may recover from. A
`Fault` is a call that has no answer because it names a state that the tables
do not have.
-/
import CombLexer.Source.Basic
import CombLexer.Table.Basic

namespace CombLexer

/-- Why scanning stopped. Offsets count bytes from the start of the stream. -/
inductive ScanError where
  | exhausted (offset : Nat)
  | noMatch (offset : Nat)
  | source (error : SourceError)
  deriving DecidableEq, Repr

namespace ScanError

def message : ScanError → String
  | exhausted offset => "input exhausted mid-token at byte " ++ toString offset
  | noMatch offset => "no rule matches at byte " ++ toString offset
  | source _ => "refill source failed"

def offset? : ScanError → Option Nat
  | exhausted offset | noMatch offset => some offset
  | source _ => none

end ScanError

/-- A call that names a state the tables do not have. -/
inductive Fault where
  | unknownState (state states : Nat)
  | initialState (state states : Nat)
  deriving DecidableEq, Repr

def Fault.message? : Fault → Option String
  | unknownState .. => none
  | initialState state states =>
    some ("initial state " ++ toString state ++ " outside 0.." ++ toString states)

/-- An answer about a state, which must be one of the tables'. -/
def Table.answer {α : Type} (t : Table) (state : Nat) (value : α) : Except Fault α :=
  if state < t.size then .ok value else .error (.unknownState state t.size)

end CombLexer
