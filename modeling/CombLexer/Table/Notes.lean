/-
The notes that go with building and loading tables: how far the work got, and
with what sizes.
-/
import CombLexer.Note
import CombLexer.Table.Binary
import CombLexer.Table.Json
import CombLexer.Table.Signed

namespace CombLexer

def Builder.notes (b : Builder) : List Note :=
  match b.build with
  | .ok t => [.packed t.size t.slotCount]
  | .error _ => []

def Json.notes (data : Bytes) : List Note := [.parsingJson data.length]

def Binary.notes (data : Bytes) : List Note :=
  match Binary.arrays? data with
  | .ok a => [.loadedBinary a.size a.check.size]
  | .error _ => []

/-- How many states report a rule without looking at more input. -/
def SignedArrays.terminalCount (a : SignedArrays) : Nat := a.base.toList.countP (· < 0)

def SignedTables.notes (t : SignedTables) : List Note :=
  match SignedArrays.ofTables t with
  | .error _ => []
  | .ok a =>
    match a.builder with
    | .error _ => []
    | .ok b => .unpacked a.base.size a.terminalCount a.check.size :: b.notes

end CombLexer
