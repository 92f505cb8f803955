/-
The binary form of tables.

A file is a magic word of eight bytes, the number of states and the number of
slots as 32-bit words, and then the cells of the five arrays as 32-bit words,
all little-endian. `encode` writes it; `arrays?` reads the arrays back,
refusing files that end too early or too late, and `load` makes tables of them.
-/
import CombLexer.Bytes
import CombLexer.Table.Basic

namespace CombLexer.Binary

/-- The eight bytes a file begins with. -/
def magic : Bytes := Bytes.ascii "LXSTEP01"

def word (n : Nat) : Bytes := Bytes.littleEndian 4 n

def words (cells : Array Cell) : Bytes := cells.toList.flatMap fun cell => word cell.toNat

def encode (a : Arrays) : Bytes :=
  magic ++ word a.base.size ++ word a.check.size
    ++ words a.base ++ words a.fallback ++ words a.accept ++ words a.check ++ words a.transition

/-- Takes a word off the front of a file; `region` is what is being read. -/
def takeWord (region : Region) : Bytes → Except TableError (Nat × Bytes)
  | b₀ :: b₁ :: b₂ :: b₃ :: rest => .ok (Bytes.ofLittleEndian [b₀, b₁, b₂, b₃], rest)
  | _ => .error (.truncated region)

/-- Takes as many cells as asked for, or as there are. -/
def takeCells : Nat → Bytes → List Cell × Bytes
  | n + 1, b₀ :: b₁ :: b₂ :: b₃ :: rest =>
    let (cells, rest) := takeCells n rest
    (.ofNat (Bytes.ofLittleEndian [b₀, b₁, b₂, b₃]) :: cells, rest)
  | _, data => ([], data)

/-- Takes an array of `n` cells off the front of a file. -/
def takeArray (part : Part) (n : Nat) (data : Bytes) : Except TableError (Array Cell × Bytes) :=
  if data.length / 4 < n then .error (.truncated (.part part))
  else
    let (cells, rest) := takeCells n data
    .ok (cells.toArray, rest)

def payload (data : Bytes) : Except TableError Bytes :=
  if data.length < 8 then .error (.truncated .header)
  else if data.take 8 = magic then .ok (data.drop 8)
  else .error .badMagic

/-- The five arrays in a file, with nothing behind them. -/
def arrays? (data : Bytes) : Except TableError Arrays := do
  let data ← payload data
  let (states, data) ← takeWord .header data
  let (slots, data) ← takeWord .header data
  let (base, data) ← takeArray .base states data
  let (fallback, data) ← takeArray .fallback states data
  let (accept, data) ← takeArray .accept states data
  let (check, data) ← takeArray .check slots data
  let (transition, data) ← takeArray .transition slots data
  if data.isEmpty then return { base, fallback, check, transition, accept }
  else throw (.trailingBytes data.length)

def load (data : Bytes) : Except TableError Table := do Table.ofArrays (← arrays? data)

end CombLexer.Binary
