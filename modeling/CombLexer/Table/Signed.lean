/-
Tables of signed 16-bit numbers, the form in which some lexer generators keep
them.

Each of the five arrays is a string of little-endian 16-bit numbers. They mean
something other than a `Table`: a negative base marks a state that reports a
rule and has no edges, and the fallback of a state is itself the target on
every symbol whose slot does not belong to the state. `SignedTables.builder`
spells all of that out as edges, for each of the 257 symbols; `load` packs the
result anew.
-/
import CombLexer.Table.Builder

namespace CombLexer

/-- The five arrays as strings of 16-bit numbers. -/
structure SignedTables where
  /-- For each state, where its row begins, or the negative mark of a rule. -/
  base : Bytes
  accept : Bytes
  fallback : Bytes
  transition : Bytes
  /-- For each slot, the state it belongs to. -/
  check : Bytes

/-- The same five arrays as numbers. -/
structure SignedArrays where
  /-- For each state, where its row begins, or the negative mark of a rule. -/
  base : Array Int
  accept : Array Int
  fallback : Array Int
  transition : Array Int
  /-- For each slot, the state it belongs to. -/
  check : Array Int

namespace SignedArrays

def numbers : Bytes → List Int
  | low :: high :: rest => Bytes.signed16 low high :: numbers rest
  | _ => []

/-- The numbers in a string, which must not end within one. -/
def numbers? (part : Part) (bytes : Bytes) : Except TableError (Array Int) :=
  if bytes.length % 2 = 0 then .ok (numbers bytes).toArray
  else .error (.oddLength part bytes.length)

def ofTables (t : SignedTables) : Except TableError SignedArrays := do
  let base ← numbers? .base t.base
  let accept ← numbers? .accept t.accept
  let fallback ← numbers? .fallback t.fallback
  let transition ← numbers? .transition t.transition
  let check ← numbers? .check t.check
  return { base, accept, fallback, transition, check }

/-- What an entry says: -1 that there is nothing; any other negative number is refused. -/
def entry (part : Part) (index : Nat) (value : Int) : Except TableError Cell :=
  if value = -1 then .ok none
  else if value < 0 then .error (.negativeEntry part index value)
  else .ok (.ofNat value.toNat)

def checkLength (part : Part) (expected found : Nat) : Except TableError Unit :=
  if found = expected then .ok () else .error (.lengthMismatch part expected found)

/-- Refuses arrays whose lengths do not fit together, and owners below -1. -/
def checkShape (a : SignedArrays) : Except TableError Unit := do
  if a.base.size = 0 then throw .empty
  checkLength .accept a.base.size a.accept.size
  checkLength .fallback a.base.size a.fallback.size
  checkLength .transition a.check.size a.transition.size
  a.check.toList.zipIdx.forM fun (owner, i) => discard (entry .check i owner)

/-- The target of `state`, whose row begins at `row`, on a symbol: what its slot holds if the slot
belongs to the state, and `otherwise` if it does not. -/
def target (a : SignedArrays) (state row : Nat) (otherwise : Cell) (symbol : Nat) :
    Except TableError Cell :=
  if a.check[row + symbol]? = some (state : Int) then
    entry .transition (row + symbol) (a.transition.getD (row + symbol) (-1))
  else .ok otherwise

/-- What the arrays say about a state whose base is `base`. -/
def state (a : SignedArrays) (s : Nat) (base : Int) : Except TableError StateDecl := do
  if base < 0 then
    return { accept := .ofNat (-base - 1).toNat }
  else
    let accept ← entry .accept s (a.accept.getD s (-1))
    let otherwise ← entry .fallback s (a.fallback.getD s (-1))
    let targets ← (List.range symbolCount).mapM (a.target s base.toNat otherwise)
    let targets := targets.toArray
    return { row := .tabulate symbolCount fun c => (targets[c]?).join.map some, accept }

/-- The automaton that the arrays describe, with every edge spelled out. -/
def builder (a : SignedArrays) : Except TableError Builder := do
  a.checkShape
  let states ← a.base.toList.zipIdx.mapM fun (base, s) => a.state s base
  return ⟨states.toArray⟩

end SignedArrays

namespace SignedTables

def builder (t : SignedTables) : Except TableError Builder := do
  (← SignedArrays.ofTables t).builder

/-- The tables, packed anew. -/
def load (t : SignedTables) : Except TableError Table := do (← t.builder).build

end SignedTables

end CombLexer
