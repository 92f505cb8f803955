/-
The comb: the rows of many states laid over each other in one array of slots.

A row placed at base `b` takes the slot `b + c` for each of its symbols `c`.
Each row goes to the least base at which all its slots are free (`firstFit`);
past the end of the comb every slot is free, so the search ends there.
-/
import CombLexer.Table.Row

namespace CombLexer

/-- A slot that is taken: the state it belongs to, and the target of its edge. -/
structure Slot where
  owner : Nat
  target : Cell
  deriving DecidableEq

/-- The slots, each free or taken. -/
abbrev Comb := Array (Option Slot)

namespace Comb

/-- Whether a slot is free; those past the end are. -/
def isFree (comb : Comb) (i : Nat) : Bool := (comb[i]?).join.isNone

def fits (comb : Comb) (row : Row) (b : Nat) : Bool :=
  row.entries.all fun e => comb.isFree (b + e.1)

/-- The least base from `b` on at which a row fits, if that is one of the next `count`; or else the
base behind them. -/
def firstFitFrom (comb : Comb) (row : Row) : Nat → Nat → Nat
  | 0, b => b
  | count + 1, b => if comb.fits row b then b else firstFitFrom comb row count (b + 1)

/-- The least base at which a row fits. At the end of the comb every row does. -/
def firstFit (comb : Comb) (row : Row) : Nat := comb.firstFitFrom row comb.size 0

def grow (comb : Comb) (size : Nat) : Comb := comb ++ Array.replicate (size - comb.size) none

/-- Takes a slot, growing the comb up to it. -/
def take (comb : Comb) (i : Nat) (slot : Slot) : Comb :=
  (comb.grow (i + 1)).setIfInBounds i (some slot)

/-- Takes the slots of the row of `owner` at base `b`. -/
def place (comb : Comb) (owner : Nat) (row : Row) (b : Nat) : Comb :=
  row.entries.foldl (fun comb e => comb.take (b + e.1) ⟨owner, e.2⟩) comb

end Comb

/-- A comb under construction: the slots, and the base of each state whose row has been placed. -/
structure Packing where
  comb : Comb
  base : Array Cell

namespace Packing

/-- Nothing placed yet, for `states` states. -/
def start (states : Nat) : Packing := ⟨#[], Array.replicate states none⟩

/-- Places the row of a state at the first base where it fits; a row without edges needs none. -/
def add (p : Packing) (state : Nat) (row : Row) : Packing :=
  if row.entries.isEmpty then p
  else
    let b := p.comb.firstFit row
    ⟨p.comb.place state row b, p.base.setIfInBounds state (.ofNat b)⟩

/-- Whether one state's row is placed before another's: the longer row first, and of rows of one
length that of the lower state. -/
def precedes (x y : Nat × Row) : Bool :=
  y.2.size < x.2.size || (x.2.size == y.2.size && x.1 ≤ y.1)

/-- Puts a state with its row before the first one that it precedes. -/
def insertInOrder (x : Nat × Row) : List (Nat × Row) → List (Nat × Row)
  | [] => [x]
  | y :: rest => if precedes x y then x :: y :: rest else y :: insertInOrder x rest

/-- The rows with their states in the order in which they are placed. -/
def order (rows : List Row) : List (Nat × Row) :=
  (rows.zipIdx.map fun (row, state) => (state, row)).foldr insertInOrder []

/-- The packing of all rows, the first that of state 0. -/
def ofRows (rows : List Row) : Packing :=
  (order rows).foldl (fun p (state, row) => p.add state row) (start rows.length)

def check (p : Packing) : Array Cell :=
  p.comb.map fun slot => slot.bind fun s => Cell.ofNat s.owner

def transition (p : Packing) : Array Cell := p.comb.map fun slot => slot.bind Slot.target

end Packing

end CombLexer
