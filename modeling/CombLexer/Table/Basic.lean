/-
Automaton tables in comb form, and how a state and a symbol are looked up.

The rows of all states share one array of slots (the comb): the edge of state
`s` on symbol `c` lies at slot `base s + c`, and is there only if `check` says
that the slot belongs to `s`. A state without an edge falls back on another
state, which consumes nothing. `Arrays` are five arrays as they come;
`Arrays.defect?` finds what is wrong with them first, and a `Table` is arrays
with nothing wrong.
-/
import CombLexer.Table.Chain
import CombLexer.Table.Error

namespace CombLexer

/-- The symbol that stands for the end of input; the symbols below it are the bytes. -/
def endOfInput : Nat := 256

def symbolCount : Nat := 257

structure Arrays where
  /-- For each state, the slot of its edge on symbol 0, if it has edges. -/
  base : Array Cell
  /-- For each state, the state tried instead when it has no edge. -/
  fallback : Array Cell
  /-- For each slot, the state it belongs to. -/
  check : Array Cell
  /-- For each slot, the target of the edge in it. -/
  transition : Array Cell
  /-- For each state, the rule that is matched by reaching it. -/
  accept : Array Cell
  deriving DecidableEq

namespace Arrays

def size (a : Arrays) : Nat := a.base.size

def get (a : Arrays) : Part → Array Cell
  | .base => a.base
  | .fallback => a.fallback
  | .check => a.check
  | .transition => a.transition
  | .accept => a.accept

/-- A complaint if an array does not have the expected length. -/
def lengthDefect? (a : Arrays) (part : Part) (expected : Nat) : Option TableError :=
  let found := (a.get part).size
  if found = expected then none else some (.lengthMismatch part expected found)

/-- A complaint about the first cell that matters and names no state. An absent cell that matters
names none either. -/
def stateDefect? (a : Arrays) (part : Part) (matters : Nat → Cell → Bool) : Option TableError :=
  ((a.get part).toList.zipIdx.find? fun (cell, i) => matters i cell && a.size ≤ cell.toNat).map
    fun (cell, i) => .stateOutOfRange part i cell a.size

/-- A complaint if there are so many states that the word for an absent cell would name one. -/
def sizeDefect? (a : Arrays) : Option TableError :=
  if a.size < Cell.absentWord then none
  else some (.stateOutOfRange .base (a.size - 1) none a.size)

/-- The first thing that is wrong with five arrays: lengths before names of states, and names of
states before endless chains. A target matters only in a slot that belongs to a state. -/
def defect? (a : Arrays) : Option TableError :=
  if a.size = 0 then some .empty
  else
    a.lengthDefect? .fallback a.size
      <|> a.lengthDefect? .accept a.size
      <|> a.lengthDefect? .transition a.check.size
      <|> a.sizeDefect?
      <|> a.stateDefect? .fallback (fun _ cell => cell.isSome)
      <|> a.stateDefect? .check (fun _ cell => cell.isSome)
      <|> a.stateDefect? .transition (fun i _ => (a.check[i]?).join.isSome)
      <|> (Chain.firstEndless? a.fallback).map .fallbackCycle

end Arrays

/-- Automaton tables: five arrays with nothing wrong. -/
structure Table extends Arrays where
  sound : toArrays.defect? = none

namespace Table

/-- The tables that five arrays make up, or what is wrong with them. -/
def ofArrays (a : Arrays) : Except TableError Table :=
  match h : a.defect? with
  | none => .ok ⟨a, h⟩
  | some e => .error e

/-- How many slots the comb has. -/
def slotCount (t : Table) : Nat := t.check.size

/-- One more than the greatest rule that a state accepts; 0 if no state accepts. -/
def ruleCount (t : Table) : Nat :=
  (t.accept.toList.filterMap Cell.number?).foldl (fun m r => max m (r + 1)) 0

/-- The target of the edge that `s` itself has on the symbol `c`. -/
def edge? (t : Table) (s c : Nat) : Option Nat :=
  match (t.base[s]?).join with
  | none => none
  | some b =>
    if (t.check[b.val + c]?).join.map Fin.val = some s then
      (t.transition[b.val + c]?).join.map Fin.val
    else none

def fallback? (t : Table) (s : Nat) : Option Nat := Chain.next? t.fallback s

/-- The rule that is matched by reaching `s`. -/
def rule? (t : Table) (s : Nat) : Option Nat := (t.accept[s]?).join.map Fin.val

/-- The edge on `c` of the first state with one among `s` and the `fuel` states behind it. -/
def resolveWithin (t : Table) (c : Nat) : Nat → Nat → Option Nat
  | 0, s => t.edge? s c
  | fuel + 1, s =>
    match t.edge? s c with
    | some target => some target
    | none =>
      match t.fallback? s with
      | some s' => resolveWithin t c fuel s'
      | none => none

/-- The target on `c` from `s`: its own edge, or that of the first state along its fallback chain
that has one. A chain names no state twice, so as many steps as there are states reach its end. -/
def resolve? (t : Table) (s c : Nat) : Option Nat := t.resolveWithin c t.size s

end Table

end CombLexer
