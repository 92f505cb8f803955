/-
Building tables from declared states and edges.

A `Builder` holds, for each state, its row of edges, its fallback and the rule
it accepts; later declarations replace earlier ones, and naming a state that is
not there yet adds it together with all below it. `Builder.build` packs the
rows into a comb and checks the result like any other tables.
-/
import CombLexer.Bytes
import CombLexer.Table.Basic
import CombLexer.Table.Comb

namespace CombLexer

@[ext] structure StateDecl where
  row : Row := .empty
  fallback : Cell := none
  accept : Cell := none
  deriving DecidableEq

def StateDecl.bare : StateDecl := {}

instance : Inhabited StateDecl := ⟨.bare⟩

/-- The symbols that an edge is declared on. -/
inductive Symbols where
  | one (symbol : Nat)
  | endOfInput
  | bytes (bytes : Bytes)
  | range (low high : Nat)
  | bytesBut (except : Bytes)

def Symbols.toList : Symbols → List Nat
  | one symbol => [symbol]
  | endOfInput => [CombLexer.endOfInput]
  | bytes bs => bs.map UInt8.toNat
  | range low high => (List.range 256).filter fun c => low ≤ c && c ≤ high
  | bytesBut except => (List.range 256).filter fun c => !(except.map UInt8.toNat).contains c

/-- An automaton under construction: its states in order. -/
structure Builder where
  states : Array StateDecl := #[]
  deriving DecidableEq

namespace Builder

def withStates (n : Nat) : Builder := ⟨Array.replicate n .bare⟩

def size (b : Builder) : Nat := b.states.size

/-- Adds one bare state, whose number is the old size. -/
def addState (b : Builder) : Builder := ⟨b.states.push .bare⟩

/-- Adds bare states until `state` is there. -/
def ensure (b : Builder) (state : Nat) : Builder :=
  ⟨b.states ++ Array.replicate (state + 1 - b.states.size) .bare⟩

/-- Changes what is declared about a state, which is added if it is not there. -/
def update (b : Builder) (state : Nat) (f : StateDecl → StateDecl) : Builder :=
  ⟨(b.ensure state).states.modify state f⟩

/-- Declares an edge on one symbol. -/
def edge (b : Builder) (source symbol : Nat) (target : Cell) : Builder :=
  b.update source fun s => { s with row := s.row.insert symbol target }

/-- Declares an edge on each of some symbols; with none of them, the state is not added either. -/
def edges (b : Builder) (source : Nat) (symbols : Symbols) (target : Cell) : Builder :=
  symbols.toList.foldl (fun b c => b.edge source c target) b

/-- Declares the state that is tried when `source` has no edge. -/
def fallback (b : Builder) (source : Nat) (target : Cell) : Builder :=
  b.update source fun s => { s with fallback := target }

/-- Declares the rule that a state accepts. -/
def accept (b : Builder) (state : Nat) (rule : Cell) : Builder :=
  b.update state fun s => { s with accept := rule }

/-- The lowest symbol of a row that is neither a byte nor the end of input. -/
def strayIn? (row : Row) : Option Nat :=
  (row.entries.find? fun e => endOfInput < e.1).map Prod.fst

/-- The lowest state with such a symbol, and the symbol. -/
def stray? (b : Builder) : Option (Nat × Nat) :=
  b.states.toList.zipIdx.findSome? fun (s, i) => (strayIn? s.row).map (i, ·)

def packing (b : Builder) : Packing := .ofRows (b.states.toList.map StateDecl.row)

/-- The five arrays of the packed automaton. -/
def arrays (b : Builder) : Arrays :=
  let p := b.packing
  { base := p.base
    fallback := b.states.map StateDecl.fallback
    check := p.check
    transition := p.transition
    accept := b.states.map StateDecl.accept }

/-- The tables of the declared automaton, or what is wrong with it. -/
def build (b : Builder) : Except TableError Table :=
  match b.stray? with
  | some (state, symbol) => .error (.symbolOutOfRange state symbol)
  | none => Table.ofArrays b.arrays

end Builder

inductive Declaration where
  | state
  | edges (source : Nat) (symbols : Symbols) (target : Cell)
  | fallback (source : Nat) (target : Cell)
  | accept (state : Nat) (rule : Cell)

def Builder.declare (b : Builder) : Declaration → Builder
  | .state => b.addState
  | .edges source symbols target => b.edges source symbols target
  | .fallback source target => b.fallback source target
  | .accept state rule => b.accept state rule

def Builder.declareAll (b : Builder) (steps : List Declaration) : Builder :=
  steps.foldl Builder.declare b

end CombLexer
