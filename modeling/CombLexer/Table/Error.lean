/-
What can be wrong with automaton tables, and the wording of each complaint.
-/
import CombLexer.Table.Cell

namespace CombLexer

inductive Part where
  | base
  | fallback
  | check
  | transition
  | accept
  deriving DecidableEq, Repr

def Part.name : Part → String
  | base => "base"
  | fallback => "default"
  | check => "check"
  | transition => "transition"
  | accept => "backtrack"

/-- What a binary file holds: two counts behind a magic word, then the arrays. -/
inductive Region where
  | header
  | part (part : Part)
  deriving DecidableEq, Repr

def Region.name : Region → String
  | header => "header"
  | part p => p.name

inductive TableError where
  | empty
  /-- An array does not have the length that another one asks for. -/
  | lengthMismatch (part : Part) (expected found : Nat)
  | stateOutOfRange (part : Part) (index : Nat) (value : Cell) (states : Nat)
  | fallbackCycle (state : Nat)
  /-- An edge is declared on something that is neither a byte nor the end of input. -/
  | symbolOutOfRange (state symbol : Nat)
  | negativeEntry (part : Part) (index : Nat) (value : Int)
  | oddLength (part : Part) (length : Nat)
  | badMagic
  | truncated (region : Region)
  | trailingBytes (count : Nat)
  | json
  deriving DecidableEq, Repr

def TableError.message : TableError → String
  | empty => "table set has no states"
  | lengthMismatch part expected found =>
    "`" ++ part.name ++ "` has " ++ toString found ++ " entries, expected " ++ toString expected
  | stateOutOfRange part index value states =>
    "`" ++ part.name ++ "[" ++ toString index ++ "]` = " ++ toString value.toNat
      ++ " names a state outside 0.." ++ toString states
  | fallbackCycle state =>
    "default chain starting at state " ++ toString state ++ " is cyclic"
  | symbolOutOfRange state symbol =>
    "symbol " ++ toString symbol ++ " on state " ++ toString state ++ " is outside 0..=256"
  | negativeEntry part index value =>
    "`" ++ part.name ++ "[" ++ toString index ++ "]` = " ++ toString value ++ " is negative"
  | oddLength part length =>
    "packed `" ++ part.name ++ "` has odd byte length " ++ toString length
  | badMagic => "bad magic in tables .bin"
  | truncated region => "tables .bin truncated while reading " ++ region.name
  | trailingBytes count => toString count ++ " trailing bytes after tables .bin payload"
  | json => "failed to parse tables JSON"

end CombLexer
