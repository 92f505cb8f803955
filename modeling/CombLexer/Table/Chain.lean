/-
Fallback chains: whether following fallbacks from every state comes to an end.

`trace` walks one chain and stamps what it passes with the state it started
from. A state with an older stamp has been shown to end by an earlier walk; a
state with this walk's own stamp closes a cycle. So every state is stamped
once, and `firstEndless?` finds the least state whose chain never ends in one
pass over the array.
-/
import CombLexer.Table.Cell

namespace CombLexer.Chain

/-- The state tried after `s`, if there is one. -/
def next? (fallback : Array Cell) (s : Nat) : Option Nat := (fallback[s]?).join.map Fin.val

/-- Walks on from `s` in the walk that began at `start`, for at most `fuel` states. The result
holds the stamps of all walks so far, or is `none` when the chain does not end. -/
def trace (fallback : Array Cell) (start : Nat) :
    Nat → Nat → Array (Option Nat) → Option (Array (Option Nat))
  | 0, _, _ => none
  | fuel + 1, s, stamps =>
    match (stamps[s]?).join with
    | some older => if older = start then none else some stamps
    | none =>
      let stamps := stamps.setIfInBounds s (some start)
      match next? fallback s with
      | none => some stamps
      | some s' => trace fallback start fuel s' stamps

/-- The first of the given states whose chain does not end. -/
def firstEndlessOf (fallback : Array Cell) : List Nat → Array (Option Nat) → Option Nat
  | [], _ => none
  | s :: rest, stamps =>
    match trace fallback s (fallback.size + 1) s stamps with
    | none => some s
    | some stamps => firstEndlessOf fallback rest stamps

/-- The least state whose fallback chain never ends. -/
def firstEndless? (fallback : Array Cell) : Option Nat :=
  firstEndlessOf fallback (List.range fallback.size) (Array.replicate fallback.size none)

end CombLexer.Chain
