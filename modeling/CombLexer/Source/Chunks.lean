/-
Input that is there in pieces from the start: each refill delivers the next
piece that is not empty.
-/
import CombLexer.Source.Basic

namespace CombLexer

structure Chunks where
  pieces : List Bytes

namespace Chunks

/-- Delivers the next piece that is not empty. -/
def deliver : List Bytes → Delivery × List Bytes
  | [] => (.nothing, [])
  | [] :: rest => deliver rest
  | piece :: rest => (.counted piece, rest)

def load : List Bytes → Nat
  | [] => 0
  | piece :: rest => piece.length + 1 + load rest

theorem weight_deliver_le (pieces : List Bytes) :
    (deliver pieces).1.weight + load (deliver pieces).2 ≤ load pieces := by
  fun_induction deliver pieces with
  | case1 => simp [Delivery.weight, Delivery.nothing, Delivery.isProgress]
  | case2 rest ih => simp only [load]; omega
  | case3 piece rest h =>
    have := Delivery.weight_counted_le piece
    simp only [load]
    omega

instance : Source Chunks where
  refill s := ((deliver s.pieces).1, ⟨(deliver s.pieces).2⟩)
  capacity s := load s.pieces
  weight_add_capacity_le s := weight_deliver_le s.pieces

end Chunks

end CombLexer
