/-
Sources of input.

A supply is asked for more input again and again. Each answer (`Delivery`) may
append bytes and reports how many came, or a failure; a report of 0 says that
the input is over. A source is a supply that comes to an end: `Source.capacity`
bounds what it can still deliver, and whatever it appends, and every report of
progress, uses some of that up. That is why loops that wait for input come to
an end.
-/
import CombLexer.Bytes

namespace CombLexer

structure SourceError where
  text : String
  deriving DecidableEq, Repr

/-- What a source did when it was asked for more input. -/
structure Delivery where
  /-- The bytes it appended, which count even if it failed. -/
  appended : Bytes
  /-- How many bytes it says it appended, 0 for the end of input; or why it failed. -/
  report : Except SourceError Nat

namespace Delivery

def nothing : Delivery := ⟨[], .ok 0⟩

/-- The answer of a source that delivers bytes and counts them. -/
def counted (bytes : Bytes) : Delivery := ⟨bytes, .ok bytes.length⟩

/-- Whether the answer says that there may be more. -/
def isProgress (d : Delivery) : Bool :=
  match d.report with
  | .ok n => n != 0
  | .error _ => false

/-- How much of a source's capacity an answer uses up. -/
def weight (d : Delivery) : Nat := d.appended.length + if d.isProgress then 1 else 0

theorem weight_counted_le (bytes : Bytes) : (counted bytes).weight ≤ bytes.length + 1 := by
  unfold weight counted
  split <;> simp

end Delivery

/-- Types whose values can be asked for input. -/
class Supply (σ : Type) where
  refill : σ → Delivery × σ

/-- Types whose values can be asked for input and have only so much of it. -/
class Source (σ : Type) extends Supply σ where
  /-- A bound on what is still to come. -/
  capacity : σ → Nat
  /-- An answer uses up what it delivers. -/
  weight_add_capacity_le (s : σ) : (refill s).1.weight + capacity (refill s).2 ≤ capacity s

/-- The source that has nothing to give. -/
inductive Exhausted where
  | exhausted
  deriving DecidableEq

instance : Source Exhausted where
  refill s := (.nothing, s)
  capacity _ := 0
  weight_add_capacity_le _ := by simp [Delivery.weight, Delivery.nothing, Delivery.isProgress]

end CombLexer
