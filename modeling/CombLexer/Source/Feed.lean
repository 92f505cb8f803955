/-
Input that comes by a script of single deliveries.

Each step appends bytes and reports what it likes: their number, another
number, or a failure, in which case the appended bytes stay. Nothing is
repeated, and after a report of 0 the script is not asked again.
-/
import CombLexer.Source.Basic

namespace CombLexer

/-- A source that makes one delivery after the other. -/
structure Feed where
  /-- The deliveries to come; behind the last one there is nothing. -/
  script : List Delivery
  done : Bool := false

namespace Feed

def deliver (f : Feed) : Delivery × Feed :=
  if f.done then (.nothing, f)
  else
    match f.script with
    | [] => (.nothing, { f with done := true })
    | d :: rest =>
      (d, ⟨rest, match d.report with
        | .ok n => n == 0
        | .error _ => false⟩)

def load : List Delivery → Nat
  | [] => 0
  | d :: rest => d.weight + load rest

def capacity (f : Feed) : Nat := if f.done then 0 else load f.script

theorem weight_deliver_le (f : Feed) : (deliver f).1.weight + (deliver f).2.capacity ≤ f.capacity := by
  unfold deliver capacity
  by_cases hdone : f.done
  · simp [hdone, Delivery.weight, Delivery.nothing, Delivery.isProgress]
  · rw [if_neg hdone, if_neg hdone]
    cases f.script with
    | nil => simp [Delivery.weight, Delivery.nothing, Delivery.isProgress]
    | cons d rest =>
      have drop (b : Bool) : (if b then 0 else load rest) ≤ load rest := by cases b <;> simp
      exact Nat.add_le_add_left (drop _) _

instance : Source Feed where
  refill := deliver
  capacity := capacity
  weight_add_capacity_le := weight_deliver_le

end Feed

end CombLexer
