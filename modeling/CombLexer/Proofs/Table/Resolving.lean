/-
What tables answer for a state and a symbol.

`Table.resolve?` follows fallbacks for as many steps as there are states.
`FirstEdge` says without a bound what that is to find: the edge of the first
state along the chain that has one. Chains of tables end, so the bound never
shows (`Table.resolve?_eq_iff`), and `resolve?` obeys the plain equations of a
state with an edge, of one that falls back and of one that does neither.
-/
import CombLexer.Proofs.Table.Validity

namespace CombLexer

/-- The edge of the first state with one along the chain of fallbacks from a state; nothing if none
of them has one. -/
inductive FirstEdge (edge fallback : Nat → Option Nat) : Nat → Option Nat → Prop
  | own {s target : Nat} (hedge : edge s = some target) : FirstEdge edge fallback s (some target)
  | behind {s s' : Nat} {result : Option Nat} (hedge : edge s = none)
      (hnext : fallback s = some s') (hrest : FirstEdge edge fallback s' result) :
      FirstEdge edge fallback s result
  | nowhere {s : Nat} (hedge : edge s = none) (hlast : fallback s = none) :
      FirstEdge edge fallback s none

/-- There is one answer only. -/
theorem FirstEdge.unique {edge fallback : Nat → Option Nat} {s : Nat} {r r' : Option Nat}
    (h : FirstEdge edge fallback s r) (h' : FirstEdge edge fallback s r') : r = r' := by
  induction h with
  | own hedge => cases h' <;> simp_all
  | behind hedge hnext _ ih =>
    cases h' with
    | own hedge' => simp [hedge] at hedge'
    | behind _ hnext' hrest' =>
      have heq := hnext.symm.trans hnext'
      cases heq
      exact ih hrest'
    | nowhere _ hlast' => simp [hnext] at hlast'
  | nowhere hedge hlast => cases h' <;> simp_all

/-- What is found is an edge of some state. -/
theorem FirstEdge.exists_edge {edge fallback : Nat → Option Nat} {s target : Nat}
    (h : FirstEdge edge fallback s (some target)) : ∃ s', edge s' = some target := by
  generalize hr : some target = r at h
  induction h with
  | own hedge =>
    cases hr
    exact ⟨_, hedge⟩
  | behind _ _ _ ih => exact ih hr
  | nowhere => cases hr

namespace Table

variable (t : Table) (s c : Nat)

/-- With fuel for a whole chain, its first edge is found. -/
theorem resolveWithin_firstEdge {fuel : Nat}
    (h : Chain.along? t.fallback (fuel + 1) s = none) :
    FirstEdge (t.edge? · c) t.fallback? s (t.resolveWithin c fuel s) := by
  induction fuel generalizing s with
  | zero =>
    have hlast : t.fallback? s = none := (Chain.along?_one s).symm.trans h
    rw [resolveWithin]
    cases hedge : t.edge? s c with
    | none => exact .nowhere hedge hlast
    | some target => exact .own hedge
  | succ fuel ih =>
    rw [resolveWithin]
    cases hedge : t.edge? s c with
    | some target => exact .own hedge
    | none =>
      cases hnext : t.fallback? s with
      | none => exact .nowhere hedge hnext
      | some s' =>
        have hrest : Chain.along? t.fallback (fuel + 1) s' = none := by
          rw [Chain.along?, show Chain.next? t.fallback s = some s' from hnext] at h
          exact h
        exact .behind hedge hnext (ih s' hrest)

/-- No chain is longer than there are states. -/
theorem along?_size : Chain.along? t.fallback t.size s = none := by
  by_cases hs : s < t.fallback.size
  · have hend := (t.valid.ends s).along?_size t.valid.inRange hs
    rwa [t.valid.fallback_size] at hend
  · have hend := (Chain.along?_one s).trans (Chain.next?_eq_none (Nat.le_of_not_lt hs))
    exact Chain.along?_eq_none_of_le hend t.valid.nonempty

/-- What is found is the first edge along the chain. -/
theorem resolve?_firstEdge : FirstEdge (t.edge? · c) t.fallback? s (t.resolve? s c) :=
  t.resolveWithin_firstEdge s c (Chain.along?_eq_none_of_le (t.along?_size s) (Nat.le_succ _))

theorem resolve?_eq_iff {result : Option Nat} :
    t.resolve? s c = result ↔ FirstEdge (t.edge? · c) t.fallback? s result := by
  constructor
  · rintro rfl
    exact t.resolve?_firstEdge s c
  · exact (t.resolve?_firstEdge s c).unique

variable {t s c}

theorem resolve?_of_edge {target : Nat} (hedge : t.edge? s c = some target) :
    t.resolve? s c = some target :=
  (t.resolve?_eq_iff s c).2 (.own hedge)

theorem resolve?_of_fallback {s' : Nat} (hedge : t.edge? s c = none)
    (hnext : t.fallback? s = some s') : t.resolve? s c = t.resolve? s' c :=
  (t.resolve?_eq_iff s c).2 (.behind hedge hnext (t.resolve?_firstEdge s' c))

/-- Without a fallback, a state has its own edges only. -/
theorem resolve?_of_last (hlast : t.fallback? s = none) : t.resolve? s c = t.edge? s c := by
  cases hedge : t.edge? s c with
  | none => exact (t.resolve?_eq_iff s c).2 (.nowhere hedge hlast)
  | some target => exact resolve?_of_edge hedge

end Table

end CombLexer
