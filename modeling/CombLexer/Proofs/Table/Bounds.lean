/-
Reading the arrays by index, where an index outside of them is a crash.

`Arrays.fetch` reads a cell that has to be there, and `edgeAt`, `fallbackAt`,
`ruleAt` and `targetWithin` look up with such reads what `Table.edge?`,
`Table.fallback?`, `Table.rule?` and `Table.resolve?` do. On arrays that nobody
has validated they may crash, or follow a chain for ever. On a `Table` they do
neither (`edgeAt_eq` to `targetWithin_eq`): a slot that belongs to a state has
a target, however far out the bases point, and a chain has ended after as many
states as there are.
-/
import CombLexer.Proofs.Fallible
import CombLexer.Proofs.Table.Resolving

namespace CombLexer

open Fallible

/-- Why a call on arrays that nobody has validated comes to nothing. -/
inductive Crash where
  /-- A cell that is read is not there. -/
  | outside (part : Part) (index : Nat)
  /-- The cursor is moved on with no byte at it. -/
  | pastInput (cursor : Nat)
  /-- A loop has not come to its end in the rounds that it was given. -/
  | endless
  deriving DecidableEq, Repr

namespace Arrays

/-- The cell at an index, which must be there. -/
def fetch (a : Arrays) (part : Part) (i : Nat) : Except Crash Cell :=
  match (a.get part)[i]? with
  | some cell => .ok cell
  | none => .error (.outside part i)

/-- The target of the edge that `s` itself has on the symbol `c`. Whose slot it is, is asked first:
a slot that is not there belongs to nobody. The target is the word in the slot, whatever that is. -/
def edgeAt (a : Arrays) (s c : Nat) : Except Crash (Option Nat) := do
  match ← a.fetch .base s with
  | none => return none
  | some b =>
    if (a.check[b.val + c]?).map Cell.toNat = some s then
      let target ← a.fetch .transition (b.val + c)
      return some target.toNat
    else return none

def fallbackAt (a : Arrays) (s : Nat) : Except Crash (Option Nat) := do
  return (← a.fetch .fallback s).number?

def ruleAt (a : Arrays) (s : Nat) : Except Crash (Option Nat) := do
  return (← a.fetch .accept s).number?

/-- The target on `c` from `s`, looked for in no more than the given number of states. -/
def targetWithin (a : Arrays) (c : Nat) : Nat → Nat → Except Crash (Option Nat)
  | 0, _ => .error .endless
  | states + 1, s => do
    match ← a.edgeAt s c with
    | some target => return some target
    | none =>
      match ← a.fallbackAt s with
      | none => return none
      | some s' => a.targetWithin c states s'

/-! ## Reads that do not crash -/

variable {a : Arrays}

theorem fetch_eq_ok (part : Part) {i : Nat} {cell : Cell} (h : (a.get part)[i]? = some cell) :
    a.fetch part i = .ok cell := by
  rw [fetch, h]

theorem fetch_of_lt (part : Part) {i : Nat} (h : i < (a.get part).size) :
    ∃ cell, (a.get part)[i]? = some cell ∧ a.fetch part i = .ok cell :=
  ⟨_, Array.getElem?_eq_getElem h, fetch_eq_ok part (Array.getElem?_eq_getElem h)⟩

/-- As a word, the owner of a slot is a state exactly if it is as a cell: no state has the number
that stands for the absent cell. -/
theorem owner_iff {s : Nat} (hs : s < Cell.absentWord) (i : Nat) :
    (a.check[i]?).map Cell.toNat = some s ↔ (a.check[i]?).join.map Fin.val = some s := by
  cases a.check[i]? with
  | none => simp
  | some cell =>
    cases cell with
    | none => simp [Cell.toNat, Nat.ne_of_gt hs]
    | some owner => simp [Cell.toNat]

end Arrays

namespace Table

variable {t : Table} {s c : Nat}

/-- A slot that belongs to a state has a target, which is a state. -/
theorem transition_of_owner {i : Nat} (h : (t.check[i]?).join.map Fin.val = some s) :
    ∃ e : Entry, t.transition[i]? = some (some e) ∧ e.val < t.size := by
  obtain ⟨owner, howner, -⟩ := Option.map_eq_some_iff.1 h
  exact t.valid.transition_lt i owner (Option.join_eq_some_iff.1 howner)

/-- Edges lead to states of the tables. -/
theorem edge?_lt {target : Nat} (h : t.edge? s c = some target) : target < t.size := by
  unfold edge? at h
  cases hbase : (t.base[s]?).join with
  | none => simp [hbase] at h
  | some b =>
    simp only [hbase] at h
    split at h
    · next howner =>
      obtain ⟨e, he, hlt⟩ := transition_of_owner howner
      rw [he] at h
      cases h
      exact hlt
    · cases h

/-- Fallbacks are states of the tables. -/
theorem fallback?_lt {s' : Nat} (h : t.fallback? s = some s') : s' < t.size := by
  have hlt := t.valid.inRange s s' h
  rwa [t.valid.fallback_size] at hlt

theorem edgeAt_eq (hs : s < t.size) : t.edgeAt s c = .ok (t.edge? s c) := by
  obtain ⟨cell, hbase, hfetch⟩ := t.fetch_of_lt .base hs
  have hbase' : t.base[s]? = some cell := hbase
  unfold Arrays.edgeAt edge?
  rw [hfetch, hbase', ok_bind]
  cases cell with
  | none => rfl
  | some b =>
    have hs' : s < Cell.absentWord := Nat.lt_trans hs t.valid.size_lt
    simp only [Option.join_some, Arrays.owner_iff hs']
    split
    · next howner =>
      obtain ⟨e, he, -⟩ := transition_of_owner howner
      rw [Arrays.fetch_eq_ok .transition he, he]
      rfl
    · rfl

theorem fallbackAt_eq (hs : s < t.size) : t.fallbackAt s = .ok (t.fallback? s) := by
  have hsize : s < (t.get .fallback).size := by rwa [Arrays.get, t.valid.fallback_size]
  obtain ⟨cell, hcell, hfetch⟩ := t.fetch_of_lt .fallback hsize
  have hcell' : t.fallback[s]? = some cell := hcell
  rw [Arrays.fallbackAt, hfetch, fallback?, Chain.next?, hcell']
  rfl

theorem ruleAt_eq (hs : s < t.size) : t.ruleAt s = .ok (t.rule? s) := by
  have hsize : s < (t.get .accept).size := by rwa [Arrays.get, t.valid.accept_size]
  obtain ⟨cell, hcell, hfetch⟩ := t.fetch_of_lt .accept hsize
  have hcell' : t.accept[s]? = some cell := hcell
  rw [Arrays.ruleAt, hfetch, rule?, hcell']
  rfl

/-! ## Chains -/

/-- A chain that is over after some states is followed through in that many. -/
theorem targetWithin_of_along {states : Nat} (hs : s < t.size)
    (h : Chain.along? t.fallback states s = none) :
    t.targetWithin c states s = .ok (t.resolve? s c) := by
  induction states generalizing s with
  | zero => cases h
  | succ states ih =>
    rw [Arrays.targetWithin, edgeAt_eq hs, ok_bind]
    cases hedge : t.edge? s c with
    | some target => rw [resolve?_of_edge hedge]; rfl
    | none =>
      simp only [fallbackAt_eq hs, ok_bind]
      cases hnext : t.fallback? s with
      | none => rw [resolve?_of_last hnext, hedge]; rfl
      | some s' =>
        rw [resolve?_of_fallback hedge hnext]
        refine ih (fallback?_lt hnext) ?_
        rw [Chain.along?, show Chain.next? t.fallback s = some s' from hnext] at h
        exact h

theorem targetWithin_eq (hs : s < t.size) {states : Nat} (hstates : t.size ≤ states) :
    t.targetWithin c states s = .ok (t.resolve? s c) :=
  targetWithin_of_along hs (Chain.along?_eq_none_of_le (t.along?_size s) hstates)

/-- What is found along a chain is a state, too. -/
theorem resolve?_lt {target : Nat} (h : t.resolve? s c = some target) : target < t.size := by
  have hfirst := t.resolve?_firstEdge s c
  rw [h] at hfirst
  obtain ⟨s', hedge⟩ := hfirst.exists_edge
  exact edge?_lt hedge

end Table

end CombLexer
