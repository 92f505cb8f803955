/-
The cells of the automaton tables.

A cell is absent or holds a number below 2^32 - 1; the word 2^32 - 1 stands
for the absent cell wherever cells are written as words. `ofNat_toNat` and
`toNat_ofNat` say that the two readings of a word agree.
-/
namespace CombLexer

/-- A number that a present cell can hold. -/
abbrev Entry := Fin 4294967295

/-- A cell of a table: absent, or an entry. -/
abbrev Cell := Option Entry

namespace Cell

/-- The word that stands for an absent cell. -/
def absentWord : Nat := 4294967295

def toNat : Cell → Nat
  | some e => e.val
  | none => absentWord

/-- The cell a word stands for. Numbers that are no word of 32 bits stand for the absent cell. -/
def ofNat (n : Nat) : Cell := if h : n < 4294967295 then some ⟨n, h⟩ else none

def number? (cell : Cell) : Option Nat := cell.map Fin.val

/-- A cell as a signed number: an absent cell is -1. -/
def toInt : Cell → Int
  | some e => e.val
  | none => -1

/-- The cell a signed number stands for: -1 the absent one, entries themselves, and nothing else. -/
def ofInt? (n : Int) : Option Cell :=
  if n = -1 then some none
  else if h : 0 ≤ n ∧ n < 4294967295 then some (some ⟨n.toNat, by omega⟩)
  else none

@[simp] theorem ofNat_toNat (cell : Cell) : ofNat cell.toNat = cell := by
  cases cell with
  | none => simp [toNat, ofNat, absentWord]
  | some e => simp [toNat, ofNat]

theorem toNat_ofNat {n : Nat} (h : n ≤ absentWord) : (ofNat n).toNat = n := by
  unfold ofNat absentWord at *
  split
  · rfl
  · simp only [toNat, absentWord]; omega

@[simp] theorem ofInt?_toInt (cell : Cell) : ofInt? cell.toInt = some cell := by
  cases cell with
  | none => rfl
  | some e =>
    have h : 0 ≤ (e.val : Int) ∧ (e.val : Int) < 4294967295 := by omega
    have h' : ¬ (e.val : Int) = -1 := by omega
    show ofInt? (e.val : Int) = _
    unfold ofInt?
    rw [if_neg h', dif_pos h]
    rfl

end Cell

end CombLexer
