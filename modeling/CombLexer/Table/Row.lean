/-
The row of a state: its edges, one for each symbol at most, by rising symbol.

The order is part of the type, so rows with the same edges are the same row.
`get?_insert` says what a new edge changes, `get?_tabulate` what a row made
from a function holds.
-/
import CombLexer.Table.Cell

namespace CombLexer

/-- The edges of one state as pairs of a symbol and a target, by rising symbol. -/
structure Row where
  entries : List (Nat × Cell)
  /-- Symbols rise, so none occurs twice. -/
  rising : entries.Pairwise fun e e' => e.1 < e'.1
  deriving DecidableEq

namespace Row

def empty : Row := ⟨[], .nil⟩

instance : Inhabited Row := ⟨empty⟩

def size (r : Row) : Nat := r.entries.length

def get? (r : Row) (c : Nat) : Option Cell :=
  (r.entries.find? fun e => e.1 = c).map Prod.snd

/-- Adds an edge to a list by rising symbol, in place of an older one on the symbol. -/
def insertEntry (c : Nat) (target : Cell) : List (Nat × Cell) → List (Nat × Cell)
  | [] => [(c, target)]
  | e :: rest =>
    if c < e.1 then (c, target) :: e :: rest
    else if c = e.1 then (c, target) :: rest
    else e :: insertEntry c target rest

theorem mem_insertEntry {c : Nat} {target : Cell} {x : Nat × Cell} :
    ∀ {l : List (Nat × Cell)}, x ∈ insertEntry c target l → x = (c, target) ∨ x ∈ l
  | [], h => by simpa [insertEntry] using h
  | e :: rest, h => by
    unfold insertEntry at h
    split at h
    · simpa using h
    · split at h
      · rcases List.mem_cons.1 h with h | h
        · exact .inl h
        · exact .inr (List.mem_cons_of_mem _ h)
      · rcases List.mem_cons.1 h with h | h
        · exact .inr (h ▸ List.mem_cons_self ..)
        · exact (mem_insertEntry h).imp_right (List.mem_cons_of_mem _)

theorem rising_insertEntry (c : Nat) (target : Cell) :
    ∀ {l : List (Nat × Cell)}, l.Pairwise (fun e e' => e.1 < e'.1) →
      (insertEntry c target l).Pairwise fun e e' => e.1 < e'.1
  | [], _ => by simp [insertEntry]
  | e :: rest, h => by
    have ⟨he, hrest⟩ := List.pairwise_cons.1 h
    unfold insertEntry
    split
    · rename_i hlt
      refine List.pairwise_cons.2 ⟨fun x hx => ?_, h⟩
      rcases List.mem_cons.1 hx with rfl | hx
      · exact hlt
      · exact Nat.lt_trans hlt (he x hx)
    · split
      · rename_i heq
        exact List.pairwise_cons.2 ⟨fun x hx => heq ▸ he x hx, hrest⟩
      · rename_i hlt heq
        refine List.pairwise_cons.2 ⟨fun x hx => ?_, rising_insertEntry c target hrest⟩
        rcases mem_insertEntry hx with rfl | hx
        · show e.1 < c
          omega
        · exact he x hx

/-- Adds an edge, in place of an older one on the symbol. -/
def insert (r : Row) (c : Nat) (target : Cell) : Row :=
  ⟨insertEntry c target r.entries, rising_insertEntry c target r.rising⟩

/-- The row with the edges that `f` gives to the symbols below `count`. -/
def tabulate (count : Nat) (f : Nat → Option Cell) : Row where
  entries := (List.range count).filterMap fun c => (f c).map (c, ·)
  rising := by
    refine List.Pairwise.filterMap _ ?_ List.pairwise_lt_range
    intro c c' hlt e he e' he'
    obtain ⟨_, _, rfl⟩ := Option.map_eq_some_iff.1 he
    obtain ⟨_, _, rfl⟩ := Option.map_eq_some_iff.1 he'
    exact hlt

theorem find?_insertEntry (c d : Nat) (target : Cell) :
    ∀ l : List (Nat × Cell), l.Pairwise (fun e e' => e.1 < e'.1) →
      ((insertEntry c target l).find? fun e => e.1 = d).map Prod.snd
        = if d = c then some target else (l.find? fun e => e.1 = d).map Prod.snd
  | [], _ => by
    by_cases h : d = c
    · simp [insertEntry, h]
    · simp [insertEntry, h, Ne.symm h]
  | e :: rest, hr => by
    have ⟨_, hrest⟩ := List.pairwise_cons.1 hr
    have ih := find?_insertEntry c d target rest hrest
    unfold insertEntry
    by_cases h : d = c
    · subst h
      split
      · simp
      · split
        · simp
        · rename_i h2
          rw [List.find?_cons_of_neg (by simpa using Ne.symm h2), ih]
          simp
    · rw [if_neg h] at ih ⊢
      split
      · rw [List.find?_cons_of_neg (by simpa using Ne.symm h)]
      · split
        · rename_i h2
          rw [List.find?_cons_of_neg (by simpa using Ne.symm h),
            List.find?_cons_of_neg (by simp only [decide_eq_true_eq]; omega)]
        · by_cases he : e.1 = d
          · simp [he]
          · rw [List.find?_cons_of_neg (by simpa using he),
              List.find?_cons_of_neg (by simpa using he), ih]

theorem get?_insert (r : Row) (c d : Nat) (target : Cell) :
    (r.insert c target).get? d = if d = c then some target else r.get? d :=
  find?_insertEntry c d target r.entries r.rising

theorem get?_tabulate (count : Nat) (f : Nat → Option Cell) (c : Nat) :
    (tabulate count f).get? c = if c < count then f c else none := by
  unfold get? tabulate
  simp only
  induction count with
  | zero => simp
  | succ count ih =>
    rw [List.range_succ, List.filterMap_append, List.find?_append, Option.map_or, ih]
    by_cases hc : c < count
    · rw [if_pos hc, if_pos (by omega)]
      cases h : f c with
      | some x => rfl
      | none =>
        have hne : count ≠ c := by omega
        cases hf : f count <;> simp [hf, hne]
    · rw [if_neg hc]
      by_cases hcc : c = count
      · subst hcc
        cases hf : f c <;> simp [hf]
      · have hne : count ≠ c := fun h => hcc h.symm
        rw [if_neg (by omega)]
        cases hf : f count <;> simp [hf, hne]

end Row

end CombLexer
