/-
Which complaint five arrays get.

`Arrays.Violation` says what each complaint is about, with the rank at which it
is looked for: the number of states, the lengths, the names of states array by
array, the fallback chains. Where several things are wrong, the complaint is the
one of the lowest rank, and within an array the one at the lowest index
(`Arrays.FirstViolation`, `Arrays.defect?_eq_some_iff`). `Table.ofArrays_exact`
puts this together with what valid arrays make up: the tables with these arrays,
which count one rule more than the greatest.
-/
import CombLexer.Proofs.Table.Validity

namespace CombLexer

namespace Arrays

variable {a : Arrays}

/-! ## What a complaint says -/

/-- The complaint about the length of an array. -/
inductive WrongLength (a : Arrays) (part : Part) (expected : Nat) : TableError → Prop
  | intro (h : (a.get part).size ≠ expected) :
      WrongLength a part expected (.lengthMismatch part expected (a.get part).size)

/-- The complaint about the first cell of an array that matters and names no state. -/
inductive FirstStray (a : Arrays) (part : Part) (matters : Nat → Cell → Bool) : TableError → Prop
  | intro {i : Nat} {cell : Cell} (hcell : (a.get part)[i]? = some cell)
      (hmatters : matters i cell) (hstray : a.size ≤ cell.toNat)
      (hfirst : ∀ j < i, ∀ earlier, (a.get part)[j]? = some earlier → matters j earlier →
        earlier.toNat < a.size) :
      FirstStray a part matters (.stateOutOfRange part i cell a.size)

/-- The complaint about the least state whose fallback chain never ends. -/
inductive FirstEndless (a : Arrays) : TableError → Prop
  | intro {s : Nat} (hendless : ¬ Chain.Ends a.fallback s)
      (hfirst : ∀ earlier < s, Chain.Ends a.fallback earlier) : FirstEndless a (.fallbackCycle s)

/-- What can be wrong with five arrays, by the rank at which it is looked for. An absent cell is no
stray where it means that there is nothing; as the target in a slot of a state it is one. -/
def Violation (a : Arrays) : Nat → TableError → Prop
  | 0, e => a.size = 0 ∧ e = .empty
  | 1, e => a.WrongLength .fallback a.size e
  | 2, e => a.WrongLength .accept a.size e
  | 3, e => a.WrongLength .transition a.check.size e
  | 4, e => Cell.absentWord ≤ a.size ∧ e = .stateOutOfRange .base (a.size - 1) none a.size
  | 5, e => a.FirstStray .fallback (fun _ cell => cell.isSome) e
  | 6, e => a.FirstStray .check (fun _ cell => cell.isSome) e
  | 7, e => a.FirstStray .transition (fun i _ => (a.check[i]?).join.isSome) e
  | 8, e => a.FirstEndless e
  | _, _ => False

/-- A complaint is right and nothing that is looked for before it is wrong. -/
def FirstViolation (a : Arrays) (e : TableError) : Prop :=
  ∃ rank, a.Violation rank e ∧ ∀ earlier < rank, ∀ e', ¬ a.Violation earlier e'

/-! ## Single complaints -/

theorem lengthDefect?_eq_some_iff {part : Part} {expected : Nat} {e : TableError} :
    a.lengthDefect? part expected = some e ↔ a.WrongLength part expected e := by
  unfold lengthDefect?
  by_cases h : (a.get part).size = expected
  · simp only [if_pos h]
    exact ⟨nofun, fun ⟨hne⟩ => absurd h hne⟩
  · simp only [if_neg h, Option.some.injEq]
    constructor
    · intro heq
      subst heq
      exact .intro h
    · intro ⟨_⟩
      rfl

theorem sizeDefect?_eq_some_iff {e : TableError} :
    a.sizeDefect? = some e ↔
      Cell.absentWord ≤ a.size ∧ e = .stateOutOfRange .base (a.size - 1) none a.size := by
  unfold sizeDefect?
  by_cases h : a.size < Cell.absentWord
  · rw [if_pos h]
    exact ⟨nofun, fun ⟨hle, _⟩ => absurd h (Nat.not_lt_of_le hle)⟩
  · rw [if_neg h, Option.some.injEq, eq_comm]
    exact ⟨fun heq => ⟨Nat.le_of_not_lt h, heq⟩, And.right⟩

/-- The first entry of a list that is looked for, together with its index. -/
theorem find?_zipIdx_eq_some_iff {α : Type} {l : List α} {p : α → Nat → Bool} {x : α} {i : Nat} :
    l.zipIdx.find? (fun (x, i) => p x i) = some (x, i) ↔
      l[i]? = some x ∧ p x i ∧ ∀ j < i, ∀ y, l[j]? = some y → p y j = false := by
  simp only [List.find?_eq_some_iff_getElem, List.getElem_zipIdx, List.length_zipIdx, Nat.zero_add,
    Prod.mk.injEq, Bool.not_eq_true']
  constructor
  · intro ⟨hp, k, hk, ⟨hx, hki⟩, hfirst⟩
    subst hki
    refine ⟨List.getElem?_eq_some_iff.2 ⟨hk, hx⟩, hp, fun j hj y hy => ?_⟩
    obtain ⟨_, rfl⟩ := List.getElem?_eq_some_iff.1 hy
    exact hfirst j hj
  · intro ⟨hi, hp, hfirst⟩
    obtain ⟨hlt, hx⟩ := List.getElem?_eq_some_iff.1 hi
    refine ⟨hp, i, hlt, ⟨hx, rfl⟩, fun j hj => ?_⟩
    exact hfirst j hj _ (List.getElem?_eq_getElem (Nat.lt_trans hj hlt))

theorem stateDefect?_eq_some_iff {part : Part} {matters : Nat → Cell → Bool} {e : TableError} :
    a.stateDefect? part matters = some e ↔ a.FirstStray part matters e := by
  have hfind (i : Nat) (cell : Cell) := find?_zipIdx_eq_some_iff (l := (a.get part).toList)
    (p := fun cell i => matters i cell && a.size ≤ cell.toNat) (x := cell) (i := i)
  simp only [Array.getElem?_toList, Bool.and_eq_true, Bool.and_eq_false_imp, decide_eq_true_eq,
    decide_eq_false_iff_not, Nat.not_le] at hfind
  rw [stateDefect?, Option.map_eq_some_iff]
  constructor
  · intro h
    obtain ⟨⟨cell, i⟩, hsome, heq⟩ := h
    subst heq
    obtain ⟨hcell, ⟨hmatters, hstray⟩, hfirst⟩ := (hfind i cell).1 hsome
    exact .intro hcell hmatters hstray hfirst
  · intro h
    obtain ⟨hcell, hmatters, hstray, hfirst⟩ := h
    exact ⟨_, (hfind _ _).2 ⟨hcell, ⟨hmatters, hstray⟩, hfirst⟩, rfl⟩

theorem endlessDefect?_eq_some_iff (hrange : Chain.InRange a.fallback) {e : TableError} :
    (Chain.firstEndless? a.fallback).map .fallbackCycle = some e ↔ a.FirstEndless e := by
  simp only [Option.map_eq_some_iff, Chain.firstEndless?_eq_some_iff hrange]
  constructor
  · intro ⟨s, ⟨hendless, hfirst⟩, heq⟩
    subst heq
    exact .intro hendless hfirst
  · intro ⟨hendless, hfirst⟩
    exact ⟨_, ⟨hendless, hfirst⟩, rfl⟩

/-! ## All complaints -/

/-- All that is looked for, in order. -/
def complaints (a : Arrays) : List (Option TableError) :=
  [if a.size = 0 then some .empty else none, a.lengthDefect? .fallback a.size,
    a.lengthDefect? .accept a.size, a.lengthDefect? .transition a.check.size, a.sizeDefect?,
    a.stateDefect? .fallback (fun _ cell => cell.isSome),
    a.stateDefect? .check (fun _ cell => cell.isSome),
    a.stateDefect? .transition (fun i _ => (a.check[i]?).join.isSome),
    (Chain.firstEndless? a.fallback).map .fallbackCycle]

/-- The first entry of a list that is there has none before it. -/
theorem findSome?_id_eq_some_iff {α : Type} {l : List (Option α)} {x : α} :
    l.findSome? id = some x ↔ ∃ i : Nat, l[i]? = some (some x) ∧ ∀ j < i, l[j]? = some none := by
  induction l with
  | nil => simp
  | cons o l ih =>
    cases o with
    | some y =>
      constructor
      · intro h
        exact ⟨0, congrArg some h, nofun⟩
      · intro ⟨i, hi, hbefore⟩
        cases i with
        | zero => exact Option.some.inj hi
        | succ i => cases hbefore 0 (Nat.succ_pos i)
    | none =>
      rw [List.findSome?_cons, id, ih]
      constructor
      · intro ⟨i, hi, hbefore⟩
        refine ⟨i + 1, hi, fun j hj => ?_⟩
        cases j with
        | zero => rfl
        | succ j => exact hbefore j (Nat.lt_of_succ_lt_succ hj)
      · intro ⟨i, hi, hbefore⟩
        cases i with
        | zero => cases hi
        | succ i => exact ⟨i, hi, fun j hj => hbefore (j + 1) (Nat.succ_lt_succ hj)⟩

theorem defect?_eq_findSome? (a : Arrays) : a.defect? = a.complaints.findSome? id := by
  have hcons (o : Option TableError) (l : List (Option TableError)) :
      (o :: l).findSome? id = o.or (l.findSome? id) := by
    cases o <;> rfl
  unfold defect? complaints
  by_cases hempty : a.size = 0
  · rw [if_pos hempty, if_pos hempty]
    rfl
  · rw [if_neg hempty, if_neg hempty]
    simp only [Option.orElse_eq_orElse, Option.orElse_eq_or, hcons, List.findSome?_nil,
      Option.or_none, Option.none_or]

/-- Each complaint is about the violation of its rank. Chains are looked at only where fallbacks
name states. -/
theorem complaints_eq_some_iff {rank : Nat} {e : TableError}
    (hrange : rank = 8 → Chain.InRange a.fallback) :
    a.complaints[rank]? = some (some e) ↔ a.Violation rank e := by
  rw [complaints]
  match rank with
  | 0 =>
    by_cases hempty : a.size = 0
    · simp [Violation, hempty, eq_comm]
    · simp [Violation, hempty]
  | 1 => simpa [Violation] using lengthDefect?_eq_some_iff
  | 2 => simpa [Violation] using lengthDefect?_eq_some_iff
  | 3 => simpa [Violation] using lengthDefect?_eq_some_iff
  | 4 => simpa [Violation] using sizeDefect?_eq_some_iff
  | 5 => simpa [Violation] using stateDefect?_eq_some_iff
  | 6 => simpa [Violation] using stateDefect?_eq_some_iff
  | 7 => simpa [Violation] using stateDefect?_eq_some_iff
  | 8 => simpa [Violation] using endlessDefect?_eq_some_iff (hrange rfl)
  | rank + 9 => simp [Violation]

/-- Where nothing is looked for at a rank, there is no violation of it either. -/
theorem complaints_eq_none_iff {rank : Nat} (hrank : rank < 8) :
    a.complaints[rank]? = some none ↔ ∀ e, ¬ a.Violation rank e := by
  have hlen : rank < a.complaints.length := Nat.lt_trans hrank (by decide : 8 < 9)
  have hiff (e : TableError) : a.complaints[rank]? = some (some e) ↔ a.Violation rank e :=
    complaints_eq_some_iff fun hlast => absurd hlast (Nat.ne_of_lt hrank)
  simp only [← hiff, List.getElem?_eq_getElem hlen, Option.some.injEq]
  exact Option.eq_none_iff_forall_not_mem

/-- Fallbacks that are no violation name states. -/
theorem inRange_of_not_violation (hsize : ∀ e, ¬ a.Violation 1 e) (hstate : ∀ e, ¬ a.Violation 5 e) :
    Chain.InRange a.fallback := by
  have hlength := (complaints_eq_none_iff (by decide)).2 hsize
  have hstates := (complaints_eq_none_iff (by decide)).2 hstate
  exact (inRange_iff (lengthDefect?_eq_none_iff.1 (Option.some.inj hlength))).2
    (stateDefect?_isSome_eq_none_iff.1 (Option.some.inj hstates))

/-- **The complaint that arrays get** is the one about the first violation. -/
theorem defect?_eq_some_iff {e : TableError} : a.defect? = some e ↔ a.FirstViolation e := by
  have hle {rank : Nat} (h : a.complaints[rank]? = some (some e)) : rank ≤ 8 := by
    have hlt : rank < 9 := (List.getElem?_eq_some_iff.1 h).1
    omega
  rw [defect?_eq_findSome?, findSome?_id_eq_some_iff]
  constructor
  · intro ⟨rank, hrank, hbefore⟩
    have hrank' := hle hrank
    have hnone : ∀ earlier < rank, ∀ e', ¬ a.Violation earlier e' := fun earlier hlt =>
      (complaints_eq_none_iff (by omega)).1 (hbefore earlier hlt)
    refine ⟨rank, (complaints_eq_some_iff fun hlast => ?_).1 hrank, hnone⟩
    exact inRange_of_not_violation (hnone 1 (by omega)) (hnone 5 (by omega))
  · intro ⟨rank, hviolation, hnone⟩
    have hrank := (complaints_eq_some_iff fun hlast =>
      inRange_of_not_violation (hnone 1 (by omega)) (hnone 5 (by omega))).2 hviolation
    have hrank' := hle hrank
    exact ⟨rank, hrank, fun earlier hlt =>
      (complaints_eq_none_iff (by omega)).2 (hnone earlier hlt)⟩

/-! ## Rules -/

/-- One more than the greatest rule that a state accepts, or 0 where no state accepts. -/
structure CountsRules (a : Arrays) (count : Nat) : Prop where
  lt : ∀ (s : Nat) (rule : Entry), a.accept[s]? = some (some rule) → rule.val < count
  greatest : count = 0 ∨ ∃ (s : Nat) (rule : Entry),
    a.accept[s]? = some (some rule) ∧ count = rule.val + 1

end Arrays

namespace Table

/-- The greatest of some numbers and one more than some others. -/
theorem foldl_max_succ (l : List Nat) (m : Nat) :
    (∀ r ∈ l, r < l.foldl (fun m r => max m (r + 1)) m) ∧
      m ≤ l.foldl (fun m r => max m (r + 1)) m ∧
      (l.foldl (fun m r => max m (r + 1)) m = m ∨
        ∃ r ∈ l, l.foldl (fun m r => max m (r + 1)) m = r + 1) := by
  induction l generalizing m with
  | nil => exact ⟨nofun, Nat.le_refl m, .inl rfl⟩
  | cons r l ih =>
    obtain ⟨hlt, hle, hsome⟩ := ih (max m (r + 1))
    rw [List.foldl_cons]
    refine ⟨fun r' hmem => ?_, by omega, ?_⟩
    · rcases List.mem_cons.1 hmem with rfl | hmem
      · omega
      · exact hlt r' hmem
    · rcases hsome with hsame | ⟨r', hmem, heq⟩
      · rcases Nat.le_total m (r + 1) with hm | hm
        · exact .inr ⟨r, List.mem_cons_self, by rw [hsame, Nat.max_eq_right hm]⟩
        · exact .inl (by rw [hsame, Nat.max_eq_left hm])
      · exact .inr ⟨r', List.mem_cons_of_mem _ hmem, heq⟩

theorem countsRules (t : Table) : t.toArrays.CountsRules t.ruleCount := by
  have hmem {r : Nat} : r ∈ t.accept.toList.filterMap Cell.number? ↔
      ∃ (s : Nat) (rule : Entry), t.accept[s]? = some (some rule) ∧ rule.val = r := by
    rw [List.mem_filterMap]
    simp only [List.mem_iff_getElem?, Array.getElem?_toList, Cell.number?, Option.map_eq_some_iff]
    constructor
    · intro ⟨_, ⟨s, hs⟩, rule, hrule, hr⟩
      subst hrule
      exact ⟨s, rule, hs, hr⟩
    · intro ⟨s, rule, hs, hr⟩
      exact ⟨_, ⟨s, hs⟩, rule, rfl, hr⟩
  obtain ⟨hlt, -, hsome⟩ := foldl_max_succ (t.accept.toList.filterMap Cell.number?) 0
  refine ⟨fun s rule hs => hlt _ (hmem.2 ⟨s, rule, hs, rfl⟩), hsome.imp id fun ⟨r, hr, heq⟩ => ?_⟩
  obtain ⟨s, rule, hs, rfl⟩ := hmem.1 hr
  exact ⟨s, rule, hs, heq⟩

/-- Every count of rules is a word of 32 bits. -/
theorem ruleCount_le (t : Table) : t.ruleCount ≤ Cell.absentWord := by
  rcases t.countsRules.greatest with hzero | ⟨s, rule, -, heq⟩
  · rw [hzero]
    exact Nat.zero_le _
  · rw [heq]
    exact rule.isLt

theorem ofArrays_eq_error_iff {a : Arrays} {e : TableError} :
    ofArrays a = .error e ↔ a.FirstViolation e := by
  rw [← Arrays.defect?_eq_some_iff]
  unfold ofArrays
  split
  · next h => simp [h]
  · next e' h => simp [h]

/-- **Exactly the valid arrays make up tables.** These hold the arrays as they are and count one rule
more than the greatest, which is a word of 32 bits still. All other arrays get the complaint about
the first violation. -/
theorem ofArrays_exact (a : Arrays) :
    ((∃ t, ofArrays a = .ok t) ↔ a.Valid) ∧
      (∀ t, ofArrays a = .ok t →
        t.toArrays = a ∧ a.CountsRules t.ruleCount ∧ t.ruleCount ≤ Cell.absentWord) ∧
      ∀ e, ofArrays a = .error e ↔ a.FirstViolation e := by
  refine ⟨⟨?_, ?_⟩, ?_, fun e => ofArrays_eq_error_iff⟩
  · intro ⟨t, ht⟩
    exact toArrays_of_ofArrays ht ▸ t.valid
  · intro h
    obtain ⟨t, ht, -⟩ := ofArrays_of_valid h
    exact ⟨t, ht⟩
  · intro t ht
    have heq := toArrays_of_ofArrays ht
    exact ⟨heq, heq ▸ t.countsRules, t.ruleCount_le⟩

/-- Arrays of two states with four violations: the second fallback, the owner and the target of the
second slot name no state, and the first state falls back on itself. -/
def straying : Arrays :=
  ⟨#[.ofNat 0, none], #[.ofNat 0, .ofNat 7], #[.ofNat 0, .ofNat 9], #[.ofNat 1, .ofNat 2],
    #[none, .ofNat 6]⟩

/-- The complaint is about the fallback. With that mended and the others out of the way, the arrays
make up tables that count seven rules. -/
theorem ofArrays_exact_straying :
    straying.FirstViolation (.stateOutOfRange .fallback 1 (some 7) 2) ∧
      ∃ t, ofArrays { straying with fallback := #[some 1, none], check := #[some 0, none] } = .ok t ∧
        t.ruleCount = 7 := by
  obtain ⟨-, -, herror⟩ := ofArrays_exact straying
  obtain ⟨hok, htables, -⟩ :=
    ofArrays_exact { straying with fallback := #[some 1, none], check := #[some 0, none] }
  have hdefect : Arrays.defect?
      { straying with fallback := #[some 1, none], check := #[some 0, none] } = none := by decide
  obtain ⟨t, ht⟩ := hok.2 (Arrays.defect?_eq_none_iff.1 hdefect)
  obtain ⟨harrays, -, -⟩ := htables t ht
  refine ⟨(herror _).1 (by rfl), t, ht, ?_⟩
  show (t.accept.toList.filterMap Cell.number?).foldl _ 0 = 7
  rw [harrays]
  rfl

end Table

end CombLexer
