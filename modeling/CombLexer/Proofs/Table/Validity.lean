/-
What it means that nothing is wrong with five arrays.

`Arrays.Valid` says it array by array, without the order in which
`Arrays.defect?` complains: lengths fit together, every entry that matters names
a state, and every fallback chain ends. `Arrays.defect?_eq_none_iff` says that
the two agree, so a `Table` is arrays that are valid (`Table.valid`), and arrays
that are valid make up tables (`Table.ofArrays_of_valid`).
-/
import CombLexer.Proofs.Table.Chains
import CombLexer.Table.Basic

namespace CombLexer

namespace Arrays

/-- Five arrays fit together and name only their own states. -/
structure Valid (a : Arrays) : Prop where
  nonempty : 0 < a.size
  fallback_size : a.fallback.size = a.size
  accept_size : a.accept.size = a.size
  transition_size : a.transition.size = a.check.size
  size_lt : a.size < Cell.absentWord
  fallback_lt : ∀ (i : Nat) (e : Entry), a.fallback[i]? = some (some e) → e.val < a.size
  check_lt : ∀ (i : Nat) (e : Entry), a.check[i]? = some (some e) → e.val < a.size
  /-- A slot that belongs to a state holds the target of an edge. -/
  transition_lt : ∀ (i : Nat) (owner : Entry), a.check[i]? = some (some owner) →
    ∃ e : Entry, a.transition[i]? = some (some e) ∧ e.val < a.size
  ends : ∀ s, Chain.Ends a.fallback s

variable {a : Arrays}

theorem inRange_iff (hsize : a.fallback.size = a.size) :
    Chain.InRange a.fallback ↔ ∀ (i : Nat) (e : Entry), a.fallback[i]? = some (some e) → e.val < a.size := by
  constructor
  · intro h i e hi
    have hnext : Chain.next? a.fallback i = some e.val := by simp [Chain.next?, hi]
    exact hsize ▸ h i e.val hnext
  · intro h s s' hnext
    obtain ⟨e, he, rfl⟩ := Option.map_eq_some_iff.1 hnext
    rw [hsize]
    exact h s e (Option.join_eq_some_iff.1 he)

theorem Valid.inRange (h : a.Valid) : Chain.InRange a.fallback :=
  (inRange_iff h.fallback_size).2 h.fallback_lt

/-! ## Single complaints -/

theorem lengthDefect?_eq_none_iff {part : Part} {expected : Nat} :
    a.lengthDefect? part expected = none ↔ (a.get part).size = expected := by
  by_cases h : (a.get part).size = expected <;> simp [lengthDefect?, h]

theorem sizeDefect?_eq_none_iff : a.sizeDefect? = none ↔ a.size < Cell.absentWord := by
  by_cases h : a.size < Cell.absentWord <;> simp [sizeDefect?, h]

theorem stateDefect?_eq_none_iff {part : Part} {matters : Nat → Cell → Bool} :
    a.stateDefect? part matters = none ↔
      ∀ (i : Nat) (cell : Cell), (a.get part)[i]? = some cell → matters i cell → cell.toNat < a.size := by
  rw [stateDefect?, Option.map_eq_none_iff, List.find?_eq_none]
  constructor
  · intro h i cell hi hmatters
    have hmem : (cell, i) ∈ (a.get part).toList.zipIdx := by
      rw [List.mk_mem_zipIdx_iff_getElem?, Array.getElem?_toList]
      exact hi
    have hgood := h (cell, i) hmem
    simp only [Bool.and_eq_true, decide_eq_true_eq, not_and] at hgood
    exact Nat.lt_of_not_le (hgood hmatters)
  · rintro h ⟨cell, i⟩ hmem hbad
    rw [List.mk_mem_zipIdx_iff_getElem?, Array.getElem?_toList] at hmem
    simp only [Bool.and_eq_true, decide_eq_true_eq] at hbad
    exact absurd (h i cell hmem hbad.1) (Nat.not_lt_of_le hbad.2)

/-- Where absent cells do not matter, the entries have to name states. -/
theorem stateDefect?_isSome_eq_none_iff {part : Part} :
    a.stateDefect? part (fun _ cell => cell.isSome) = none ↔
      ∀ (i : Nat) (e : Entry), (a.get part)[i]? = some (some e) → e.val < a.size := by
  rw [stateDefect?_eq_none_iff]
  constructor
  · intro h i e hi
    exact h i (some e) hi rfl
  · rintro h i (_ | e) hi hsome
    · cases hsome
    · exact h i e hi

/-- In a slot that belongs to a state, an absent target matters too. -/
theorem targetDefect?_eq_none_iff (hsize : a.transition.size = a.check.size)
    (hlt : a.size < Cell.absentWord) :
    a.stateDefect? .transition (fun i _ => (a.check[i]?).join.isSome) = none ↔
      ∀ (i : Nat) (owner : Entry), a.check[i]? = some (some owner) →
        ∃ e : Entry, a.transition[i]? = some (some e) ∧ e.val < a.size := by
  rw [stateDefect?_eq_none_iff]
  constructor
  · intro h i owner hi
    have hin : i < a.transition.size := by
      rw [hsize]
      exact (Array.getElem?_eq_some_iff.1 hi).1
    have hcell := Array.getElem?_eq_getElem hin
    have htarget := h i _ hcell (by simp [hi])
    rw [hcell]
    cases htrans : a.transition[i] with
    | none =>
      rw [htrans] at htarget
      exact absurd htarget (Nat.lt_asymm hlt)
    | some e =>
      rw [htrans] at htarget
      exact ⟨e, rfl, htarget⟩
  · intro h i cell hi hsome
    obtain ⟨owner, howner⟩ := Option.isSome_iff_exists.1 hsome
    obtain ⟨e, he, hlt⟩ := h i owner (Option.join_eq_some_iff.1 howner)
    have hcell : some cell = some (some e) := hi.symm.trans he
    cases hcell
    exact hlt

/-! ## All complaints -/

/-- **Arrays without a defect** are the valid ones. -/
theorem defect?_eq_none_iff : a.defect? = none ↔ a.Valid := by
  unfold defect?
  by_cases hempty : a.size = 0
  · rw [if_pos hempty]
    exact ⟨nofun, fun h => absurd hempty (Nat.ne_of_gt h.nonempty)⟩
  · rw [if_neg hempty]
    simp only [Option.orElse_eq_orElse, Option.orElse_eq_or, Option.or_eq_none_iff,
      Option.map_eq_none_iff, lengthDefect?_eq_none_iff, sizeDefect?_eq_none_iff,
      stateDefect?_isSome_eq_none_iff]
    constructor
    · rintro ⟨hfallback, haccept, htransition, hsize, hfallbacks, hchecks, htargets, hchains⟩
      have hrange := (inRange_iff hfallback).2 hfallbacks
      exact ⟨Nat.pos_of_ne_zero hempty, hfallback, haccept, htransition, hsize, hfallbacks, hchecks,
        (targetDefect?_eq_none_iff htransition hsize).1 htargets,
        (Chain.firstEndless?_eq_none_iff hrange).1 hchains⟩
    · intro h
      exact ⟨h.fallback_size, h.accept_size, h.transition_size, h.size_lt, h.fallback_lt, h.check_lt,
        (targetDefect?_eq_none_iff h.transition_size h.size_lt).2 h.transition_lt,
        (Chain.firstEndless?_eq_none_iff h.inRange).2 h.ends⟩

end Arrays

namespace Table

theorem valid (t : Table) : t.toArrays.Valid := Arrays.defect?_eq_none_iff.1 t.sound

/-- Tables hold the arrays that they are made of. -/
theorem toArrays_of_ofArrays {a : Arrays} {t : Table} (h : ofArrays a = .ok t) : t.toArrays = a := by
  unfold ofArrays at h
  split at h
  · cases h
    rfl
  · cases h

/-- The arrays of tables make up those tables again. -/
theorem ofArrays_toArrays (t : Table) : ofArrays t.toArrays = .ok t := by
  unfold ofArrays
  split
  · rfl
  · next e hdefect =>
    rw [t.sound] at hdefect
    cases hdefect

theorem ofArrays_of_valid {a : Arrays} (h : a.Valid) : ∃ t, ofArrays a = .ok t ∧ t.toArrays = a := by
  have hnone := Arrays.defect?_eq_none_iff.2 h
  exact ⟨⟨a, hnone⟩, ofArrays_toArrays ⟨a, hnone⟩, rfl⟩

end Table

end CombLexer
