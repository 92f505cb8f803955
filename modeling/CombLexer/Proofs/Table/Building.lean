/-
The tables that a builder makes, and when it makes any.

`Builder.edge?_of_build` and its neighbours say that the tables answer what is
declared about a state, with the rows unpacked again from the comb.
`Builder.build_isOk_iff` says that tables are made exactly of declarations that
are well formed: there are states, all edges are on symbols and lead to states,
and so do the fallbacks, whose chains end. All of it is for builders whose rows,
laid one behind the other, would not make more slots than a cell can number.
-/
import CombLexer.Proofs.Table.Packing
import CombLexer.Proofs.Table.Resolving
import CombLexer.Table.Builder

namespace CombLexer.Builder

/-- What is declared about a state; nothing about one that is not there. -/
def decl (b : Builder) (s : Nat) : StateDecl := (b.states[s]?).getD .bare

/-- Declarations that make tables. -/
structure WellFormed (b : Builder) : Prop where
  nonempty : 0 < b.size
  alphabet : ∀ s, (b.decl s).row.InAlphabet
  targets : ∀ s c target, (b.decl s).row.get? c = some target → target.toNat < b.size
  fallbacks : ∀ s (e : Entry), (b.decl s).fallback = some e → e.val < b.size
  ends : ∀ s, Chain.Ends (b.states.map StateDecl.fallback) s

variable {b : Builder} {t : Table}

/-- The rows laid one behind the other have fewer slots than there are entries. -/
def Fits (b : Builder) : Prop := b.size * symbolCount < Cell.absentWord

theorem Fits.size_lt (hfits : b.Fits) : b.size < Cell.absentWord := by
  simp only [Fits, symbolCount] at hfits
  omega

theorem decl_of_le {s : Nat} (h : b.size ≤ s) : b.decl s = .bare := by
  rw [decl, Array.getElem?_eq_none h]
  rfl

theorem getElem?_states {s : Nat} (h : s < b.size) : b.states[s]? = some (b.decl s) := by
  rw [decl, Array.getElem?_eq_getElem h]
  rfl

theorem get?_bare (c : Nat) : StateDecl.bare.row.get? c = none := rfl

theorem inAlphabet_bare : StateDecl.bare.row.InAlphabet := fun _ he => nomatch he

/-- A builder's array of some field of what is declared. -/
theorem join_map_states {field : StateDecl → Cell} (hbare : field .bare = none) (s : Nat) :
    ((b.states.map field)[s]?).join = field (b.decl s) := by
  rw [Array.getElem?_map, decl]
  cases b.states[s]? with
  | none => exact hbare.symm
  | some d => rfl

theorem next?_fallback (s : Nat) :
    Chain.next? (b.states.map StateDecl.fallback) s = (b.decl s).fallback.number? := by
  rw [Chain.next?, join_map_states rfl]
  rfl

/-- Of a state that is not there nothing is declared, so what makes tables is to be shown of the
others alone. -/
theorem wellFormed_of_states (hnonempty : 0 < b.size)
    (halphabet : ∀ s < b.size, (b.decl s).row.InAlphabet)
    (htargets : ∀ s < b.size, ∀ c target,
      (b.decl s).row.get? c = some target → target.toNat < b.size)
    (hfallbacks : ∀ s < b.size, ∀ n, (b.decl s).fallback.number? = some n → n < b.size)
    (hends : ∀ s < b.size, Chain.Ends (b.states.map StateDecl.fallback) s) : b.WellFormed := by
  have hbare {s : Nat} (hs : ¬ s < b.size) : b.decl s = .bare := decl_of_le (Nat.le_of_not_lt hs)
  refine ⟨hnonempty, fun s => ?_, fun s c target hc => ?_, fun s e he => ?_, fun s => ?_⟩
  · by_cases hs : s < b.size
    · exact halphabet s hs
    · rw [hbare hs]
      exact inAlphabet_bare
  · by_cases hs : s < b.size
    · exact htargets s hs c target hc
    · rw [hbare hs] at hc
      cases hc
  · by_cases hs : s < b.size
    · exact hfallbacks s hs e.val (by rw [he]; rfl)
    · rw [hbare hs] at he
      cases he
  · by_cases hs : s < b.size
    · exact hends s hs
    · exact Chain.ends_of_next_eq_none (by rw [next?_fallback, hbare hs]; rfl)

/-! ## The packed rows -/

theorem stray?_eq_none_iff : b.stray? = none ↔ ∀ s, (b.decl s).row.InAlphabet := by
  have hrow (row : Row) : strayIn? row = none ↔ row.InAlphabet := by
    simp [strayIn?, Row.InAlphabet]
  rw [stray?, List.findSome?_eq_none_iff]
  constructor
  · intro h s
    by_cases hs : s < b.size
    · have hmem : (b.decl s, s) ∈ b.states.toList.zipIdx := by
        rw [List.mk_mem_zipIdx_iff_getElem?, Array.getElem?_toList]
        exact getElem?_states hs
      exact (hrow _).1 (Option.map_eq_none_iff.1 (h _ hmem))
    · rw [decl_of_le (Nat.le_of_not_lt hs)]
      exact inAlphabet_bare
  · rintro h ⟨d, s⟩ hmem
    rw [List.mk_mem_zipIdx_iff_getElem?, Array.getElem?_toList] at hmem
    have hd : b.decl s = d := by rw [decl, hmem]; rfl
    exact Option.map_eq_none_iff.2 ((hrow _).2 (hd ▸ h s))

theorem size_arrays : b.arrays.size = b.size := by
  show b.packing.base.size = b.states.size
  rw [packing, Packing.size_base_ofRows, List.length_map, Array.length_toList]

theorem rows_inAlphabet (halphabet : ∀ s, (b.decl s).row.InAlphabet) :
    ∀ row ∈ b.states.toList.map StateDecl.row, row.InAlphabet := by
  intro row hrow
  obtain ⟨d, hd, rfl⟩ := List.mem_map.1 hrow
  obtain ⟨s, hs⟩ := List.getElem?_of_mem hd
  rw [Array.getElem?_toList] at hs
  have heq : b.decl s = d := by rw [decl, hs]; rfl
  exact heq ▸ halphabet s

/-- The comb holds what is declared. -/
theorem packing_holds (hfits : b.Fits) (halphabet : ∀ s, (b.decl s).row.InAlphabet) :
    b.packing.Holds fun s c target => (b.decl s).row.get? c = some target := by
  have hall : b.packing.Holds _ := Packing.ofRows_holds (rows_inAlphabet halphabet) ?_
  · refine hall.congr fun s c target => ?_
    rw [List.getElem?_map, Array.getElem?_toList, decl]
    cases b.states[s]? with
    | none => simp [get?_bare]
    | some d => simp
  · rw [List.length_map, Array.length_toList]
    exact hfits

section
variable {edges : Nat → Nat → Cell → Prop} (hholds : b.packing.Holds edges)

include hholds in
/-- A slot belongs to a state exactly if it is that of one of its edges. -/
theorem check_eq_some_iff {i : Nat} {owner : Entry} :
    (b.arrays.check[i]?).join = some owner ↔
      ∃ (base : Entry) (c : Nat) (target : Cell), b.packing.base[owner.val]? = some (some base) ∧
        base.val + c = i ∧ edges owner.val c target := by
  rw [show b.arrays.check = b.packing.check from rfl, Packing.check_join]
  constructor
  · intro h
    obtain ⟨⟨s, target⟩, hslot, howner⟩ := Option.bind_eq_some_iff.1 h
    obtain ⟨base, c, hbase, hi, hedge⟩ := (hholds.slot i s target).1 hslot
    obtain rfl : owner.val = s := Cell.val_of_ofNat howner
    exact ⟨base, c, target, hbase, hi, hedge⟩
  · rintro ⟨base, c, target, hbase, hi, hedge⟩
    rw [(hholds.slot i owner.val target).2 ⟨base, c, hbase, hi, hedge⟩, Option.bind_some, Cell.ofNat,
      dif_pos owner.isLt]

include hholds in
/-- The slot of an edge belongs to its state, which is there. -/
theorem check_of_edge (hfits : b.Fits) {s c : Nat} {target : Cell} {base : Entry}
    (hbase : b.packing.base[s]? = some (some base)) (hedge : edges s c target) :
    ∃ owner : Entry, owner.val = s ∧ (b.arrays.check[base.val + c]?).join = some owner := by
  have hlt : s < b.arrays.size := (Array.getElem?_eq_some_iff.1 hbase).1
  rw [size_arrays] at hlt
  exact ⟨⟨s, Nat.lt_trans hlt hfits.size_lt⟩, rfl,
    (check_eq_some_iff hholds).2 ⟨base, c, target, hbase, rfl, hedge⟩⟩

include hholds in
/-- The slot of an edge holds its target. -/
theorem transition_of_edge {s c : Nat} {target : Cell} {base : Entry}
    (hbase : b.packing.base[s]? = some (some base)) (hedge : edges s c target) :
    (b.arrays.transition[base.val + c]?).join = target := by
  rw [show b.arrays.transition = b.packing.transition from rfl, Packing.transition_join,
    (hholds.slot _ s target).2 ⟨base, c, hbase, rfl, hedge⟩]
  rfl

end

/-! ## When tables are made -/

/-- The five arrays are valid exactly if what is declared is well formed. -/
theorem arrays_valid_iff (hfits : b.Fits) (halphabet : ∀ s, (b.decl s).row.InAlphabet) :
    b.arrays.Valid ↔ b.WellFormed := by
  have hholds := packing_holds hfits halphabet
  have hfallback (s : Nat) : (b.arrays.fallback[s]?).join = (b.decl s).fallback :=
    join_map_states rfl s
  have hbase : b.packing.base.size = b.size := size_arrays
  constructor
  · intro h
    refine ⟨size_arrays ▸ h.nonempty, halphabet, fun s c target hc => ?_, fun s e he => ?_, h.ends⟩
    · obtain ⟨base, hs⟩ := hholds.base s c target hc
      obtain ⟨owner, -, howner⟩ := check_of_edge hholds hfits hs hc
      obtain ⟨e, he, hlt⟩ := h.transition_lt _ _ (Option.join_eq_some_iff.1 howner)
      have htarget := transition_of_edge hholds hs hc
      rw [Option.join_eq_some_iff.2 he] at htarget
      rw [← htarget, ← size_arrays]
      exact hlt
    · rw [← size_arrays]
      exact h.fallback_lt s e (Option.join_eq_some_iff.1 ((hfallback s).trans he))
  · intro h
    have hsize : b.arrays.size = b.size := size_arrays
    refine ⟨?_, ?_, ?_, ?_, ?_, ?_, ?_, ?_, h.ends⟩
    · exact hsize ▸ h.nonempty
    · exact Array.size_map.trans hsize.symm
    · exact Array.size_map.trans hsize.symm
    · exact Array.size_map.trans Array.size_map.symm
    · exact hsize ▸ hfits.size_lt
    · intro s e he
      rw [hsize]
      exact h.fallbacks s e ((hfallback s).symm.trans (Option.join_eq_some_iff.2 he))
    · intro i owner howner
      obtain ⟨base, c, target, hs, -⟩ :=
        (check_eq_some_iff hholds).1 (Option.join_eq_some_iff.2 howner)
      rw [hsize, ← hbase]
      exact (Array.getElem?_eq_some_iff.1 hs).1
    · intro i owner howner
      obtain ⟨base, c, target, hs, rfl, hc⟩ :=
        (check_eq_some_iff hholds).1 (Option.join_eq_some_iff.2 howner)
      have htarget := transition_of_edge hholds hs hc
      have hlt := h.targets owner.val c target hc
      cases target with
      | none => exact absurd hlt (Nat.lt_asymm hfits.size_lt)
      | some e => exact ⟨e, Option.join_eq_some_iff.1 htarget, hsize ▸ hlt⟩

theorem build_eq_ok_iff :
    b.build = .ok t ↔ (∀ s, (b.decl s).row.InAlphabet) ∧ t.toArrays = b.arrays := by
  rw [build, ← stray?_eq_none_iff]
  cases hstray : b.stray? with
  | some stray => simp
  | none =>
    simp only [true_and]
    constructor
    · exact Table.toArrays_of_ofArrays
    · intro h
      obtain ⟨t', hok, harrays⟩ := Table.ofArrays_of_valid (h ▸ t.valid)
      rw [hok]
      cases t
      cases t'
      simp_all

/-- **Tables are made exactly of well-formed declarations.** -/
theorem build_isOk_iff (hfits : b.Fits) : (∃ t, b.build = .ok t) ↔ b.WellFormed := by
  constructor
  · rintro ⟨t, h⟩
    obtain ⟨halphabet, harrays⟩ := build_eq_ok_iff.1 h
    exact (arrays_valid_iff hfits halphabet).1 (harrays ▸ t.valid)
  · intro h
    obtain ⟨t, -, harrays⟩ := Table.ofArrays_of_valid ((arrays_valid_iff hfits h.alphabet).2 h)
    exact ⟨t, build_eq_ok_iff.2 ⟨h.alphabet, harrays⟩⟩

/-! ## What the tables answer -/

section
variable (hfits : b.Fits) (h : b.build = .ok t)
include h

theorem size_of_build : t.size = b.size := by
  rw [← size_arrays, ← (build_eq_ok_iff.1 h).2]

theorem fallback?_of_build (s : Nat) : t.fallback? s = (b.decl s).fallback.number? := by
  have hfallback : t.fallback = b.states.map StateDecl.fallback := by
    rw [(build_eq_ok_iff.1 h).2]
    rfl
  rw [Table.fallback?, Chain.next?, hfallback, join_map_states rfl]
  rfl

theorem rule?_of_build (s : Nat) : t.rule? s = (b.decl s).accept.number? := by
  have haccept : t.accept = b.states.map StateDecl.accept := by
    rw [(build_eq_ok_iff.1 h).2]
    rfl
  rw [Table.rule?, haccept, join_map_states rfl]
  rfl

include hfits in
/-- **The edges are those that are declared.** -/
theorem edge?_of_build (s c : Nat) : t.edge? s c = ((b.decl s).row.get? c).map Cell.toNat := by
  obtain ⟨halphabet, harrays⟩ := build_eq_ok_iff.1 h
  have hholds := packing_holds hfits halphabet
  have hwell := (build_isOk_iff hfits).1 ⟨t, h⟩
  have hbase : t.base = b.packing.base := by rw [harrays]; rfl
  have hcheck : t.check = b.arrays.check := by rw [harrays]
  have htransition : t.transition = b.arrays.transition := by rw [harrays]
  rw [Table.edge?, hbase, hcheck, htransition]
  cases hc : (b.decl s).row.get? c with
  | some target =>
    obtain ⟨base, hs⟩ := hholds.base s c target hc
    obtain ⟨owner, hown, howner⟩ := check_of_edge hholds hfits hs hc
    have htarget := hwell.targets s c target hc
    simp only [hs, Option.join_some, howner, Option.map_some, hown, if_true,
      transition_of_edge hholds hs hc]
    cases target with
    | none => exact absurd htarget (Nat.lt_asymm hfits.size_lt)
    | some e => rfl
  | none =>
    cases hs : (b.packing.base[s]?).join with
    | none => rfl
    | some base =>
      -- A slot of the state at that place would be that of an edge on the symbol.
      refine if_neg fun howner => ?_
      obtain ⟨owner, hown, rfl⟩ := Option.map_eq_some_iff.1 howner
      obtain ⟨base', c', target, hs', heq, hedge⟩ := (check_eq_some_iff hholds).1 hown
      have hsame : base' = base := by
        rw [hs'] at hs
        exact Option.some.inj hs
      obtain rfl : c' = c := by
        rw [hsame] at heq
        omega
      rw [hedge] at hc
      cases hc

end

end CombLexer.Builder
