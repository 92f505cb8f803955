/-
When declarations make no tables, and which complaint they get.

`Declared.WellFormed` says what can be built, and `Builder.Complaint` which error
stands for what cannot: a symbol out of range before everything else, then a
fallback to no state, then an edge to none, then a chain of fallbacks that never
ends. Only the symbols are checked on the declarations. The other checks are those
of any five arrays and see the packed comb, so a bad edge is reported by its slot;
`Builder.defect?_arrays` says which of them can fail on a comb that was packed,
and `Builder.build_eq_error_iff` that the complaint is what `build` answers.
-/
import CombLexer.Proofs.Table.Declared
import CombLexer.Proofs.Table.Violations
import Mathlib.Data.Fintype.EquivFin
import Mathlib.Data.Fintype.Card
import Mathlib.Logic.Relation

namespace CombLexer

namespace Declared

/-! ## What can be built -/

variable (a : Declared)

/-- One state falls back on another. -/
def FallsBack (s s' : Nat) : Prop := (a.fallback s).number? = some s'

/-- The chain of fallbacks from a state comes to an end. -/
inductive Ends : Nat → Prop
  | last {s : Nat} (hlast : a.fallback s = none) : Ends s
  | behind {s s' : Nat} (hnext : a.FallsBack s s') (hrest : Ends s') : Ends s

/-- Edges are on bytes and the end of input. -/
def SymbolsFit : Prop := ∀ s c, (a.edge s c).isSome → c ≤ endOfInput

/-- Fallbacks are states. -/
def FallbacksFit : Prop := ∀ s s', a.FallsBack s s' → s' < a.size

/-- Edges lead to states. -/
def TargetsFit : Prop := ∀ s c target, a.edge s c = some target → target.toNat < a.size

/-- There are states, edges and fallbacks name only them and the symbols that there are, and no
chain of fallbacks comes back to where it began. -/
structure WellFormed : Prop where
  nonempty : 0 < a.size
  symbols : a.SymbolsFit
  fallbacks : a.FallbacksFit
  targets : a.TargetsFit
  acyclic : ∀ s, ¬ Relation.TransGen a.FallsBack s s

variable {a}

theorem FallsBack.unique {s s' s'' : Nat} (h : a.FallsBack s s') (h' : a.FallsBack s s'') :
    s' = s'' :=
  Option.some.inj (h.symm.trans h')

theorem fallback_cases (s : Nat) : a.fallback s = none ∨ ∃ s', a.FallsBack s s' := by
  cases h : a.fallback s with
  | none => exact .inl rfl
  | some e => exact .inr ⟨e.val, by rw [FallsBack, h]; rfl⟩

/-- A chain that ends does not come back to where it began. -/
theorem Ends.not_cyclic {s : Nat} (h : a.Ends s) : ¬ Relation.TransGen a.FallsBack s s := by
  induction h with
  | last hlast =>
    intro hloop
    obtain ⟨s', hnext, -⟩ := Relation.TransGen.head'_iff.1 hloop
    rw [FallsBack, hlast] at hnext
    cases hnext
  | behind hnext _ ih =>
    intro hloop
    obtain ⟨s', hnext', hback⟩ := Relation.TransGen.head'_iff.1 hloop
    obtain rfl := hnext.unique hnext'
    exact ih (.tail' hback hnext)

/-- Without a loop, every chain of states ends. -/
theorem ends_of_acyclic (hrange : a.FallbacksFit)
    (hacyclic : ∀ s, ¬ Relation.TransGen a.FallsBack s s) (s : Nat) : a.Ends s := by
  -- What lies further along a chain is less in a transitive order of finitely many states.
  let less : Fin a.size → Fin a.size → Prop := fun x y => Relation.TransGen a.FallsBack y x
  have htrans : IsTrans (Fin a.size) less := ⟨fun _ _ _ hxy hyz => hyz.trans hxy⟩
  have hirrefl : Std.Irrefl less := ⟨fun x => hacyclic x⟩
  have hwf : WellFounded less := Finite.wellFounded_of_trans_of_irrefl less
  have hstate (x : Fin a.size) : a.Ends x := by
    induction x using hwf.induction with
    | _ x ih =>
      rcases fallback_cases (a := a) x with hlast | ⟨s', hnext⟩
      · exact .last hlast
      · exact .behind hnext (ih ⟨s', hrange x s' hnext⟩ (.single hnext))
  rcases fallback_cases (a := a) s with hlast | ⟨s', hnext⟩
  · exact .last hlast
  · exact .behind hnext (hstate ⟨s', hrange s s' hnext⟩)

theorem ends_iff_acyclic (hrange : a.FallbacksFit) :
    (∀ s, a.Ends s) ↔ ∀ s, ¬ Relation.TransGen a.FallsBack s s :=
  ⟨fun h s => (h s).not_cyclic, ends_of_acyclic hrange⟩

/-! ## What is wrong -/

/-- The lowest state with an edge on a symbol out of range, and the lowest such symbol. -/
structure LowestStray (a : Declared) (s c : Nat) : Prop where
  edge : (a.edge s c).isSome
  stray : endOfInput < c
  state : ∀ s' < s, ∀ c', (a.edge s' c').isSome → c' ≤ endOfInput
  symbol : ∀ c' < c, (a.edge s c').isSome → c' ≤ endOfInput

theorem LowestStray.unique {s s' c c' : Nat} (h : a.LowestStray s c) (h' : a.LowestStray s' c') :
    s = s' ∧ c = c' := by
  have hstate {s s' c c' : Nat} (h : a.LowestStray s c) (h' : a.LowestStray s' c') : s ≤ s' := by
    refine Nat.le_of_not_lt fun hlt => ?_
    exact absurd (h.state s' hlt c' h'.edge) (Nat.not_le_of_lt h'.stray)
  obtain rfl : s = s' := Nat.le_antisymm (hstate h h') (hstate h' h)
  have hsymbol {c c' : Nat} (h : a.LowestStray s c) (h' : a.LowestStray s c') : c ≤ c' := by
    refine Nat.le_of_not_lt fun hlt => ?_
    exact absurd (h.symbol c' hlt h'.edge) (Nat.not_le_of_lt h'.stray)
  exact ⟨rfl, Nat.le_antisymm (hsymbol h h') (hsymbol h' h)⟩

/-- The lowest state with a fallback that is no state, and the fallback. -/
structure StrayFallback (a : Declared) (s : Nat) (e : Entry) : Prop where
  fallback : a.fallback s = some e
  stray : a.size ≤ e.val
  first : ∀ s' < s, ∀ s'', a.FallsBack s' s'' → s'' < a.size

/-- The lowest state whose chain of fallbacks never ends. -/
structure LowestEndless (a : Declared) (s : Nat) : Prop where
  endless : ¬ a.Ends s
  first : ∀ s' < s, a.Ends s'

end Declared

namespace Builder

variable {b : Builder}

/-- The edge of a state on a symbol lies in a slot of the comb. -/
def LiesAt (b : Builder) (s c i : Nat) : Prop :=
  ∃ base : Entry, b.packing.base[s]? = some (some base) ∧ base.val + c = i

/-- The lowest slot with an edge to no state, and what the edge leads to instead. -/
structure StrayTarget (b : Builder) (i : Nat) (target : Cell) : Prop where
  edge : ∃ s c, b.declared.edge s c = some target ∧ b.LiesAt s c i
  stray : b.size ≤ target.toNat
  first : ∀ s c i' target', b.declared.edge s c = some target' → b.LiesAt s c i' → i' < i →
    target'.toNat < b.size

/-- The complaint that declarations get, each with what must not be wrong for it to be reached. -/
inductive Complaint (b : Builder) : TableError → Prop
  | symbol {s c : Nat} (h : b.declared.LowestStray s c) : Complaint b (.symbolOutOfRange s c)
  | empty (h : b.size = 0) : Complaint b .empty
  | fallback {s : Nat} {e : Entry} (hsymbols : b.declared.SymbolsFit)
      (h : b.declared.StrayFallback s e) :
      Complaint b (.stateOutOfRange .fallback s (some e) b.size)
  | target {i : Nat} {target : Cell} (hsymbols : b.declared.SymbolsFit)
      (hfallbacks : b.declared.FallbacksFit) (h : b.StrayTarget i target) :
      Complaint b (.stateOutOfRange .transition i target b.size)
  | endless {s : Nat} (hsymbols : b.declared.SymbolsFit) (hfallbacks : b.declared.FallbacksFit)
      (htargets : b.declared.TargetsFit) (h : b.declared.LowestEndless s) :
      Complaint b (.fallbackCycle s)

/-! ## Symbols -/

theorem edge_of_le {s : Nat} (h : b.size ≤ s) (c : Nat) : b.declared.edge s c = none := by
  show (b.decl s).row.get? c = none
  rw [decl_of_le h]
  rfl

theorem fallback_of_le {s : Nat} (h : b.size ≤ s) : b.declared.fallback s = none :=
  congrArg StateDecl.fallback (decl_of_le h)

theorem inAlphabet_iff {row : Row} :
    row.InAlphabet ↔ ∀ c, (row.get? c).isSome → c ≤ endOfInput := by
  constructor
  · intro h c hc
    obtain ⟨target, htarget⟩ := Option.isSome_iff_exists.1 hc
    exact h (c, target) (Row.get?_eq_some_iff.1 htarget)
  · intro h e he
    exact h e.1 (Option.isSome_iff_exists.2 ⟨e.2, Row.get?_eq_some_iff.2 he⟩)

theorem symbolsFit_iff : b.declared.SymbolsFit ↔ ∀ s, (b.decl s).row.InAlphabet :=
  forall_congr' fun _ => inAlphabet_iff.symm

/-- What is found in a row is its lowest symbol out of range. -/
theorem strayIn?_spec {row : Row} {c : Nat} (h : strayIn? row = some c) :
    (row.get? c).isSome ∧ endOfInput < c ∧
      ∀ c' < c, (row.get? c').isSome → c' ≤ endOfInput := by
  obtain ⟨⟨_, target⟩, hfind, rfl⟩ := Option.map_eq_some_iff.1 h
  obtain ⟨hstray, before, behind, hentries, hbefore⟩ := List.find?_eq_some_iff_append.1 hfind
  have hmem : (_, target) ∈ row.entries := hentries ▸ List.mem_append_right _ List.mem_cons_self
  refine ⟨Option.isSome_iff_exists.2 ⟨target, Row.get?_eq_some_iff.2 hmem⟩,
    of_decide_eq_true hstray, fun c' hlt hc' => ?_⟩
  obtain ⟨target', htarget'⟩ := Option.isSome_iff_exists.1 hc'
  have hmem' := Row.get?_eq_some_iff.1 htarget'
  have hrising := row.rising
  rw [hentries] at hmem' hrising
  -- A lower symbol stands before the one that is found, so it was looked at.
  rcases List.mem_append.1 hmem' with hin | hin
  · simpa using hbefore _ hin
  · rcases List.mem_cons.1 hin with heq | hin
    · cases heq
      exact absurd hlt (Nat.lt_irrefl _)
    · have hlater := (List.pairwise_cons.1 (List.pairwise_append.1 hrising).2.1).1 _ hin
      exact absurd hlater (Nat.lt_asymm hlt)

/-- The first entry of a list from which something comes. -/
theorem findSome?_eq_some_iff_getElem? {α β : Type} {l : List α} {f : α → Option β} {y : β} :
    l.findSome? f = some y ↔ ∃ (i : Nat) (x : α), l[i]? = some x ∧ f x = some y ∧
      ∀ j < i, ∀ z, l[j]? = some z → f z = none := by
  constructor
  · intro h
    obtain ⟨before, x, behind, rfl, hy, hbefore⟩ := List.findSome?_eq_some_iff.1 h
    refine ⟨before.length, x, by simp, hy, fun j hj z hz => hbefore z ?_⟩
    rw [List.getElem?_append_left hj] at hz
    exact List.mem_of_getElem? hz
  · rintro ⟨i, x, hx, hy, hbefore⟩
    obtain ⟨hi, rfl⟩ := List.getElem?_eq_some_iff.1 hx
    refine List.findSome?_eq_some_iff.2 ⟨l.take i, l[i], l.drop (i + 1), ?_, hy, fun z hz => ?_⟩
    · rw [List.getElem_cons_drop, List.take_append_drop]
    · obtain ⟨j, hj⟩ := List.mem_iff_getElem?.1 hz
      rw [List.getElem?_take] at hj
      split at hj
      · next hlt => exact hbefore j hlt z hj
      · cases hj

/-- The first entry of a list from which something comes, together with its index. -/
theorem findSome?_zipIdx_eq_some_iff {α β : Type} {l : List α} {f : α → Nat → Option β} {y : β} :
    l.zipIdx.findSome? (fun (x, i) => f x i) = some y ↔
      ∃ (i : Nat) (x : α), l[i]? = some x ∧ f x i = some y ∧
        ∀ j < i, ∀ z, l[j]? = some z → f z j = none := by
  have hget (j k : Nat) (z : α) : l.zipIdx[j]? = some (z, k) ↔ l[j]? = some z ∧ k = j := by
    rw [List.getElem?_zipIdx]
    cases l[j]? <;> simp [eq_comm]
  rw [findSome?_eq_some_iff_getElem?]
  simp only [Prod.exists, Prod.forall, hget]
  constructor
  · rintro ⟨i, x, _, ⟨hx, rfl⟩, hy, hbefore⟩
    exact ⟨_, x, hx, hy, fun j hj z hz => hbefore j hj z j ⟨hz, rfl⟩⟩
  · rintro ⟨i, x, hx, hy, hbefore⟩
    exact ⟨i, x, i, ⟨hx, rfl⟩, hy, fun j hj z k ⟨hz, hk⟩ => hk ▸ hbefore j hj z hz⟩

theorem stray?_spec {s c : Nat} (h : b.stray? = some (s, c)) : b.declared.LowestStray s c := by
  obtain ⟨i, d, hd, hy, hbefore⟩ := (findSome?_zipIdx_eq_some_iff
    (l := b.states.toList) (f := fun d i => (strayIn? d.row).map (i, ·))).1 h
  obtain ⟨c', hc', heq⟩ := Option.map_eq_some_iff.1 hy
  cases heq
  have hdecl (s : Nat) (d : StateDecl) (hd : b.states.toList[s]? = some d) : b.decl s = d := by
    rw [decl, ← Array.getElem?_toList, hd]
    rfl
  obtain ⟨hedge, hstray, hlowest⟩ := strayIn?_spec hc'
  rw [← hdecl s d hd] at hedge hlowest
  refine ⟨hedge, hstray, fun s' hlt c' hc' => ?_, hlowest⟩
  have hs' : s' < b.states.toList.length :=
    Nat.lt_trans hlt (List.getElem?_eq_some_iff.1 hd).1
  have hd' := List.getElem?_eq_getElem hs'
  have hnone := Option.map_eq_none_iff.1 (hbefore s' hlt _ hd')
  rw [← hdecl s' _ hd'] at hnone
  have halphabet : (b.decl s').row.InAlphabet := by
    simpa [strayIn?, Row.InAlphabet] using hnone
  exact inAlphabet_iff.1 halphabet c' hc'

theorem stray?_eq_some_iff {s c : Nat} : b.stray? = some (s, c) ↔ b.declared.LowestStray s c := by
  refine ⟨stray?_spec, fun h => ?_⟩
  cases hfound : b.stray? with
  | none =>
    have hall := symbolsFit_iff.2 (stray?_eq_none_iff.1 hfound)
    exact absurd (hall s c h.edge) (Nat.not_le_of_lt h.stray)
  | some x =>
    obtain ⟨rfl, rfl⟩ := (stray?_spec hfound).unique h
    rfl

/-! ## Fallbacks, targets and chains -/

theorem ends_iff (s : Nat) :
    Chain.Ends (b.states.map StateDecl.fallback) s ↔ b.declared.Ends s := by
  have hnext (s s' : Nat) : Chain.next? (b.states.map StateDecl.fallback) s = some s' ↔
      b.declared.FallsBack s s' := by
    rw [next?_fallback]
    rfl
  constructor
  · rintro ⟨n, hn⟩
    induction n generalizing s with
    | zero => cases hn
    | succ n ih =>
      rcases Declared.fallback_cases (a := b.declared) s with hlast | ⟨s', hs'⟩
      · exact .last hlast
      · rw [Chain.along?, (hnext s s').2 hs'] at hn
        exact .behind hs' (ih s' hn)
  · intro h
    induction h with
    | last hlast =>
      refine Chain.ends_of_next_eq_none ?_
      rw [next?_fallback]
      exact congrArg Cell.number? hlast
    | behind hs' _ ih => exact (Chain.ends_iff_of_next ((hnext _ _).2 hs')).2 ih

theorem fallsBack_iff {s s' : Nat} :
    b.declared.FallsBack s s' ↔ ∃ e : Entry, (b.decl s).fallback = some e ∧ e.val = s' :=
  Option.map_eq_some_iff

/-- What makes tables, said of the declared automaton. -/
theorem wellFormed_iff : b.WellFormed ↔ b.declared.WellFormed := by
  have hfallbacks : (∀ s (e : Entry), (b.decl s).fallback = some e → e.val < b.size) ↔
      b.declared.FallbacksFit := by
    simp only [Declared.FallbacksFit, fallsBack_iff]
    exact ⟨fun h s s' ⟨e, he, hs'⟩ => hs' ▸ h s e he, fun h s e he => h s e.val ⟨e, he, rfl⟩⟩
  constructor
  · intro h
    have hfit := hfallbacks.1 h.fallbacks
    exact ⟨h.nonempty, symbolsFit_iff.2 h.alphabet, hfit, h.targets,
      (Declared.ends_iff_acyclic hfit).1 fun s => (ends_iff s).1 (h.ends s)⟩
  · intro h
    exact ⟨h.nonempty, symbolsFit_iff.1 h.symbols, h.targets, hfallbacks.2 h.fallbacks,
      fun s => (ends_iff s).2 (Declared.ends_of_acyclic h.fallbacks h.acyclic s)⟩

/-! ## Which complaint it is -/

theorem fallback_arrays_iff {s : Nat} {e : Entry} :
    b.arrays.fallback[s]? = some (some e) ↔ b.declared.fallback s = some e := by
  rw [← Option.join_eq_some_iff]
  exact Eq.congr_left (join_map_states rfl s)

/-- The edges are found in the slots that have an owner. -/
theorem slot_iff (hholds : b.packing.Holds fun s c target => (b.decl s).row.get? c = some target)
    (hfits : b.Fits) {i : Nat} {target : Cell} :
    b.arrays.transition[i]? = some target ∧ (b.arrays.check[i]?).join.isSome ↔
      ∃ s c, b.declared.edge s c = some target ∧ b.LiesAt s c i := by
  constructor
  · rintro ⟨htarget, howned⟩
    obtain ⟨owner, howner⟩ := Option.isSome_iff_exists.1 howned
    obtain ⟨base, c, target', hbase, rfl, hedge⟩ := (check_eq_some_iff hholds).1 howner
    have hsame := transition_of_edge hholds hbase hedge
    rw [htarget, Option.join_some] at hsame
    exact ⟨owner.val, c, hsame ▸ hedge, base, hbase, rfl⟩
  · rintro ⟨s, c, hedge, base, hbase, rfl⟩
    obtain ⟨owner, -, howner⟩ := check_of_edge hholds hfits hbase hedge
    have hin : base.val + c < b.arrays.transition.size := by
      have hlt := (Array.getElem?_eq_some_iff.1 (Option.join_eq_some_iff.1 howner)).1
      exact Nat.lt_of_lt_of_eq hlt (Array.size_map.trans Array.size_map.symm)
    have htarget := transition_of_edge hholds hbase hedge
    rw [Array.getElem?_eq_getElem hin] at htarget ⊢
    exact ⟨congrArg some htarget, Option.isSome_iff_exists.2 ⟨owner, howner⟩⟩

/-- Of the checks of any five arrays, only those of the fallbacks, of the targets and of the chains
can fail on what has been packed. -/
theorem defect?_arrays (hfits : b.Fits) (halphabet : ∀ s, (b.decl s).row.InAlphabet) :
    b.arrays.defect? = if b.size = 0 then some .empty else
      (b.arrays.stateDefect? .fallback fun _ cell => cell.isSome).or
        ((b.arrays.stateDefect? .transition fun i _ => (b.arrays.check[i]?).join.isSome).or
          ((Chain.firstEndless? b.arrays.fallback).map .fallbackCycle)) := by
  have hsize : b.arrays.size = b.size := size_arrays
  have hfallback : b.arrays.lengthDefect? .fallback b.arrays.size = none :=
    Arrays.lengthDefect?_eq_none_iff.2 (Array.size_map.trans hsize.symm)
  have haccept : b.arrays.lengthDefect? .accept b.arrays.size = none :=
    Arrays.lengthDefect?_eq_none_iff.2 (Array.size_map.trans hsize.symm)
  have htransition : b.arrays.lengthDefect? .transition b.arrays.check.size = none :=
    Arrays.lengthDefect?_eq_none_iff.2 (Array.size_map.trans Array.size_map.symm)
  have hstates : b.arrays.sizeDefect? = none :=
    Arrays.sizeDefect?_eq_none_iff.2 (hsize ▸ hfits.size_lt)
  have hcheck : b.arrays.stateDefect? .check (fun _ cell => cell.isSome) = none := by
    refine Arrays.stateDefect?_isSome_eq_none_iff.2 fun i owner howner => ?_
    obtain ⟨base, _, _, hbase, -⟩ :=
      (check_eq_some_iff (packing_holds hfits halphabet)).1 (Option.join_eq_some_iff.2 howner)
    exact (Array.getElem?_eq_some_iff.1 hbase).1
  rw [Arrays.defect?, hfallback, haccept, htransition, hstates, hcheck, hsize]
  simp only [Option.orElse_eq_orElse, Option.orElse_eq_or, Option.none_or]

theorem fallbackDefect_eq_some_iff {e : TableError} :
    (b.arrays.stateDefect? .fallback fun _ cell => cell.isSome) = some e ↔
      ∃ s entry, b.declared.StrayFallback s entry ∧
        e = .stateOutOfRange .fallback s (some entry) b.size := by
  have hsize : b.arrays.size = b.declared.size := size_arrays
  rw [Arrays.stateDefect?_eq_some_iff]
  constructor
  · rintro ⟨hcell, hmatters, hstray, hfirst⟩
    obtain ⟨entry, rfl⟩ := Option.isSome_iff_exists.1 hmatters
    rw [hsize] at hstray hfirst ⊢
    refine ⟨_, entry, ⟨fallback_arrays_iff.1 hcell, hstray, fun s' hlt s'' hs'' => ?_⟩, rfl⟩
    obtain ⟨entry', hentry', rfl⟩ := fallsBack_iff.1 hs''
    exact hfirst s' hlt (some entry') (fallback_arrays_iff.2 hentry') rfl
  · rintro ⟨s, entry, ⟨hentry, hstray, hfirst⟩, rfl⟩
    rw [← hsize] at hstray hfirst
    rw [← size_arrays]
    refine .intro (fallback_arrays_iff.2 hentry) rfl hstray fun j hj earlier hcell hsome => ?_
    obtain ⟨entry', rfl⟩ := Option.isSome_iff_exists.1 hsome
    exact hfirst j hj _ (fallsBack_iff.2 ⟨entry', fallback_arrays_iff.1 hcell, rfl⟩)

theorem fallbackDefect_eq_none_iff :
    (b.arrays.stateDefect? .fallback fun _ cell => cell.isSome) = none ↔
      b.declared.FallbacksFit := by
  rw [Arrays.stateDefect?_isSome_eq_none_iff, size_arrays]
  constructor
  · intro h s s' hs'
    obtain ⟨entry, hentry, rfl⟩ := fallsBack_iff.1 hs'
    exact h s entry (fallback_arrays_iff.2 hentry)
  · intro h s entry hentry
    exact h s _ (fallsBack_iff.2 ⟨entry, fallback_arrays_iff.1 hentry, rfl⟩)

theorem targetDefect_eq_some_iff (hfits : b.Fits) (halphabet : ∀ s, (b.decl s).row.InAlphabet)
    {e : TableError} :
    (b.arrays.stateDefect? .transition fun i _ => (b.arrays.check[i]?).join.isSome) = some e ↔
      ∃ i target, b.StrayTarget i target ∧ e = .stateOutOfRange .transition i target b.size := by
  have hslot {i : Nat} {target : Cell} :
      b.arrays.transition[i]? = some target ∧ (b.arrays.check[i]?).join.isSome ↔
        ∃ s c, b.declared.edge s c = some target ∧ b.LiesAt s c i :=
    slot_iff (packing_holds hfits halphabet) hfits
  rw [Arrays.stateDefect?_eq_some_iff]
  constructor
  · rintro ⟨hcell, hmatters, hstray, hfirst⟩
    refine ⟨_, _, ⟨hslot.1 ⟨hcell, hmatters⟩, size_arrays ▸ hstray,
      fun s c i' target' hedge hlies hlt => ?_⟩, by rw [size_arrays]⟩
    obtain ⟨hcell', howned'⟩ := hslot.2 ⟨s, c, hedge, hlies⟩
    exact size_arrays ▸ hfirst i' hlt target' hcell' howned'
  · rintro ⟨i, target, ⟨hedge, hstray, hfirst⟩, rfl⟩
    rw [← size_arrays] at hstray hfirst ⊢
    obtain ⟨hcell, howned⟩ := hslot.2 hedge
    refine .intro hcell howned hstray fun j hj earlier hcell' howned' => ?_
    obtain ⟨s, c, hedge', hlies⟩ := hslot.1 ⟨hcell', howned'⟩
    exact hfirst s c j earlier hedge' hlies hj

theorem targetDefect_eq_none_iff (hfits : b.Fits) (halphabet : ∀ s, (b.decl s).row.InAlphabet) :
    (b.arrays.stateDefect? .transition fun i _ => (b.arrays.check[i]?).join.isSome) = none ↔
      b.declared.TargetsFit := by
  have hholds := packing_holds hfits halphabet
  rw [Arrays.stateDefect?_eq_none_iff, size_arrays]
  constructor
  · intro h s c target hedge
    obtain ⟨base, hbase⟩ := hholds.base s c target hedge
    obtain ⟨hcell, howned⟩ := (slot_iff hholds hfits).2 ⟨s, c, hedge, base, hbase, rfl⟩
    exact h _ target hcell howned
  · intro h i target hcell howned
    obtain ⟨s, c, hedge, -⟩ := (slot_iff hholds hfits).1 ⟨hcell, howned⟩
    exact h s c target hedge

theorem endlessDefect_eq_some_iff (hrange : b.declared.FallbacksFit) {e : TableError} :
    (Chain.firstEndless? b.arrays.fallback).map .fallbackCycle = some e ↔
      ∃ s, b.declared.LowestEndless s ∧ e = .fallbackCycle s := by
  have hsize : b.arrays.fallback.size = b.arrays.size := Array.size_map.trans size_arrays.symm
  have hinRange : Chain.InRange b.arrays.fallback := (Arrays.inRange_iff hsize).2
    (Arrays.stateDefect?_isSome_eq_none_iff.1 (fallbackDefect_eq_none_iff.2 hrange))
  rw [Arrays.endlessDefect?_eq_some_iff hinRange]
  constructor
  · rintro ⟨hendless, hfirst⟩
    exact ⟨_, ⟨fun h => hendless ((ends_iff _).2 h), fun s' hlt => (ends_iff s').1 (hfirst s' hlt)⟩,
      rfl⟩
  · rintro ⟨s, ⟨hendless, hfirst⟩, rfl⟩
    exact .intro (fun h => hendless ((ends_iff s).1 h)) fun s' hlt =>
      (ends_iff s').2 (hfirst s' hlt)

theorem ofArrays_eq_error_iff {a : Arrays} {e : TableError} :
    Table.ofArrays a = .error e ↔ a.defect? = some e :=
  Table.ofArrays_eq_error_iff.trans Arrays.defect?_eq_some_iff.symm

/-- With symbols in range, the complaint is the one that the five packed arrays get. -/
theorem build_eq_error_iff_defect (h : b.stray? = none) {e : TableError} :
    b.build = .error e ↔ b.arrays.defect? = some e := by
  rw [build, h]
  exact ofArrays_eq_error_iff

/-- **The complaint that declarations get** is the one that says what is wrong with them first. -/
theorem build_eq_error_iff (hfits : b.Fits) {e : TableError} :
    b.build = .error e ↔ b.Complaint e := by
  have hreached (hsymbols : b.declared.SymbolsFit) :
      b.build = .error e ↔ b.arrays.defect? = some e :=
    build_eq_error_iff_defect (stray?_eq_none_iff.2 (symbolsFit_iff.1 hsymbols))
  constructor
  · intro h
    cases hstray : b.stray? with
    | some x =>
      rw [build, hstray] at h
      cases h
      exact .symbol (stray?_spec hstray)
    | none =>
      have halphabet := stray?_eq_none_iff.1 hstray
      have hsymbols := symbolsFit_iff.2 halphabet
      rw [build_eq_error_iff_defect hstray, defect?_arrays hfits halphabet] at h
      split at h
      · next hempty =>
        cases h
        exact .empty hempty
      · simp only [Option.or_eq_some_iff, fallbackDefect_eq_some_iff, fallbackDefect_eq_none_iff,
          targetDefect_eq_some_iff hfits halphabet, targetDefect_eq_none_iff hfits halphabet] at h
        rcases h with ⟨s, entry, hfallback, rfl⟩ |
          ⟨hrange, ⟨i, target, htarget, rfl⟩ | ⟨htargets, h⟩⟩
        · exact .fallback hsymbols hfallback
        · exact .target hsymbols hrange htarget
        · obtain ⟨s, hendless, rfl⟩ := (endlessDefect_eq_some_iff hrange).1 h
          exact .endless hsymbols hrange htargets hendless
  · intro h
    cases h with
    | symbol h => rw [build, stray?_eq_some_iff.2 h]
    | empty hempty =>
      have hsymbols : b.declared.SymbolsFit := fun s c hedge => by
        rw [edge_of_le (hempty ▸ Nat.zero_le s)] at hedge
        cases hedge
      rw [hreached hsymbols, defect?_arrays hfits (symbolsFit_iff.1 hsymbols), if_pos hempty]
    | @fallback s entry hsymbols h =>
      have hdefect := fallbackDefect_eq_some_iff.2 ⟨s, entry, h, rfl⟩
      have hnonempty : b.size ≠ 0 := fun hempty => by
        have hentry := h.fallback
        rw [fallback_of_le (hempty ▸ Nat.zero_le s)] at hentry
        cases hentry
      rw [hreached hsymbols, defect?_arrays hfits (symbolsFit_iff.1 hsymbols), if_neg hnonempty,
        hdefect, Option.some_or]
    | @target i target hsymbols hfallbacks h =>
      have halphabet := symbolsFit_iff.1 hsymbols
      have hdefect := (targetDefect_eq_some_iff hfits halphabet).2 ⟨i, target, h, rfl⟩
      have hnonempty : b.size ≠ 0 := fun hempty => by
        obtain ⟨s, c, hedge, -⟩ := h.edge
        rw [edge_of_le (hempty ▸ Nat.zero_le s)] at hedge
        cases hedge
      rw [hreached hsymbols, defect?_arrays hfits halphabet, if_neg hnonempty,
        fallbackDefect_eq_none_iff.2 hfallbacks, hdefect, Option.none_or, Option.some_or]
    | @endless s hsymbols hfallbacks htargets h =>
      have halphabet := symbolsFit_iff.1 hsymbols
      have hdefect := (endlessDefect_eq_some_iff hfallbacks).2 ⟨s, h, rfl⟩
      have hnonempty : b.size ≠ 0 := fun hempty =>
        h.endless (.last (fallback_of_le (hempty ▸ Nat.zero_le s)))
      rw [hreached hsymbols, defect?_arrays hfits halphabet, if_neg hnonempty,
        fallbackDefect_eq_none_iff.2 hfallbacks,
        (targetDefect_eq_none_iff hfits halphabet).2 htargets, hdefect, Option.none_or, Option.none_or]

end Builder

end CombLexer
