/-
What tables of signed 16-bit numbers mean, once they are loaded.

`Decoded` reads a string of bytes as little-endian numbers in two's complement,
and `Says` reads a number as an entry, with -1 for the absent one. Loading goes
through a `Builder`, so its tables share nothing with the arrays they come from:
`SignedArrays.state_spec` says what is declared about one state, and
`SignedTables.load_meaning` what the packed tables answer for it, in terms of the
numbers alone.
-/
import CombLexer.Proofs.Table.Building
import CombLexer.Proofs.Table.SignedReading

namespace CombLexer

open Fallible

/-- Numbers are those that a string of bytes holds, two bytes each, the low one first, in two's
complement. -/
structure Decoded (bytes : Bytes) (numbers : Array Int) : Prop where
  length : bytes.length = 2 * numbers.size
  number : ∀ (i : Nat) (v : Int), numbers[i]? = some v →
    ∃ low high : UInt8, bytes[2 * i]? = some low ∧ bytes[2 * i + 1]? = some high ∧
      v % 65536 = low.toNat + 256 * high.toNat ∧ -32768 ≤ v ∧ v < 32768

/-- A string holds one array of numbers. -/
theorem Decoded.unique {bytes : Bytes} {a a' : Array Int} (h : Decoded bytes a)
    (h' : Decoded bytes a') : a = a' := by
  have hsize : a.size = a'.size := by
    have := h.length
    have := h'.length
    omega
  refine Array.ext hsize fun i hi hi' => ?_
  obtain ⟨low, high, hlow, hhigh, hv⟩ := h.number i a[i] (Array.getElem?_eq_getElem hi)
  obtain ⟨low', high', hlow', hhigh', hv'⟩ := h'.number i a'[i] (Array.getElem?_eq_getElem hi')
  obtain rfl := Option.some.inj (hlow.symm.trans hlow')
  obtain rfl := Option.some.inj (hhigh.symm.trans hhigh')
  omega

/-- What a number says where an entry is asked for: -1 that there is none. -/
inductive Says : Int → Option Nat → Prop
  | absent : Says (-1) none
  | entry (n : Nat) : Says n (some n)

/-- A number says one thing only. -/
theorem Says.unique {v : Int} {x y : Option Nat} (hx : Says v x) (hy : Says v y) : x = y := by
  generalize hw : v = w at hy
  cases hx with
  | absent =>
    cases hy with
    | absent => rfl
    | entry n => omega
  | entry n =>
    cases hy with
    | absent => omega
    | entry m => rw [Int.ofNat_inj.1 hw]

namespace SignedArrays

/-! ## Numbers -/

theorem signed16_spec (low high : UInt8) :
    Bytes.signed16 low high % 65536 = low.toNat + 256 * high.toNat ∧
      -32768 ≤ Bytes.signed16 low high ∧ Bytes.signed16 low high < 32768 := by
  have hlow : low.toNat < 256 := low.toNat_lt
  have hhigh : high.toNat < 256 := high.toNat_lt
  unfold Bytes.signed16
  rw [Int.bmod_def]
  generalize low.toNat = x at *
  generalize high.toNat = y at *
  split
  · omega
  · omega

theorem decoded_numbers {bytes : Bytes} (heven : bytes.length % 2 = 0) :
    Decoded bytes (numbers bytes).toArray := by
  fun_induction numbers bytes with
  | case1 low high rest ih =>
    have hrest := ih (by simp only [List.length_cons] at heven; omega)
    have hlength := hrest.length
    simp only [List.size_toArray] at hlength
    refine ⟨by simp only [List.length_cons, List.size_toArray]; omega, fun i v hi => ?_⟩
    rw [List.getElem?_toArray] at hi
    cases i with
    | zero =>
      obtain rfl := Option.some.inj hi
      exact ⟨low, high, rfl, rfl, signed16_spec low high⟩
    | succ i =>
      obtain ⟨low', high', hlow, hhigh, hv⟩ := hrest.number i v (by rwa [List.getElem?_toArray])
      exact ⟨low', high', hlow, hhigh, hv⟩
  | case2 bytes hshort =>
    match bytes, hshort with
    | [], _ => exact ⟨rfl, fun i v hi => by simp at hi⟩
    | [_], _ => simp at heven
    | low :: high :: rest, hshort => exact absurd rfl (hshort low high rest)

theorem numbers?_eq_ok {part : Part} {bytes : Bytes} {a : Array Int}
    (h : numbers? part bytes = .ok a) : Decoded bytes a := by
  unfold numbers? at h
  split at h
  · next heven =>
    cases h
    exact decoded_numbers heven
  · cases h

/-- The five arrays are those that the strings hold. -/
structure Decodes (a : SignedArrays) (p : SignedTables) : Prop where
  base : Decoded p.base a.base
  accept : Decoded p.accept a.accept
  fallback : Decoded p.fallback a.fallback
  transition : Decoded p.transition a.transition
  check : Decoded p.check a.check

theorem Decodes.unique {a a' : SignedArrays} {p : SignedTables} (h : a.Decodes p)
    (h' : a'.Decodes p) : a = a' := by
  obtain ⟨base, accept, fallback, transition, check⟩ := a
  obtain ⟨base', accept', fallback', transition', check'⟩ := a'
  obtain rfl : base = base' := h.base.unique h'.base
  obtain rfl : accept = accept' := h.accept.unique h'.accept
  obtain rfl : fallback = fallback' := h.fallback.unique h'.fallback
  obtain rfl : transition = transition' := h.transition.unique h'.transition
  obtain rfl : check = check' := h.check.unique h'.check
  rfl

theorem ofTables_eq_ok {p : SignedTables} {a : SignedArrays} (h : ofTables p = .ok a) :
    a.Decodes p := by
  simp only [ofTables, bind_eq_ok] at h
  obtain ⟨base, hbase, accept, haccept, fallback, hfallback, transition, htransition, check, hcheck,
    h⟩ := h
  cases h
  exact ⟨numbers?_eq_ok hbase, numbers?_eq_ok haccept, numbers?_eq_ok hfallback,
    numbers?_eq_ok htransition, numbers?_eq_ok hcheck⟩

theorem entry_eq_ok {part : Part} {i : Nat} {v : Int} {cell : Cell} (hv : v < 32768)
    (h : entry part i v = .ok cell) : Says v cell.number? := by
  unfold entry at h
  split at h
  · next hnone =>
    cases h
    exact hnone ▸ .absent
  · split at h
    · cases h
    · next hneg =>
      cases h
      obtain ⟨n, rfl⟩ := Int.eq_ofNat_of_zero_le (Int.not_lt.1 hneg)
      have hn : n < 4294967295 := by omega
      rw [Int.toNat_natCast, Cell.ofNat, dif_pos hn]
      exact .entry n

/-- What is read at a place of an array is what the number there says. -/
theorem entry_getD_eq_ok {bytes : Bytes} {numbers : Array Int} (hdec : Decoded bytes numbers)
    {part : Part} {i j : Nat} {cell : Cell} (hi : i < numbers.size)
    (h : entry part j (numbers.getD i (-1)) = .ok cell) :
    ∃ v, numbers[i]? = some v ∧ Says v cell.number? := by
  have hget := Array.getElem?_eq_getElem hi
  obtain ⟨-, -, -, -, -, -, hv⟩ := hdec.number i _ hget
  rw [Array.getD_eq_getD_getElem?, hget] at h
  exact ⟨_, hget, entry_eq_ok hv h⟩

/-! ## One state -/

/-- Where the lengths of the arrays agree, a number that is looked up for a state is there. -/
theorem checkShape_eq_ok {a : SignedArrays} (h : a.checkShape = .ok ()) :
    a.accept.size = a.base.size ∧ a.fallback.size = a.base.size ∧
      a.transition.size = a.check.size := by
  have hlength {part : Part} {expected found : Nat} (h : checkLength part expected found = .ok ()) :
      found = expected := by
    unfold checkLength at h
    split at h
    · assumption
    · cases h
  unfold checkShape at h
  split at h
  · cases h
  · simp only [bind_eq_ok] at h
    obtain ⟨⟨⟩, haccept, ⟨⟩, hfallback, ⟨⟩, htransition, -⟩ := h
    exact ⟨hlength haccept, hlength hfallback, hlength htransition⟩

/-- The number that decides on an edge of a state: that in its slot, if the slot belongs to the
state, and its fallback if not. -/
def deciding (a : SignedArrays) (s row c : Nat) : Option Int :=
  if a.check[row + c]? = some (s : Int) then a.transition[row + c]? else a.fallback[s]?

/-- The target of an edge is what the deciding number says, once the fallback is what its own says. -/
theorem target_eq_ok {a : SignedArrays} {p : SignedTables} {s row c : Nat} {otherwise cell : Cell}
    (hdec : a.Decodes p) (hsize : a.transition.size = a.check.size)
    (hotherwise : ∃ v, a.fallback[s]? = some v ∧ Says v otherwise.number?)
    (h : a.target s row otherwise c = .ok cell) :
    ∃ v, a.deciding s row c = some v ∧ Says v cell.number? := by
  unfold target at h
  unfold deciding
  split at h
  · next howner =>
    have hslot := (Array.getElem?_eq_some_iff.1 howner).1
    rw [if_pos howner]
    exact entry_getD_eq_ok hdec.transition (hsize ▸ hslot) h
  · next howner =>
    cases h
    rw [if_neg howner]
    exact hotherwise

/-- What is declared about a state: the rule of a negative base and nothing else, or an edge on
each symbol for which the deciding number is an entry. -/
theorem state_spec {a : SignedArrays} {p : SignedTables} {s : Nat} {base : Int} {d : StateDecl}
    (hdec : a.Decodes p) (hshape : a.checkShape = .ok ()) (hs : a.base[s]? = some base)
    (h : a.state s base = .ok d) :
    d.fallback = none ∧
      if base < 0 then d.accept.number? = some (-base - 1).toNat ∧ d.row = .empty
      else
        (∃ v, a.accept[s]? = some v ∧ Says v d.accept.number?) ∧
          ∀ c ≤ endOfInput, ∃ v, a.deciding s base.toNat c = some v ∧
            Says v ((d.row.get? c).map Cell.toNat) := by
  obtain ⟨haccepts, hfallbacks, htransitions⟩ := checkShape_eq_ok hshape
  have hlt : s < a.base.size := (Array.getElem?_eq_some_iff.1 hs).1
  unfold state at h
  by_cases hneg : base < 0
  · rw [if_pos hneg] at h
    cases h
    obtain ⟨-, -, -, -, -, hlow, -⟩ := hdec.base.number s base hs
    have hrule : (-base - 1).toNat < 4294967295 := by omega
    rw [if_pos hneg, Cell.ofNat, dif_pos hrule]
    exact ⟨rfl, rfl, rfl⟩
  · rw [if_neg hneg] at h ⊢
    simp only [bind_eq_ok] at h
    obtain ⟨accept, haccept, otherwise, hotherwise, targets, htargets, h⟩ := h
    cases h
    have hrule := entry_getD_eq_ok hdec.accept (haccepts ▸ hlt) haccept
    have hfallback := entry_getD_eq_ok hdec.fallback (hfallbacks ▸ hlt) hotherwise
    refine ⟨rfl, hrule, fun c hc => ?_⟩
    have hc' : c < symbolCount := Nat.lt_succ_of_le hc
    obtain ⟨cell, hcell, htarget⟩ := (mapM_eq_ok htargets).2 c c (List.getElem?_range hc')
    have hedge : ((Row.tabulate symbolCount fun c =>
        (targets.toArray[c]?).join.map some).get? c).map Cell.toNat = cell.number? := by
      rw [Row.get?_tabulate, if_pos hc', List.getElem?_toArray, hcell]
      cases cell <;> rfl
    simp only [hedge]
    exact target_eq_ok hdec htransitions hfallback htarget

/-- The automaton that arrays describe has their states, each with what is declared about it. -/
theorem builder_eq_ok {a : SignedArrays} {b : Builder} (h : a.builder = .ok b) :
    a.checkShape = .ok () ∧ b.size = a.base.size ∧
      ∀ (s : Nat) (base : Int), a.base[s]? = some base → a.state s base = .ok (b.decl s) := by
  simp only [builder, bind_eq_ok] at h
  obtain ⟨⟨⟩, hshape, states, hstates, h⟩ := h
  cases h
  obtain ⟨hlength, hall⟩ := mapM_eq_ok hstates
  refine ⟨hshape, ?_, fun s base hs => ?_⟩
  · rw [Builder.size, List.size_toArray, hlength, List.length_zipIdx, Array.length_toList]
  · have hmem : a.base.toList.zipIdx[s]? = some (base, s) := by
      rw [List.getElem?_zipIdx, Array.getElem?_toList, hs]
      simp
    obtain ⟨d, hd, hstate⟩ := hall s (base, s) hmem
    rw [Builder.decl, List.getElem?_toArray, hd]
    exact hstate

/-! ## When loading succeeds -/

/-- Arrays whose lengths fit together, and whose entries are absent or name what there is. -/
structure Proper (a : SignedArrays) : Prop where
  nonempty : 0 < a.base.size
  accept_size : a.accept.size = a.base.size
  fallback_size : a.fallback.size = a.base.size
  transition_size : a.transition.size = a.check.size
  rules : ∀ v ∈ a.accept, -1 ≤ v
  owners : ∀ v ∈ a.check, -1 ≤ v
  fallbacks : ∀ v ∈ a.fallback, -1 ≤ v ∧ v < a.base.size
  targets : ∀ v ∈ a.transition, -1 ≤ v ∧ v < a.base.size

theorem inAlphabet_of_state {a : SignedArrays} {s : Nat} {base : Int} {d : StateDecl}
    (h : a.state s base = .ok d) : d.row.InAlphabet := by
  unfold SignedArrays.state at h
  split at h
  · cases h
    exact Builder.inAlphabet_bare
  · simp only [bind_eq_ok] at h
    obtain ⟨accept, haccept, otherwise, hotherwise, targets, htargets, h⟩ := h
    cases h
    exact Row.inAlphabet_tabulate _

/-- Edges lead to states if the numbers that decide on them do. -/
theorem rowLeads_iff {a : SignedArrays} {s row : Nat} : a.RowLeads s row ↔
    ∀ c ≤ endOfInput, ∀ v, a.deciding s row c = some v → v < a.base.size := by
  constructor
  · intro h c hc v hv
    unfold deciding at hv
    split at hv
    · next howner => exact h.hits c hc howner v hv
    · next howner => exact h.misses c hc howner v hv
  · intro h
    refine ⟨fun c hc howner v hv => h c hc v ?_, fun c hc howner v hv => h c hc v ?_⟩
    · rwa [deciding, if_pos howner]
    · rwa [deciding, if_neg howner]

section
variable {a : SignedArrays} {p : SignedTables} {b : Builder} (hdec : a.Decodes p)
  (hb : a.builder = .ok b)
include hdec hb

/-- What is declared about a state, with the base that it has. -/
theorem decl_of_builder {s : Nat} (hs : s < b.size) :
    ∃ base, a.base[s]? = some base ∧ (b.decl s).row.InAlphabet ∧ (b.decl s).fallback = none ∧
      if base < 0 then (b.decl s).row = .empty
      else ∀ c ≤ endOfInput, ∃ v, a.deciding s base.toNat c = some v ∧
        Says v (((b.decl s).row.get? c).map Cell.toNat) := by
  obtain ⟨hshape, hsize, hstates⟩ := builder_eq_ok hb
  have hbase := Array.getElem?_eq_getElem (hsize ▸ hs : s < a.base.size)
  have hstate := hstates s _ hbase
  obtain ⟨hfallback, hmean⟩ := state_spec hdec hshape hbase hstate
  refine ⟨_, hbase, inAlphabet_of_state hstate, hfallback, ?_⟩
  split
  · next hneg => exact ((if_pos hneg).mp hmean).2
  · next hneg => exact ((if_neg hneg).mp hmean).2

/-- What is described can be packed if its edges lead to states. -/
theorem wellFormed_of_builder_iff : b.WellFormed ↔
    ∀ s row : Nat, a.base[s]? = some (row : Int) → a.RowLeads s row := by
  obtain ⟨hshape, hsize, -⟩ := builder_eq_ok hb
  have hsized := (builder_isOk_iff.1 ⟨b, hb⟩).1
  constructor
  · intro h s row hrow
    have hs : s < b.size := hsize ▸ (Array.getElem?_eq_some_iff.1 hrow).1
    obtain ⟨base, hbase, -, -, hmean⟩ := decl_of_builder hdec hb hs
    obtain rfl := Option.some.inj (hrow.symm.trans hbase)
    rw [if_neg (by omega), Int.toNat_natCast] at hmean
    refine rowLeads_iff.2 fun c hc v hv => ?_
    obtain ⟨v', hv', hsays⟩ := hmean c hc
    obtain rfl := Option.some.inj (hv.symm.trans hv')
    generalize hedge : ((b.decl s).row.get? c).map Cell.toNat = edge at hsays
    cases hsays with
    | absent => exact Int.lt_of_lt_of_le (by decide) (Int.natCast_nonneg _)
    | entry n =>
      obtain ⟨target, htarget, rfl⟩ := Option.map_eq_some_iff.1 hedge
      exact Int.ofNat_lt.2 (hsize ▸ h.targets s c target htarget)
  · intro h
    refine Builder.wellFormed_of_states (hsize ▸ hsized.nonempty) (fun s hs => ?_)
      (fun s hs c target hedge => ?_) (fun s hs n hback => ?_) (fun s hs => ?_)
    · obtain ⟨_, -, halphabet, -⟩ := decl_of_builder hdec hb hs
      exact halphabet
    · obtain ⟨base, hbase, halphabet, -, hmean⟩ := decl_of_builder hdec hb hs
      have hc : c ≤ endOfInput := halphabet (c, target) (Row.get?_eq_some_iff.1 hedge)
      split at hmean
      · rw [hmean] at hedge
        cases hedge
      · next hneg =>
        obtain ⟨row, rfl⟩ := Int.eq_ofNat_of_zero_le (Int.not_lt.1 hneg)
        obtain ⟨v, hv, hsays⟩ := hmean c hc
        have hlt := rowLeads_iff.1 (h s row hbase) c hc v hv
        rw [hedge] at hsays
        cases hsays
        exact hsize ▸ Int.ofNat_lt.1 hlt
    · obtain ⟨_, -, -, hfallback, -⟩ := decl_of_builder hdec hb hs
      rw [hfallback] at hback
      cases hback
    · obtain ⟨_, -, -, hfallback, -⟩ := decl_of_builder hdec hb hs
      exact Chain.ends_of_next_eq_none (by rw [Builder.next?_fallback, hfallback]; rfl)

end

/-- More than is needed: entries that no state reads are in order as well. -/
theorem Proper.wellFormed {a : SignedArrays} (h : a.Proper) : a.WellFormed where
  sized := ⟨h.nonempty, h.accept_size, h.fallback_size, h.transition_size⟩
  owners := h.owners
  reads := fun _ _ _ => ⟨fun v hv => h.rules v (Array.mem_of_getElem? hv),
    fun v hv => (h.fallbacks v (Array.mem_of_getElem? hv)).1,
    fun _ _ _ v hv => (h.targets v (Array.mem_of_getElem? hv)).1⟩
  leads := fun _ _ _ => ⟨fun _ _ _ v hv => (h.targets v (Array.mem_of_getElem? hv)).2,
    fun _ _ _ v hv => (h.fallbacks v (Array.mem_of_getElem? hv)).2⟩

end SignedArrays

namespace SignedTables

theorem fits_of_builder {p : SignedTables} {a : SignedArrays} {b : Builder} (hdec : a.Decodes p)
    (hsize : b.size = a.base.size) (hfits : p.base.length / 2 * 257 < 2147483648) : b.Fits := by
  have hlength := hdec.base.length
  have hhalf : p.base.length / 2 = a.base.size := by omega
  rw [Builder.Fits, hsize, ← hhalf]
  exact Nat.lt_trans hfits (by decide)

theorem load_of_ofTables {p : SignedTables} {a : SignedArrays}
    (ha : SignedArrays.ofTables p = .ok a) : p.load = a.builder >>= Builder.build := by
  rw [load, builder, ha]
  rfl

/-- Strings load if the arrays that they hold describe an automaton. -/
theorem load_isOk_iff {p : SignedTables} {a : SignedArrays} (ha : SignedArrays.ofTables p = .ok a)
    (hfits : p.base.length / 2 * 257 < 2147483648) : (∃ t, p.load = .ok t) ↔ a.WellFormed := by
  have hdec := SignedArrays.ofTables_eq_ok ha
  have hload := load_of_ofTables ha
  have hbuild {b : Builder} (hb : a.builder = .ok b) : (∃ t, b.build = .ok t) ↔
      ∀ s row : Nat, a.base[s]? = some (row : Int) → a.RowLeads s row :=
    (Builder.build_isOk_iff (fits_of_builder hdec (SignedArrays.builder_eq_ok hb).2.1 hfits)).trans
      (SignedArrays.wellFormed_of_builder_iff hdec hb)
  constructor
  · rintro ⟨t, ht⟩
    obtain ⟨b, hb, ht⟩ := bind_eq_ok.1 (hload ▸ ht)
    obtain ⟨hsized, howners, hreads⟩ := SignedArrays.builder_isOk_iff.1 ⟨b, hb⟩
    exact ⟨hsized, howners, hreads, (hbuild hb).1 ⟨t, ht⟩⟩
  · intro h
    obtain ⟨b, hb⟩ := SignedArrays.builder_isOk_iff.2 ⟨h.sized, h.owners, h.reads⟩
    obtain ⟨t, ht⟩ := (hbuild hb).2 h.leads
    exact ⟨t, hload ▸ bind_eq_ok.2 ⟨b, hb, ht⟩⟩

/-- Strings that hold arrays of the right lengths, with entries that name what there is, load. -/
theorem load_total {p : SignedTables} {a : SignedArrays} (ha : SignedArrays.ofTables p = .ok a)
    (h : a.Proper) (hfits : p.base.length / 2 * 257 < 2147483648) : ∃ t, p.load = .ok t :=
  (load_isOk_iff ha hfits).2 h.wellFormed

/-- **Loaded tables keep the meaning of the numbers.** They have no fallbacks. A state with a
negative base accepts the rule that it marks and has no edges. Any other accepts what its entry
says, and for each symbol its edge, which is what the symbol is resolved to, leads where the
deciding number says: the target in its slot if the slot belongs to the state, and the fallback in
every other case. -/
theorem load_meaning {p : SignedTables} {t : Table} (h : p.load = .ok t)
    (hfits : p.base.length / 2 * 257 < 2147483648) :
    ∃ a : SignedArrays, a.Decodes p ∧ t.size = a.base.size ∧
      ∀ (s : Nat) (base : Int), a.base[s]? = some base →
        t.fallback? s = none ∧
          if base < 0 then t.rule? s = some (-base - 1).toNat ∧ ∀ c, t.edge? s c = none
          else
            (∃ v, a.accept[s]? = some v ∧ Says v (t.rule? s)) ∧
              ∀ c ≤ endOfInput, t.resolve? s c = t.edge? s c ∧
                if a.check[base.toNat + c]? = some (s : Int) then
                  ∃ v, a.transition[base.toNat + c]? = some v ∧ Says v (t.edge? s c)
                else ∃ v, a.fallback[s]? = some v ∧ Says v (t.edge? s c) := by
  simp only [load, builder, bind_eq_ok] at h
  obtain ⟨b, ⟨a, ha, hb⟩, ht⟩ := h
  have hdec := SignedArrays.ofTables_eq_ok ha
  obtain ⟨hshape, hsize, hstates⟩ := SignedArrays.builder_eq_ok hb
  have hsmall := fits_of_builder hdec hsize hfits
  refine ⟨a, hdec, (Builder.size_of_build ht).trans hsize, fun s base hs => ?_⟩
  obtain ⟨hfallback, hstate⟩ := SignedArrays.state_spec hdec hshape hs (hstates s base hs)
  have hlast : t.fallback? s = none := by rw [Builder.fallback?_of_build ht, hfallback]; rfl
  refine ⟨hlast, ?_⟩
  rw [Builder.rule?_of_build ht]
  by_cases hneg : base < 0
  · rw [if_pos hneg] at hstate ⊢
    refine ⟨hstate.1, fun c => ?_⟩
    rw [Builder.edge?_of_build hsmall ht, hstate.2]
    rfl
  · rw [if_neg hneg] at hstate ⊢
    refine ⟨hstate.1, fun c hc => ⟨Table.resolve?_of_last hlast, ?_⟩⟩
    rw [Builder.edge?_of_build hsmall ht]
    obtain ⟨v, hv, hsays⟩ := hstate.2 c hc
    unfold SignedArrays.deciding at hv
    split at hv
    · next howner =>
      rw [if_pos howner]
      exact ⟨v, hv, hsays⟩
    · next howner =>
      rw [if_neg howner]
      exact ⟨v, hv, hsays⟩

/-- Three states with the bases 0, -3 and 1. The third slot belongs to state 2, and its target is
absent; the fallback of that state is 0. -/
def mixedTables : SignedTables where
  base := [0, 0, 253, 255, 1, 0]
  accept := [255, 255, 255, 255, 4, 0]
  fallback := [255, 255, 255, 255, 0, 0]
  transition := [1, 0, 2, 0, 255, 255]
  check := [0, 0, 0, 0, 2, 0]

theorem load_meaning_mixedTables :
    mixedTables.base.length / 2 * 257 < 2147483648 ∧
      ∃ t, mixedTables.load = .ok t ∧ t.size = 3 ∧ t.rule? 1 = some 2 ∧ t.rule? 2 = some 4 ∧
        t.edge? 0 1 = some 2 ∧ t.edge? 2 1 = none ∧ t.resolve? 2 endOfInput = some 0 := by
  have hfits : mixedTables.base.length / 2 * 257 < 2147483648 := by decide
  have hbase : SignedArrays.numbers mixedTables.base = [0, -3, 1] := by decide +kernel
  have haccept : SignedArrays.numbers mixedTables.accept = [-1, -1, 4] := by decide +kernel
  have hfallback : SignedArrays.numbers mixedTables.fallback = [-1, -1, 0] := by decide +kernel
  have htransition : SignedArrays.numbers mixedTables.transition = [1, 2, -1] := by decide +kernel
  have hcheck : SignedArrays.numbers mixedTables.check = [0, 0, 2] := by decide +kernel
  have hok : SignedArrays.ofTables mixedTables = .ok ⟨(SignedArrays.numbers mixedTables.base).toArray,
      (SignedArrays.numbers mixedTables.accept).toArray,
      (SignedArrays.numbers mixedTables.fallback).toArray,
      (SignedArrays.numbers mixedTables.transition).toArray,
      (SignedArrays.numbers mixedTables.check).toArray⟩ := rfl
  rw [hbase, haccept, hfallback, htransition, hcheck] at hok
  have hproper : SignedArrays.Proper ⟨#[0, -3, 1], #[-1, -1, 4], #[-1, -1, 0], #[1, 2, -1],
      #[0, 0, 2]⟩ := by
    constructor <;> decide
  obtain ⟨t, h⟩ := load_total hok hproper hfits
  obtain ⟨a, hdec, hsize, hall⟩ := load_meaning h hfits
  obtain rfl := hdec.unique (SignedArrays.ofTables_eq_ok hok)
  obtain ⟨-, -, h₀⟩ := hall 0 0 rfl
  obtain ⟨-, hrule₁, -⟩ := hall 1 (-3) rfl
  obtain ⟨-, ⟨v, hv, hrule₂⟩, h₂⟩ := hall 2 1 rfl
  obtain ⟨-, v₀, hv₀, hedge₀⟩ := h₀ 1 (by decide)
  obtain ⟨-, v₂, hv₂, hedge₂⟩ := h₂ 1 (by decide)
  obtain ⟨hresolve, v₃, hv₃, hedge₃⟩ := h₂ endOfInput (by decide)
  cases hv
  cases hv₀
  cases hv₂
  cases hv₃
  refine ⟨hfits, t, h, hsize, hrule₁, hrule₂.unique (.entry 4), hedge₀.unique (.entry 2),
    hedge₂.unique .absent, hresolve.trans (hedge₃.unique (.entry 0))⟩

end SignedTables

end CombLexer
