/-
Where first fit puts the rows, and what that makes of the comb.

Rows are taken by falling number of edges, and rows of one length by rising state
(`Packing.order_sorted`). When a row is taken, the comb holds what the rows before
it own in the end: a slot never changes its owner, nor a state its base
(`Packing.slot?_ofRows_of_mem`). So where a row lies can be told from the finished
tables alone, as the least base at which no row before it is in the way.

Placing a row takes one slot for each edge (`Comb.taken_place`) and makes the comb
no longer than its last slot asks for (`Comb.Tight.place`). `Builder.build_firstFit`
has all of it for the tables that are built.
-/
import CombLexer.Proofs.Table.Declared
import Mathlib.Algebra.GroupWithZero.Nat
import Mathlib.Order.Bounds.Defs

namespace CombLexer

/-! ## Slots that are taken -/

namespace Comb

/-- How many slots are taken. -/
def taken (comb : Comb) : Nat := comb.countP Option.isSome

/-- The last slot is taken, if there are slots. -/
def Tight (comb : Comb) : Prop := comb.size = 0 ∨ (comb.slot? (comb.size - 1)).isSome

theorem taken_grow (comb : Comb) (size : Nat) : (comb.grow size).taken = comb.taken := by
  simp [taken, grow, Array.countP_append, Array.countP_replicate]

/-- Taking a free slot makes one more. -/
theorem taken_take {comb : Comb} {i : Nat} (hfree : comb.slot? i = none) (slot : Slot) :
    (comb.take i slot).taken = comb.taken + 1 := by
  have hin : i < (comb.grow (i + 1)).size := by
    simp only [grow, Array.size_append, Array.size_replicate]
    omega
  have hnone : (comb.grow (i + 1))[i] = none := by
    have hjoin : ((comb.grow (i + 1))[i]?).join = none := by
      rw [grow, Array.getElem?_append, Array.getElem?_replicate]
      split
      · exact hfree
      · split <;> rfl
    rwa [Array.getElem?_eq_getElem hin] at hjoin
  rw [take, Array.setIfInBounds_def, dif_pos hin, taken, Array.countP_set, hnone]
  exact congrArg (· + 1) (comb.taken_grow (i + 1))

theorem Tight.take {comb : Comb} (h : comb.Tight) (i : Nat) (slot : Slot) :
    (comb.take i slot).Tight := by
  refine .inr ?_
  rw [size_take, slot?_take]
  by_cases hlast : i = max comb.size (i + 1) - 1
  · rw [if_pos hlast]
    rfl
  · have hmax : max comb.size (i + 1) = comb.size := by omega
    rw [if_neg hlast, hmax]
    exact h.resolve_left (by omega)

/-- A row that fits takes as many slots as it has edges. -/
theorem taken_place {comb : Comb} {row : Row} {b : Nat} (owner : Nat)
    (hfits : comb.fits row b) :
    (comb.place owner row b).taken = comb.taken + row.size := by
  obtain ⟨entries, hrising⟩ := row
  have hfree : ∀ e ∈ entries, comb.slot? (b + e.1) = none := fun e he =>
    fits_iff.1 hfits e.1 e.2 (Row.get?_eq_some_iff.2 he)
  clear hfits
  simp only [place, Row.size]
  induction entries generalizing comb with
  | nil => rfl
  | cons e rest ih =>
    obtain ⟨hlt, hrest⟩ := List.pairwise_cons.1 hrising
    have hlater : ∀ e' ∈ rest, (comb.take (b + e.1) ⟨owner, e.2⟩).slot? (b + e'.1) = none := by
      intro e' he'
      have hne : b + e.1 ≠ b + e'.1 := Nat.ne_of_lt (Nat.add_lt_add_left (hlt e' he') b)
      rw [slot?_take, if_neg hne]
      exact hfree e' (List.mem_cons_of_mem _ he')
    rw [List.foldl_cons, ih hrest hlater, taken_take (hfree e List.mem_cons_self),
      List.length_cons]
    omega

theorem Tight.place {comb : Comb} (h : comb.Tight) (owner : Nat) (row : Row) (b : Nat) :
    (comb.place owner row b).Tight := by
  rw [Comb.place]
  induction row.entries generalizing comb with
  | nil => exact h
  | cons e rest ih => exact ih (h.take _ _)

end Comb

namespace Packing

/-! ## The order of the rows -/

/-- One row is taken before another: it has more edges, or as many and belongs to the lower state. -/
def Before (x y : Nat × Row) : Prop := y.2.size < x.2.size ∨ x.2.size = y.2.size ∧ x.1 < y.1

theorem precedes_iff {x y : Nat × Row} :
    precedes x y ↔ y.2.size < x.2.size ∨ x.2.size = y.2.size ∧ x.1 ≤ y.1 := by
  simp [precedes]

theorem insertInOrder_sorted (x : Nat × Row) {rows : List (Nat × Row)}
    (h : rows.Pairwise fun x y => precedes x y) :
    (insertInOrder x rows).Pairwise fun x y => precedes x y := by
  induction rows with
  | nil => exact List.pairwise_singleton _ _
  | cons y rest ih =>
    obtain ⟨hy, hrest⟩ := List.pairwise_cons.1 h
    rw [insertInOrder]
    split
    · next hxy =>
      refine List.pairwise_cons.2 ⟨fun z hz => ?_, h⟩
      rcases List.mem_cons.1 hz with rfl | hz
      · exact hxy
      · have hyz := hy z hz
        rw [precedes_iff] at *
        omega
    · next hxy =>
      refine List.pairwise_cons.2 ⟨fun z hz => ?_, ih hrest⟩
      rcases List.mem_cons.1 ((insertInOrder_perm x rest).mem_iff.1 hz) with rfl | hz
      · rw [precedes_iff] at *
        omega
      · exact hy z hz

theorem order_sorted (rows : List Row) : (order rows).Pairwise fun x y => precedes x y := by
  rw [order]
  generalize rows.zipIdx.map _ = unsorted
  induction unsorted with
  | nil => exact .nil
  | cons x rest ih => exact insertInOrder_sorted x ih

theorem nodup_split {rows : List Row} {front back : List (Nat × Row)} {x : Nat × Row}
    (hsplit : order rows = front ++ x :: back) :
    (front.map Prod.fst ++ x.1 :: back.map Prod.fst).Nodup := by
  have hnodup := nodup_order rows
  rwa [hsplit, List.map_append, List.map_cons] at hnodup

/-- The rows in front of one in the order are those that are taken before it. -/
theorem mem_front_iff {rows : List Row} {front back : List (Nat × Row)} {x : Nat × Row}
    (hsplit : order rows = front ++ x :: back) {y : Nat × Row} :
    y ∈ front ↔ rows[y.1]? = some y.2 ∧ Before y x := by
  have hsorted := order_sorted rows
  have hmem : y ∈ order rows ↔ rows[y.1]? = some y.2 := mem_order_iff
  rw [hsplit] at hsorted hmem
  have hapart := (List.pairwise_append.1 hsorted).2.2
  constructor
  · intro hy
    have hyx := hapart y hy x List.mem_cons_self
    have hne : y.1 ≠ x.1 :=
      (List.nodup_append.1 (nodup_split hsplit)).2.2 _ (List.mem_map_of_mem hy) _ List.mem_cons_self
    refine ⟨hmem.1 (List.mem_append_left _ hy), ?_⟩
    rw [precedes_iff] at hyx
    rw [Before]
    omega
  · rintro ⟨hy, hbefore⟩
    rcases List.mem_append.1 (hmem.2 hy) with hin | hin
    · exact hin
    · -- A row further back does not come before.
      have hxy : precedes x y := by
        rcases List.mem_cons.1 hin with rfl | hin
        · exact precedes_iff.2 (.inr ⟨rfl, Nat.le_refl _⟩)
        · exact (List.pairwise_cons.1 (List.pairwise_append.1 hsorted).2.1).1 y hin
      rw [precedes_iff] at hxy
      rw [Before] at hbefore
      omega

/-! ## One row after the other -/

/-- Places rows in the given order. -/
def addAll (p : Packing) (rows : List (Nat × Row)) : Packing :=
  rows.foldl (fun p (state, row) => p.add state row) p

variable {p : Packing}

theorem addAll_append (rows rows' : List (Nat × Row)) :
    p.addAll (rows ++ rows') = (p.addAll rows).addAll rows' :=
  List.foldl_append

/-- Placing other rows leaves the base of a state. -/
theorem base_addAll {rows : List (Nat × Row)} {s : Nat} (hs : s ∉ rows.map Prod.fst) :
    (p.addAll rows).base[s]? = p.base[s]? := by
  induction rows generalizing p with
  | nil => rfl
  | cons x rest ih =>
    rw [List.map_cons, List.mem_cons, not_or] at hs
    obtain ⟨hne, hrest⟩ := hs
    exact (ih hrest).trans (base_add_of_ne (Ne.symm hne))

/-- The comb that a row is placed in, as the rows before it have left it. -/
theorem front_holds {rows : List Row} {front back : List (Nat × Row)} {x : Nat × Row}
    (hsplit : order rows = front ++ x :: back) (halphabet : ∀ row ∈ rows, row.InAlphabet)
    (hsize : rows.length * symbolCount < Cell.absentWord) :
    ((start rows.length).addAll front).Holds fun s c target =>
      ∃ row, (s, row) ∈ front ∧ row.get? c = some target := by
  have hfront {y : Nat × Row} (hy : y ∈ front) : rows[y.1]? = some y.2 :=
    ((mem_front_iff hsplit).1 hy).1
  have hlength : front.length ≤ rows.length := by
    rw [← length_order, hsplit, List.length_append]
    omega
  have hall := (start_holds rows.length).addAll front (fun y hy => ?_)
    (List.nodup_append.1 (nodup_split hsplit)).1
    (fun y hy => halphabet y.2 (List.mem_of_getElem? (hfront hy)))
    (Nat.lt_of_le_of_lt (by simpa [start] using Nat.mul_le_mul_right symbolCount hlength) hsize)
  · simp only [false_or] at hall
    exact hall
  · have hlt := (List.getElem?_eq_some_iff.1 (hfront hy)).1
    simp [start, hlt]

section
variable {rows : List Row} {front back : List (Nat × Row)} {x : Nat × Row}
  (hsplit : order rows = front ++ x :: back)
include hsplit

theorem base_ofRows_of_mem {y : Nat × Row} (hy : y ∈ front) :
    (ofRows rows).base[y.1]? = ((start rows.length).addAll front).base[y.1]? := by
  have hback : y.1 ∉ (x :: back).map Prod.fst := fun hin =>
    (List.nodup_append.1 (nodup_split hsplit)).2.2 _ (List.mem_map_of_mem hy) _ hin rfl
  rw [← base_addAll (p := (start rows.length).addAll front) hback, ← addAll_append, ← hsplit]
  rfl

theorem base_ofRows_self :
    (ofRows rows).base[x.1]? = (((start rows.length).addAll front).add x.1 x.2).base[x.1]? := by
  have hback : x.1 ∉ back.map Prod.fst :=
    (List.nodup_cons.1 (List.nodup_append.1 (nodup_split hsplit)).2.1).1
  rw [← base_addAll (p := ((start rows.length).addAll front).add x.1 x.2) hback]
  show _ = (((start rows.length).addAll front).addAll (x :: back)).base[x.1]?
  rw [← addAll_append, ← hsplit]
  rfl

/-- A slot that a row before has taken stays its own, and is the only kind that a row finds taken. -/
theorem slot?_ofRows_of_mem (halphabet : ∀ row ∈ rows, row.InAlphabet)
    (hsize : rows.length * symbolCount < Cell.absentWord) {i s : Nat} {target : Cell} :
    ((start rows.length).addAll front).comb.slot? i = some ⟨s, target⟩ ↔
      (∃ row, (s, row) ∈ front) ∧ (ofRows rows).comb.slot? i = some ⟨s, target⟩ := by
  rw [(front_holds hsplit halphabet hsize).slot, (ofRows_holds halphabet hsize).slot]
  constructor
  · rintro ⟨base, c, hbase, hi, row, hmem, hedge⟩
    rw [← base_ofRows_of_mem hsplit hmem] at hbase
    exact ⟨⟨row, hmem⟩, base, c, hbase, hi, row, ((mem_front_iff hsplit).1 hmem).1, hedge⟩
  · rintro ⟨⟨row, hmem⟩, base, c, hbase, hi, row', hrow', hedge⟩
    have hrow : rows[s]? = some row := ((mem_front_iff hsplit).1 hmem).1
    cases hrow.symm.trans hrow'
    rw [base_ofRows_of_mem hsplit hmem] at hbase
    exact ⟨base, c, hbase, hi, row, hmem, hedge⟩

/-- A row fits where none of its slots belongs to a row before it in the end. -/
theorem fits_iff_ofRows (halphabet : ∀ row ∈ rows, row.InAlphabet)
    (hsize : rows.length * symbolCount < Cell.absentWord) {b : Nat} :
    ((start rows.length).addAll front).comb.fits x.2 b ↔
      ∀ c, (x.2.get? c).isSome → ∀ y ∈ front, ∀ target,
        (ofRows rows).comb.slot? (b + c) ≠ some ⟨y.1, target⟩ := by
  rw [Comb.fits_iff]
  constructor
  · intro h c hc y hy target howned
    obtain ⟨edge, hedge⟩ := Option.isSome_iff_exists.1 hc
    have htaken := (slot?_ofRows_of_mem hsplit halphabet hsize).2 ⟨⟨y.2, hy⟩, howned⟩
    rw [h c edge hedge] at htaken
    cases htaken
  · intro h c edge hedge
    refine Option.eq_none_iff_forall_ne_some.2 fun ⟨s, target⟩ htaken => ?_
    obtain ⟨⟨row, hmem⟩, howned⟩ := (slot?_ofRows_of_mem hsplit halphabet hsize).1 htaken
    exact h c (Option.isSome_iff_exists.2 ⟨edge, hedge⟩) (s, row) hmem target howned

end

/-- A row with edges lies at the least base at which no row before it owns one of its slots. -/
theorem isLeast_base {rows : List Row} (halphabet : ∀ row ∈ rows, row.InAlphabet)
    (hsize : rows.length * symbolCount < Cell.absentWord) {x : Nat × Row}
    (hx : rows[x.1]? = some x.2) (hedges : ¬ x.2.entries.isEmpty) :
    ∃ base : Entry, (ofRows rows).base[x.1]? = some (some base) ∧
      IsLeast {b : Nat | ∀ c, (x.2.get? c).isSome → ∀ y : Nat × Row, rows[y.1]? = some y.2 →
        Before y x → ∀ target, (ofRows rows).comb.slot? (b + c) ≠ some ⟨y.1, target⟩} base.val := by
  obtain ⟨front, back, hsplit⟩ := List.append_of_mem (mem_order_iff.2 hx)
  have hlt : x.1 < ((start rows.length).addAll front).base.size := by
    rw [addAll, size_base_addAll]
    simpa [start] using (List.getElem?_eq_some_iff.1 hx).1
  have hbase := base_ofRows_self hsplit
  rw [base_add_eq hedges hlt] at hbase
  obtain ⟨e, hedge⟩ : ∃ e, e ∈ x.2.entries :=
    List.exists_mem_of_ne_nil _ fun h => hedges (List.isEmpty_iff.2 h)
  obtain ⟨base, hs⟩ := (ofRows_holds halphabet hsize).base x.1 e.1 e.2
    ⟨x.2, hx, Row.get?_eq_some_iff.2 hedge⟩
  -- The base of a state with edges is present, so the cell of the least base holds it.
  have hval : base.val = ((start rows.length).addAll front).comb.firstFit x.2 :=
    Cell.val_of_ofNat (Option.some.inj (hbase.symm.trans hs))
  have hset : {b : Nat | ∀ c, (x.2.get? c).isSome → ∀ y : Nat × Row, rows[y.1]? = some y.2 →
      Before y x → ∀ target, (ofRows rows).comb.slot? (b + c) ≠ some ⟨y.1, target⟩} =
      {b | ((start rows.length).addAll front).comb.fits x.2 b} := by
    ext b
    simp only [Set.mem_ofPred_eq, fits_iff_ofRows hsplit halphabet hsize, mem_front_iff hsplit,
      and_imp]
  obtain ⟨hfits, -, hfirst⟩ := ((start rows.length).addAll front).comb.firstFit_spec x.2
  refine ⟨base, hs, ?_⟩
  rw [hset, hval]
  exact ⟨hfits, fun b hb => Nat.le_of_not_lt fun hlt => hfirst b hlt hb⟩

/-- A row without edges has no base. -/
theorem base_ofRows_of_isEmpty {rows : List Row} {x : Nat × Row} (hx : rows[x.1]? = some x.2)
    (hedges : x.2.entries.isEmpty) : (ofRows rows).base[x.1]? = some none := by
  obtain ⟨front, back, hsplit⟩ := List.append_of_mem (mem_order_iff.2 hx)
  have hfront : x.1 ∉ front.map Prod.fst := fun hin =>
    (List.nodup_append.1 (nodup_split hsplit)).2.2 _ hin _ List.mem_cons_self rfl
  have hlt : x.1 < rows.length := (List.getElem?_eq_some_iff.1 hx).1
  rw [base_ofRows_self hsplit, add_of_isEmpty hedges, base_addAll hfront]
  simp [start, hlt]

/-! ## How long the comb gets -/

theorem taken_add (s : Nat) (row : Row) : (p.add s row).comb.taken = p.comb.taken + row.size := by
  by_cases h : row.entries.isEmpty
  · rw [add_of_isEmpty h, Row.size, List.isEmpty_iff.1 h]
    rfl
  · rw [add_of_not_isEmpty h]
    exact Comb.taken_place s (p.comb.firstFit_spec row).1

theorem tight_add (h : p.comb.Tight) (s : Nat) (row : Row) : (p.add s row).comb.Tight := by
  by_cases hrow : row.entries.isEmpty
  · rwa [add_of_isEmpty hrow]
  · rw [add_of_not_isEmpty hrow]
    exact h.place s row _

theorem taken_addAll (rows : List (Nat × Row)) :
    (p.addAll rows).comb.taken = p.comb.taken + (rows.map fun x => x.2.size).sum := by
  induction rows generalizing p with
  | nil => rfl
  | cons x rest ih =>
    show ((p.add x.1 x.2).addAll rest).comb.taken = _
    rw [ih, taken_add, List.map_cons, List.sum_cons, Nat.add_assoc]

theorem tight_addAll (h : p.comb.Tight) (rows : List (Nat × Row)) : (p.addAll rows).comb.Tight := by
  induction rows generalizing p with
  | nil => exact h
  | cons x rest ih => exact ih (tight_add h x.1 x.2)

/-- As many slots are taken as there are edges. -/
theorem taken_ofRows (rows : List Row) : (ofRows rows).comb.taken = (rows.map Row.size).sum := by
  have hsum : ((order rows).map fun x => x.2.size).sum = (rows.map Row.size).sum := by
    have hperm := ((order_perm rows).map fun x => x.2.size).sum_nat
    rw [hperm, List.map_map, ← congrArg (List.map Row.size) (List.zipIdx_map_fst 0 rows),
      List.map_map]
    rfl
  show ((start rows.length).addAll (order rows)).comb.taken = _
  rw [taken_addAll, hsum]
  exact Nat.zero_add _

theorem tight_ofRows (rows : List Row) : (ofRows rows).comb.Tight :=
  tight_addAll (p := start rows.length) (.inl rfl) (order rows)

end Packing

/-! ## The tables that are built -/

/-- A slot belongs to a state. -/
def Table.Owns (t : Table) (s i : Nat) : Prop := (t.check[i]?).join.map Fin.val = some s

namespace Builder

variable {b : Builder} {t : Table}

/-- How many symbols a state has an edge on. -/
def edgeCount (b : Builder) (s : Nat) : Nat :=
  (List.range symbolCount).countP fun c => (b.declared.edge s c).isSome

/-- The row of one state is taken before that of another: it has more edges, or as many and the
state is lower. -/
def TakenBefore (b : Builder) (s' s : Nat) : Prop :=
  b.edgeCount s < b.edgeCount s' ∨ b.edgeCount s' = b.edgeCount s ∧ s' < s

/-- Tables in which the rows of a builder lie by first fit. -/
structure FirstFit (b : Builder) (t : Table) : Prop where
  /-- A state with edges lies at the least base at which no slot of an edge belongs to a state taken
  before it, and that is no further than behind the slots taken until then. -/
  base : ∀ s, b.edgeCount s ≠ 0 → ∃ base : Entry, t.base[s]? = some (some base) ∧
    IsLeast {p : Nat | ∀ c, (b.declared.edge s c).isSome → ∀ s', b.TakenBefore s' s →
      ¬ t.Owns s' (p + c)} base.val ∧
    ∀ used, (∀ s' i, b.TakenBefore s' s → t.Owns s' i → i < used) → base.val ≤ used
  /-- A state without edges has no base. -/
  noBase : ∀ s < b.size, b.edgeCount s = 0 → t.base[s]? = some none
  /-- The slots of a state are those of its edges. -/
  owns : ∀ s i, t.Owns s i ↔ ∃ (base : Entry) (c : Nat), t.base[s]? = some (some base) ∧
    base.val + c = i ∧ (b.declared.edge s c).isSome
  /-- The slot of an edge holds its target. -/
  target : ∀ s c target (base : Entry), t.base[s]? = some (some base) →
    b.declared.edge s c = some target → t.transition[base.val + c]? = some target
  /-- The other slots are free. -/
  free : ∀ i < t.slotCount, (∀ s, ¬ t.Owns s i) →
    t.check[i]? = some none ∧ t.transition[i]? = some none
  /-- As many slots are taken as edges are declared. -/
  count : t.check.countP Option.isSome = ((List.range b.size).map b.edgeCount).sum
  /-- There are slots up to the last that is taken. -/
  length : IsLeast {n : Nat | ∀ s i, t.Owns s i → i < n} t.slotCount

theorem getElem?_rows_eq_some_iff {s : Nat} {row : Row} :
    (b.states.toList.map StateDecl.row)[s]? = some row ↔ s < b.size ∧ (b.decl s).row = row := by
  rw [List.getElem?_map, Array.getElem?_toList]
  by_cases hs : s < b.size
  · simp [getElem?_states hs, hs]
  · rw [Array.getElem?_eq_none (Nat.le_of_not_lt hs)]
    simp [hs]

/-- A row holds one edge for each symbol. -/
theorem edgeCount_eq (halphabet : ∀ s, (b.decl s).row.InAlphabet) (s : Nat) :
    b.edgeCount s = (b.decl s).row.size := by
  have hperm : ((List.range symbolCount).filter fun c => ((b.decl s).row.get? c).isSome).Perm
      ((b.decl s).row.entries.map Prod.fst) := by
    refine (List.perm_ext_iff_of_nodup (List.nodup_range.filter _) ?_).2 fun c => ?_
    · exact List.pairwise_map.2 ((b.decl s).row.rising.imp Nat.ne_of_lt)
    · rw [List.mem_filter, List.mem_range, Option.isSome_iff_exists, List.mem_map]
      constructor
      · rintro ⟨-, target, hedge⟩
        exact ⟨(c, target), Row.get?_eq_some_iff.1 hedge, rfl⟩
      · rintro ⟨e, he, rfl⟩
        exact ⟨Nat.lt_succ_of_le (halphabet s e he), e.2, Row.get?_eq_some_iff.2 he⟩
  rw [edgeCount, List.countP_eq_length_filter]
  exact hperm.length_eq.trans (List.length_map _)

theorem takenBefore_iff (halphabet : ∀ s, (b.decl s).row.InAlphabet) {s s' : Nat} :
    b.TakenBefore s' s ↔ Packing.Before (s', (b.decl s').row) (s, (b.decl s).row) := by
  rw [TakenBefore, edgeCount_eq halphabet, edgeCount_eq halphabet]
  rfl

section
variable (h : b.build = .ok t)
include h

theorem base_of_build : t.base = b.packing.base := by
  rw [(build_eq_ok_iff.1 h).2]
  rfl

theorem check_of_build : t.check = b.packing.check := by
  rw [(build_eq_ok_iff.1 h).2]
  rfl

theorem transition_of_build : t.transition = b.packing.transition := by
  rw [(build_eq_ok_iff.1 h).2]
  rfl

theorem slotCount_of_build : t.slotCount = b.packing.comb.size := by
  rw [Table.slotCount, check_of_build h, Packing.check, Array.size_map]

theorem base_of_edgeCount_eq {s : Nat} (hs : s < b.size) (hedges : b.edgeCount s = 0) :
    t.base[s]? = some none := by
  rw [edgeCount_eq (build_eq_ok_iff.1 h).1] at hedges
  rw [base_of_build h]
  exact Packing.base_ofRows_of_isEmpty (x := (s, (b.decl s).row))
    (getElem?_rows_eq_some_iff.2 ⟨hs, rfl⟩) (List.isEmpty_iff_length_eq_zero.2 hedges)

end

section
variable (hfits : b.Fits) (h : b.build = .ok t)
include hfits h

/-- A slot belongs to a state in the tables exactly if it does so in the comb. -/
theorem owns_iff {s i : Nat} :
    t.Owns s i ↔ ∃ target, b.packing.comb.slot? i = some ⟨s, target⟩ := by
  have hholds := packing_holds hfits (build_eq_ok_iff.1 h).1
  rw [Table.Owns, check_of_build h]
  constructor
  · intro howns
    obtain ⟨owner, hown, rfl⟩ := Option.map_eq_some_iff.1 howns
    obtain ⟨base, c, target, hs, hi, hedge⟩ := (check_eq_some_iff hholds).1 hown
    exact ⟨target, (hholds.slot i owner.val target).2 ⟨base, c, hs, hi, hedge⟩⟩
  · rintro ⟨target, hslot⟩
    obtain ⟨base, c, hs, rfl, hedge⟩ := (hholds.slot i s target).1 hslot
    obtain ⟨owner, rfl, hown⟩ := check_of_edge hholds hfits hs hedge
    exact Option.map_eq_some_iff.2 ⟨owner, hown, rfl⟩

theorem owns_iff_edge {s i : Nat} :
    t.Owns s i ↔ ∃ (base : Entry) (c : Nat), t.base[s]? = some (some base) ∧ base.val + c = i ∧
      (b.declared.edge s c).isSome := by
  rw [owns_iff hfits h, base_of_build h]
  simp only [(packing_holds hfits (build_eq_ok_iff.1 h).1).slot, Option.isSome_iff_exists]
  constructor
  · rintro ⟨target, base, c, hs, hi, hedge⟩
    exact ⟨base, c, hs, hi, target, hedge⟩
  · rintro ⟨base, c, hs, hi, target, hedge⟩
    exact ⟨target, base, c, hs, hi, hedge⟩

theorem isLeast_base {s : Nat} (hedges : b.edgeCount s ≠ 0) :
    ∃ base : Entry, t.base[s]? = some (some base) ∧
      IsLeast {p : Nat | ∀ c, (b.declared.edge s c).isSome → ∀ s', b.TakenBefore s' s →
        ¬ t.Owns s' (p + c)} base.val := by
  have halphabet := (build_eq_ok_iff.1 h).1
  rw [edgeCount_eq halphabet] at hedges
  have hs : s < b.size := by
    refine Nat.lt_of_not_le fun hle => hedges ?_
    rw [decl_of_le hle]
    rfl
  have hrow : ¬ (b.decl s).row.entries.isEmpty := by
    rwa [List.isEmpty_iff_length_eq_zero]
  obtain ⟨base, hbase, hleast⟩ := Packing.isLeast_base (rows_inAlphabet halphabet)
    (by rw [List.length_map, Array.length_toList]; exact hfits) (x := (s, (b.decl s).row))
    (getElem?_rows_eq_some_iff.2 ⟨hs, rfl⟩) hrow
  refine ⟨base, base_of_build h ▸ hbase, ?_⟩
  convert hleast using 1
  ext p
  simp only [Set.mem_ofPred_eq, owns_iff hfits h, takenBefore_iff halphabet,
    getElem?_rows_eq_some_iff]
  constructor
  · intro hfree c hc ⟨s', row⟩ hrow hbefore target hslot
    have heq : (b.decl s').row = row := hrow.2
    subst heq
    exact hfree c hc s' hbefore ⟨target, hslot⟩
  · rintro hfree c hc s' hbefore ⟨target, hslot⟩
    have hs' : s' < b.size := by
      obtain ⟨base, c, hs', -⟩ := ((packing_holds hfits halphabet).slot _ _ _).1 hslot
      have hlt := (Array.getElem?_eq_some_iff.1 hs').1
      rwa [show b.packing.base.size = b.size from size_arrays] at hlt
    exact hfree c hc (s', (b.decl s').row) ⟨hs', rfl⟩ hbefore target hslot

/-- A slot that belongs to no state is free. -/
theorem free_of_not_owns {i : Nat} (hi : i < t.slotCount) (hfree : ∀ s, ¬ t.Owns s i) :
    t.check[i]? = some none ∧ t.transition[i]? = some none := by
  have hslot : b.packing.comb.slot? i = none :=
    Option.eq_none_iff_forall_ne_some.2 fun ⟨s, target⟩ hslot =>
      hfree s ((owns_iff hfits h).2 ⟨target, hslot⟩)
  rw [slotCount_of_build h] at hi
  have hnone : b.packing.comb[i]? = some none := by
    rw [Comb.slot?, Array.getElem?_eq_getElem hi, Option.join_some] at hslot
    rw [Array.getElem?_eq_getElem hi, hslot]
  rw [check_of_build h, transition_of_build h, Packing.check, Packing.transition,
    Array.getElem?_map, Array.getElem?_map, hnone]
  exact ⟨rfl, rfl⟩

theorem transition_of_base {s c : Nat} {target : Cell} {base : Entry}
    (hs : t.base[s]? = some (some base)) (hedge : b.declared.edge s c = some target) :
    t.transition[base.val + c]? = some target := by
  have hholds := packing_holds hfits (build_eq_ok_iff.1 h).1
  have hslot := (hholds.slot (base.val + c) s target).2 ⟨base, c, base_of_build h ▸ hs, rfl, hedge⟩
  rw [transition_of_build h, Packing.transition, Array.getElem?_map,
    Option.join_eq_some_iff.1 hslot]
  rfl

/-- The slots that belong to a state are as many as there are edges. -/
theorem count_of_build :
    t.check.countP Option.isSome = ((List.range b.size).map b.edgeCount).sum := by
  have hrows : b.states.toList.map StateDecl.row =
      (List.range b.size).map fun s => (b.decl s).row := by
    refine List.ext_getElem? fun s => Option.ext fun row => ?_
    rw [getElem?_rows_eq_some_iff, List.getElem?_map]
    by_cases hs : s < b.size <;> simp [hs]
  have hslots : t.check.countP Option.isSome = b.packing.comb.taken := by
    rw [check_of_build h, Packing.check, Array.countP_map, Comb.taken]
    refine Array.countP_congr fun slot hmem => ?_
    cases slot with
    | none => rfl
    | some slot =>
      -- The owner of a slot is a state, so its number fits the cell.
      obtain ⟨i, hi⟩ := Array.getElem?_of_mem hmem
      have hslot : b.packing.comb.slot? i = some slot := Option.join_eq_some_iff.2 hi
      have howns : t.Owns slot.owner i := (owns_iff hfits h).2 ⟨slot.target, hslot⟩
      rw [Table.Owns, check_of_build h, Packing.check_join, hslot, Option.bind_some] at howns
      obtain ⟨e, he, -⟩ := Option.map_eq_some_iff.1 howns
      simp [he]
  rw [hslots, packing, Packing.taken_ofRows, hrows, List.map_map]
  exact congrArg List.sum (List.map_congr_left fun s _ =>
    (edgeCount_eq (build_eq_ok_iff.1 h).1 s).symm)

/-- There are no more slots than the last that belongs to a state asks for. -/
theorem isLeast_slotCount : IsLeast {n : Nat | ∀ s i, t.Owns s i → i < n} t.slotCount := by
  rw [slotCount_of_build h]
  refine ⟨fun s i howns => ?_, fun n hn => ?_⟩
  · obtain ⟨target, hslot⟩ := (owns_iff hfits h).1 howns
    refine Nat.lt_of_not_le fun hle => ?_
    rw [Comb.slot?_eq_none hle] at hslot
    cases hslot
  · rcases Packing.tight_ofRows (b.states.toList.map StateDecl.row) with hzero | hlast
    · exact Nat.le_trans (Nat.le_of_eq hzero) (Nat.zero_le n)
    · obtain ⟨⟨s, target⟩, hslot⟩ := Option.isSome_iff_exists.1 hlast
      have hlt : b.packing.comb.size - 1 < n := hn s _ ((owns_iff hfits h).2 ⟨target, hslot⟩)
      omega

end

/-- **In the tables that are built the rows lie by first fit.** Longer rows are taken first, and rows
of one length by rising state. -/
theorem build_firstFit (hfits : b.size * 257 < 4294967295) (h : b.build = .ok t) :
    b.FirstFit t where
  base s hedges := by
    obtain ⟨base, hs, hleast⟩ := isLeast_base hfits h hedges
    refine ⟨base, hs, hleast, fun used hused => hleast.2 fun c _ s' hbefore howns => ?_⟩
    have hlt := hused s' _ hbefore howns
    omega
  noBase s hs hedges := base_of_edgeCount_eq h hs hedges
  owns s i := owns_iff_edge hfits h
  target s c target base hs hedge := transition_of_base hfits h hs hedge
  free i hi hfree := free_of_not_owns hfits h hi hfree
  count := count_of_build hfits h
  length := isLeast_slotCount hfits h

/-- Three states with edges on the symbols 0 and 2, on 0, and on 0 and 1. -/
def interleaved : Builder :=
  (withStates 3).declareAll [.edges 0 (.one 2) (.ofNat 1), .edges 0 (.one 0) (.ofNat 2),
    .edges 1 (.one 0) (.ofNat 1), .edges 2 (.range 0 1) (.ofNat 0)]

/-- State 2 is taken before state 1, which then finds its slot in the gap of state 0. -/
theorem build_firstFit_interleaved :
    interleaved.size * 257 < 4294967295 ∧ ∃ t, interleaved.build = .ok t ∧ interleaved.FirstFit t ∧
      t.base = #[some 0, some 1, some 3] ∧
      t.check = #[some 0, some 1, some 0, some 2, some 2] ∧
      t.transition = #[some 2, some 1, some 1, some 0, some 0] := by
  have hfits : interleaved.size * 257 < 4294967295 := by decide
  have hok : interleaved.build.isOk := by decide +kernel
  obtain ⟨t, h⟩ : ∃ t, interleaved.build = .ok t := by
    cases hbuild : interleaved.build with
    | ok t => exact ⟨t, rfl⟩
    | error e =>
      rw [hbuild] at hok
      cases hok
  refine ⟨hfits, t, h, build_firstFit hfits h, ?_, ?_, ?_⟩
  · rw [base_of_build h]
    decide +kernel
  · rw [check_of_build h]
    decide +kernel
  · rw [transition_of_build h]
    decide +kernel

end Builder

end CombLexer
