/-
What the comb holds: the edges of all rows that have been placed, and nothing
else.

A slot knows its owner only, not the symbol. But a row lies at one base, so the
place of a slot behind the owner's base is the symbol (`Packing.Holds.slot`). A
row is placed where all its slots are free, so it takes none away from an earlier
one (`Comb.slot?_place`); and there is such a place no further than the end of
the comb (`Comb.firstFit_spec`), so a base stays below 257 times the number of
rows and is never mistaken for the mark of an absent one. `Packing.Holds.add` is
the step, `Packing.ofRows_holds` the whole packing.
-/
import CombLexer.Table.Basic
import CombLexer.Table.Comb

namespace CombLexer

/-! ## Rows -/

namespace Row

/-- The symbols of a row are bytes or the end of input. -/
def InAlphabet (row : Row) : Prop := ∀ e ∈ row.entries, e.1 ≤ endOfInput

theorem get?_eq_some_iff {row : Row} {c : Nat} {target : Cell} :
    row.get? c = some target ↔ (c, target) ∈ row.entries := by
  obtain ⟨entries, hrising⟩ := row
  simp only [get?]
  induction entries with
  | nil => simp
  | cons e rest ih =>
    obtain ⟨hlt, hrest⟩ := List.pairwise_cons.1 hrising
    by_cases he : e.1 = c
    · rw [List.find?_cons_of_pos (by simpa using he)]
      constructor
      · intro h
        cases h
        rw [← he]
        exact List.mem_cons_self
      · intro h
        rcases List.mem_cons.1 h with rfl | hmem
        · rfl
        · have hlater := hlt _ hmem
          simp only at hlater
          omega
    · rw [List.find?_cons_of_neg (by simpa using he), ih hrest, List.mem_cons]
      constructor
      · exact .inr
      · rintro (rfl | hmem)
        · exact absurd rfl he
        · exact hmem

theorem inAlphabet_tabulate (f : Nat → Option Cell) : (tabulate symbolCount f).InAlphabet := by
  intro e he
  have hedge : (tabulate symbolCount f).get? e.1 = some e.2 := get?_eq_some_iff.2 he
  rw [get?_tabulate] at hedge
  split at hedge
  · next hc => exact Nat.le_of_lt_succ hc
  · cases hedge

theorem get?_of_isEmpty {row : Row} (h : row.entries.isEmpty) (c : Nat) : row.get? c = none := by
  simp [get?, List.isEmpty_iff.1 h]

end Row

/-! ## Slots -/

namespace Comb

/-- What a slot holds, if it is taken. -/
def slot? (comb : Comb) (i : Nat) : Option Slot := (comb[i]?).join

theorem isFree_iff {comb : Comb} {i : Nat} : comb.isFree i ↔ comb.slot? i = none := by
  simp [isFree, slot?]

theorem slot?_eq_none {comb : Comb} {i : Nat} (h : comb.size ≤ i) : comb.slot? i = none := by
  simp [slot?, Array.getElem?_eq_none h]

theorem slot?_take (comb : Comb) (i j : Nat) (slot : Slot) :
    (comb.take i slot).slot? j = if i = j then some slot else comb.slot? j := by
  have hsize : i < (comb.grow (i + 1)).size := by
    simp only [grow, Array.size_append, Array.size_replicate]
    omega
  simp only [slot?, take, Array.getElem?_setIfInBounds]
  by_cases hij : i = j
  · rw [if_pos hij, if_pos hsize, if_pos hij]
    rfl
  · rw [if_neg hij, if_neg hij, grow, Array.getElem?_append]
    split
    · rfl
    · next hge =>
      rw [Array.getElem?_eq_none (Nat.le_of_not_lt hge), Array.getElem?_replicate]
      split <;> rfl

theorem size_take (comb : Comb) (i : Nat) (slot : Slot) :
    (comb.take i slot).size = max comb.size (i + 1) := by
  simp only [take, grow, Array.size_setIfInBounds, Array.size_append, Array.size_replicate]
  omega

/-- A row takes its own slots and leaves the others. -/
theorem slot?_place_eq_some_iff {comb : Comb} {owner : Nat} {row : Row} {b i : Nat} {slot : Slot} :
    (comb.place owner row b).slot? i = some slot ↔
      (∃ c target, row.get? c = some target ∧ b + c = i ∧ slot = ⟨owner, target⟩) ∨
        (comb.slot? i = some slot ∧ ∀ c target, row.get? c = some target → b + c ≠ i) := by
  obtain ⟨entries, hrising⟩ := row
  simp only [Row.get?_eq_some_iff, place]
  induction entries generalizing comb with
  | nil => simp
  | cons e rest ih =>
    obtain ⟨hlt, hrest⟩ := List.pairwise_cons.1 hrising
    rw [List.foldl_cons, ih hrest, slot?_take]
    by_cases hi : b + e.1 = i
    · rw [if_pos hi]
      constructor
      · rintro (⟨c, target, hmem, hc, -⟩ | ⟨hslot, -⟩)
        · have hlater := hlt _ hmem
          simp only at hlater
          omega
        · exact .inl ⟨e.1, e.2, List.mem_cons_self, hi, (Option.some.inj hslot).symm⟩
      · rintro (⟨c, target, hmem, hc, rfl⟩ | ⟨-, hother⟩)
        · refine .inr ⟨?_, fun c' target' hmem' hc' => ?_⟩
          · rcases List.mem_cons.1 hmem with rfl | hmem
            · rfl
            · have hlater := hlt _ hmem
              simp only at hlater
              omega
          · have hlater := hlt _ hmem'
            simp only at hlater
            omega
        · exact absurd hi (hother e.1 e.2 List.mem_cons_self)
    · rw [if_neg hi]
      constructor
      · rintro (⟨c, target, hmem, hc, rfl⟩ | ⟨hslot, hother⟩)
        · exact .inl ⟨c, target, List.mem_cons_of_mem _ hmem, hc, rfl⟩
        · refine .inr ⟨hslot, fun c target hmem => ?_⟩
          rcases List.mem_cons.1 hmem with rfl | hmem
          · exact hi
          · exact hother c target hmem
      · rintro (⟨c, target, hmem, hc, rfl⟩ | ⟨hslot, hother⟩)
        · rcases List.mem_cons.1 hmem with rfl | hmem
          · exact absurd hc hi
          · exact .inl ⟨c, target, hmem, hc, rfl⟩
        · exact .inr ⟨hslot, fun c target hmem => hother c target (List.mem_cons_of_mem _ hmem)⟩

theorem size_place_le (comb : Comb) (owner : Nat) {row : Row} (b : Nat) (h : row.InAlphabet) :
    (comb.place owner row b).size ≤ max comb.size (b + symbolCount) := by
  obtain ⟨entries, hrising⟩ := row
  change ∀ e ∈ entries, e.1 ≤ endOfInput at h
  simp only [place]
  clear hrising
  induction entries generalizing comb with
  | nil => exact Nat.le_max_left _ _
  | cons e rest ih =>
    have hsymbol : e.1 ≤ endOfInput := h e List.mem_cons_self
    have hrest := ih (comb.take (b + e.1) ⟨owner, e.2⟩) fun e' he' =>
      h e' (List.mem_cons_of_mem _ he')
    rw [size_take] at hrest
    rw [List.foldl_cons]
    simp only [endOfInput, symbolCount] at *
    omega

/-! ## The first base that fits -/

theorem fits_iff {comb : Comb} {row : Row} {b : Nat} :
    comb.fits row b ↔ ∀ c target, row.get? c = some target → comb.slot? (b + c) = none := by
  simp only [fits, List.all_eq_true, isFree_iff, Row.get?_eq_some_iff]
  exact ⟨fun h c target hmem => h (c, target) hmem, fun h e hmem => h e.1 e.2 hmem⟩

/-- Behind the end of the comb every row fits. -/
theorem fits_of_size_le {comb : Comb} {row : Row} {b : Nat} (h : comb.size ≤ b) :
    comb.fits row b :=
  fits_iff.2 fun _ _ _ => slot?_eq_none (Nat.le_trans h (Nat.le_add_right _ _))

/-- The search stops at the first base that fits, or where it has to. -/
theorem firstFitFrom_spec (comb : Comb) (row : Row) (count b : Nat) :
    (comb.fits row (comb.firstFitFrom row count b) ∨ comb.firstFitFrom row count b = b + count) ∧
      comb.firstFitFrom row count b ≤ b + count ∧
      ∀ b', b ≤ b' → b' < comb.firstFitFrom row count b → ¬ comb.fits row b' := by
  induction count generalizing b with
  | zero => exact ⟨.inr rfl, Nat.le_refl _, fun b' hle hlt => absurd hle (Nat.not_le_of_lt hlt)⟩
  | succ count ih =>
    rw [firstFitFrom]
    by_cases hfits : comb.fits row b
    · rw [if_pos hfits]
      refine ⟨.inl hfits, Nat.le_add_right _ _, fun b' hle hlt => ?_⟩
      exact absurd hle (Nat.not_le_of_lt hlt)
    · rw [if_neg hfits]
      obtain ⟨hfound, hle, hfirst⟩ := ih (b + 1)
      refine ⟨hfound.imp_right fun heq => by omega, by omega, fun b' hb hlt => ?_⟩
      rcases Nat.eq_or_lt_of_le hb with rfl | hb
      · exact hfits
      · exact hfirst b' hb hlt

/-- The row fits at the base that is found and at none before it, and the base is in the comb or at
its end. -/
theorem firstFit_spec (comb : Comb) (row : Row) :
    comb.fits row (comb.firstFit row) ∧ comb.firstFit row ≤ comb.size ∧
      ∀ b < comb.firstFit row, ¬ comb.fits row b := by
  obtain ⟨hfound, hle, hfirst⟩ := comb.firstFitFrom_spec row comb.size 0
  rw [Nat.zero_add] at hfound hle
  refine ⟨?_, hle, fun b hlt => hfirst b (Nat.zero_le b) hlt⟩
  rcases hfound with hfits | hend
  · exact hfits
  · exact fits_of_size_le (Nat.le_of_eq hend.symm)

/-- Where a row fits, it takes no slot from another. -/
theorem slot?_place {comb : Comb} {owner : Nat} {row : Row} {b : Nat} (hfits : comb.fits row b)
    {i : Nat} {slot : Slot} :
    (comb.place owner row b).slot? i = some slot ↔
      (∃ c target, row.get? c = some target ∧ b + c = i ∧ slot = ⟨owner, target⟩) ∨
        comb.slot? i = some slot := by
  rw [slot?_place_eq_some_iff]
  refine or_congr_right ⟨And.left, fun hslot => ⟨hslot, fun c target hc hi => ?_⟩⟩
  have hfree := fits_iff.1 hfits c target hc
  rw [hi, hslot] at hfree
  cases hfree

end Comb

/-! ## Packings -/

theorem Cell.val_of_ofNat {n : Nat} {e : Entry} (h : Cell.ofNat n = some e) : e.val = n := by
  rw [Cell.ofNat] at h
  split at h
  · cases h
    rfl
  · cases h

namespace Packing

/-- A packing holds some edges, given as states, symbols and targets: a state with edges has a
base, and the taken slots are those of the edges. -/
structure Holds (p : Packing) (edges : Nat → Nat → Cell → Prop) : Prop where
  base : ∀ s c target, edges s c target → ∃ b : Entry, p.base[s]? = some (some b)
  slot : ∀ i s target, p.comb.slot? i = some ⟨s, target⟩ ↔
    ∃ (b : Entry) (c : Nat), p.base[s]? = some (some b) ∧ b.val + c = i ∧ edges s c target

theorem Holds.congr {p : Packing} {edges edges' : Nat → Nat → Cell → Prop} (h : p.Holds edges)
    (heq : ∀ s c target, edges s c target ↔ edges' s c target) : p.Holds edges' where
  base s c target hedge := h.base s c target ((heq s c target).2 hedge)
  slot i s target := by simp only [h.slot, heq]

theorem start_holds (states : Nat) : (start states).Holds fun _ _ _ => False where
  base _ _ _ h := h.elim
  slot i s target := by simp [start, Comb.slot?]

section
variable {p : Packing} {edges : Nat → Nat → Cell → Prop} {s : Nat} {row : Row}

theorem add_of_isEmpty (h : row.entries.isEmpty) : p.add s row = p := if_pos h

theorem add_of_not_isEmpty (h : ¬ row.entries.isEmpty) :
    p.add s row = ⟨p.comb.place s row (p.comb.firstFit row),
      p.base.setIfInBounds s (.ofNat (p.comb.firstFit row))⟩ :=
  if_neg h

theorem size_base_add : (p.add s row).base.size = p.base.size := by
  by_cases h : row.entries.isEmpty
  · rw [add_of_isEmpty h]
  · rw [add_of_not_isEmpty h, Array.size_setIfInBounds]

theorem base_add_of_ne {s' : Nat} (h : s ≠ s') : (p.add s row).base[s']? = p.base[s']? := by
  by_cases hrow : row.entries.isEmpty
  · rw [add_of_isEmpty hrow]
  · rw [add_of_not_isEmpty hrow, Array.getElem?_setIfInBounds, if_neg h]

/-- A row makes the comb longer by as many slots as there are symbols, at most. -/
theorem size_comb_add_le (hrow : row.InAlphabet) :
    (p.add s row).comb.size ≤ p.comb.size + symbolCount := by
  by_cases h : row.entries.isEmpty
  · rw [add_of_isEmpty h]
    exact Nat.le_add_right _ _
  · have hbase := (p.comb.firstFit_spec row).2.1
    have hplace := p.comb.size_place_le s (p.comb.firstFit row) hrow
    rw [add_of_not_isEmpty h]
    simp only
    omega

/-- A state that has no base has no edges. -/
theorem Holds.not_edge (h : p.Holds edges) (hfresh : p.base[s]? = some none) (c : Nat)
    (target : Cell) : ¬ edges s c target := by
  intro hedge
  obtain ⟨b, hb⟩ := h.base s c target hedge
  rw [hfresh] at hb
  cases hb

/-- A row's state gets the base at which the row is placed. -/
theorem base_add_eq (hrow : ¬ row.entries.isEmpty) (hs : s < p.base.size) :
    (p.add s row).base[s]? = some (.ofNat (p.comb.firstFit row)) := by
  rw [add_of_not_isEmpty hrow, Array.getElem?_setIfInBounds, if_pos rfl, if_pos hs]

theorem base_add_self (hrow : ¬ row.entries.isEmpty) (hs : s < p.base.size)
    (hlt : p.comb.firstFit row < 4294967295) :
    (p.add s row).base[s]? = some (some ⟨p.comb.firstFit row, hlt⟩) := by
  rw [base_add_eq hrow hs, Cell.ofNat, dif_pos hlt]

/-- Placing the row of a state that has no base adds its edges and changes no other. -/
theorem Holds.add (h : p.Holds edges) (hfresh : p.base[s]? = some none)
    (hsize : p.comb.size < Cell.absentWord) :
    (p.add s row).Holds fun s' c target =>
      edges s' c target ∨ s' = s ∧ row.get? c = some target := by
  by_cases hrow : row.entries.isEmpty
  · rw [add_of_isEmpty hrow]
    simpa [Row.get?_of_isEmpty hrow] using h
  · obtain ⟨hfits, hle, -⟩ := p.comb.firstFit_spec row
    have hlt : p.comb.firstFit row < 4294967295 := Nat.lt_of_le_of_lt hle hsize
    have hown := base_add_self hrow (Array.getElem?_eq_some_iff.1 hfresh).1 hlt
    have hcomb : (p.add s row).comb = p.comb.place s row (p.comb.firstFit row) := by
      rw [add_of_not_isEmpty hrow]
    constructor
    · rintro s' c target (hedge | ⟨rfl, -⟩)
      · have hne : s ≠ s' := by
          rintro rfl
          exact h.not_edge hfresh c target hedge
        rw [base_add_of_ne hne]
        exact h.base s' c target hedge
      · exact ⟨_, hown⟩
    · intro i s' target
      rw [hcomb, Comb.slot?_place hfits, h.slot]
      by_cases hs : s = s'
      · subst hs
        rw [hown]
        constructor
        · rintro (⟨c, target', hc, hi, heq⟩ | ⟨b, c, hb, -, -⟩)
          · cases heq
            exact ⟨_, c, rfl, hi, .inr ⟨rfl, hc⟩⟩
          · rw [hfresh] at hb
            cases hb
        · rintro ⟨b, c, hb, hi, hedge | ⟨-, hc⟩⟩
          · exact absurd hedge (h.not_edge hfresh c target)
          · cases hb
            exact .inl ⟨c, target, hc, hi, rfl⟩
      · rw [base_add_of_ne hs]
        constructor
        · rintro (⟨c, target', hc, hi, heq⟩ | ⟨b, c, hb, hi, hedge⟩)
          · cases heq
            exact absurd rfl hs
          · exact ⟨b, c, hb, hi, .inl hedge⟩
        · rintro ⟨b, c, hb, hi, hedge | ⟨rfl, -⟩⟩
          · exact .inr ⟨b, c, hb, hi, hedge⟩
          · exact absurd rfl hs

end

/-! ## All rows -/

theorem insertInOrder_perm (x : Nat × Row) (rows : List (Nat × Row)) :
    (insertInOrder x rows).Perm (x :: rows) := by
  induction rows with
  | nil => exact .refl _
  | cons y rest ih =>
    rw [insertInOrder]
    split
    · exact .refl _
    · exact (ih.cons y).trans (.swap x y rest)

/-- The order in which rows are placed leaves none out and names none twice. -/
theorem order_perm (rows : List Row) :
    (order rows).Perm (rows.zipIdx.map fun (row, state) => (state, row)) := by
  rw [order]
  induction rows.zipIdx.map fun (row, state) => (state, row) with
  | nil => exact .refl _
  | cons x rest ih => exact (insertInOrder_perm x _).trans (ih.cons x)

theorem mem_order_iff {rows : List Row} {s : Nat} {row : Row} :
    (s, row) ∈ order rows ↔ rows[s]? = some row := by
  rw [(order_perm rows).mem_iff, ← List.mk_mem_zipIdx_iff_getElem?, List.mem_map]
  constructor
  · rintro ⟨x, hmem, heq⟩
    cases heq
    exact hmem
  · intro hmem
    exact ⟨(row, s), hmem, rfl⟩

theorem length_order (rows : List Row) : (order rows).length = rows.length := by
  rw [(order_perm rows).length_eq, List.length_map, List.length_zipIdx]

theorem nodup_order (rows : List Row) : ((order rows).map Prod.fst).Nodup := by
  have hstates : (rows.zipIdx.map fun (row, state) => (state, row)).map Prod.fst =
      List.range' 0 rows.length := by
    rw [List.map_map, ← List.zipIdx_map_snd 0 rows]
    rfl
  rw [((order_perm rows).map Prod.fst).nodup_iff, hstates]
  exact List.nodup_range'

/-- Placing one row after the other adds the edges of all. -/
theorem Holds.addAll {p : Packing} {edges : Nat → Nat → Cell → Prop} (h : p.Holds edges)
    (rows : List (Nat × Row)) (hfresh : ∀ x ∈ rows, p.base[x.1]? = some none)
    (hnodup : (rows.map Prod.fst).Nodup) (halphabet : ∀ x ∈ rows, x.2.InAlphabet)
    (hsize : p.comb.size + rows.length * symbolCount < Cell.absentWord) :
    (rows.foldl (fun p (state, row) => p.add state row) p).Holds fun s c target =>
      edges s c target ∨ ∃ row, (s, row) ∈ rows ∧ row.get? c = some target := by
  induction rows generalizing p edges with
  | nil => simpa using h
  | cons x rest ih =>
    obtain ⟨s, row⟩ := x
    obtain ⟨hnew, hnodup⟩ := List.nodup_cons.1 hnodup
    have hrow : row.InAlphabet := halphabet (s, row) List.mem_cons_self
    have hgrow := size_comb_add_le (p := p) (s := s) hrow
    rw [List.length_cons, Nat.succ_mul] at hsize
    have hstep : (p.add s row).Holds _ := h.add (hfresh (s, row) List.mem_cons_self) (by omega)
    have hrest := ih hstep (fun x hx => ?_) hnodup
      (fun x hx => halphabet x (List.mem_cons_of_mem _ hx)) (by omega)
    · refine hrest.congr fun s' c target => ?_
      simp only [List.mem_cons, Prod.mk.injEq]
      constructor
      · rintro ((hedge | ⟨rfl, hc⟩) | ⟨row', hmem, hc⟩)
        · exact .inl hedge
        · exact .inr ⟨row, .inl ⟨rfl, rfl⟩, hc⟩
        · exact .inr ⟨row', .inr hmem, hc⟩
      · rintro (hedge | ⟨row', ⟨rfl, rfl⟩ | hmem, hc⟩)
        · exact .inl (.inl hedge)
        · exact .inl (.inr ⟨rfl, hc⟩)
        · exact .inr ⟨row', hmem, hc⟩
    · have hne : s ≠ x.1 := fun heq => hnew (List.mem_map.2 ⟨x, hx, heq.symm⟩)
      rw [base_add_of_ne hne]
      exact hfresh x (List.mem_cons_of_mem _ hx)

theorem size_base_addAll (p : Packing) (rows : List (Nat × Row)) :
    (rows.foldl (fun p (state, row) => p.add state row) p).base.size = p.base.size := by
  induction rows generalizing p with
  | nil => rfl
  | cons x rest ih => rw [List.foldl_cons, ih, size_base_add]

theorem size_base_ofRows (rows : List Row) : (ofRows rows).base.size = rows.length := by
  rw [ofRows, size_base_addAll]
  exact Array.size_replicate

theorem check_join (p : Packing) (i : Nat) :
    (p.check[i]?).join = (p.comb.slot? i).bind fun slot => Cell.ofNat slot.owner := by
  rw [check, Array.getElem?_map, Comb.slot?]
  cases p.comb[i]? <;> rfl

theorem transition_join (p : Packing) (i : Nat) :
    (p.transition[i]?).join = (p.comb.slot? i).bind Slot.target := by
  rw [transition, Array.getElem?_map, Comb.slot?]
  cases p.comb[i]? <;> rfl

/-- **The comb holds the edges of the rows**, as long as the numbers of slots fit a cell. -/
theorem ofRows_holds {rows : List Row} (halphabet : ∀ row ∈ rows, row.InAlphabet)
    (hsize : rows.length * symbolCount < Cell.absentWord) :
    (ofRows rows).Holds fun s c target => ∃ row, rows[s]? = some row ∧ row.get? c = some target := by
  have hall := (start_holds rows.length).addAll (order rows) (fun x hx => ?_) (nodup_order rows)
    (fun x hx => ?_) (by rw [length_order]; simpa [start] using hsize)
  · simp only [mem_order_iff, false_or] at hall
    exact hall
  · have hlt := (List.getElem?_eq_some_iff.1 (mem_order_iff.1 hx)).1
    simp [start, hlt]
  · exact halphabet x.2 (List.mem_of_getElem? (mem_order_iff.1 hx))

end Packing

end CombLexer
