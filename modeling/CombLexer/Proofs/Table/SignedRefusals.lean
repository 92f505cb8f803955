/-
Why strings of signed 16-bit numbers make no tables.

Five passes look at them: whether each string is one of whole numbers, whether the
lengths of the arrays fit together, what the owners of the slots are, what the
states read, and at last whether the edges that come out of it lead to states.
`SignedTables.Complaint` has one case for each complaint, with what must not be
wrong for it to be reached, and `SignedTables.load_admission` says that no other
complaints are made and that what gets none is loaded. What no pass looks at makes
no difference (`SignedArrays.Alike`).
-/
import CombLexer.Proofs.Table.Complaints
import CombLexer.Proofs.Table.SignedMeaning

namespace CombLexer

open Fallible SignedEntry

/-- The complaint about what is read from the entries of a list, one after the other. -/
theorem SignedEntry.complaint?_zipIdx_eq_some_iff {α : Type} {xs : List α}
    {f : α → Nat → List SignedEntry} {e : TableError} :
    complaint? (xs.zipIdx.flatMap fun entry => f entry.1 entry.2) = some e ↔
      ∃ i x, xs[i]? = some x ∧ complaint? (f x i) = some e ∧
        ∀ j < i, ∀ y, xs[j]? = some y → complaint? (f y j) = none := by
  rw [complaint?_flatMap]
  exact Builder.findSome?_zipIdx_eq_some_iff (f := fun x i => complaint? (f x i))

namespace SignedTables

/-- The string of an array. -/
def get (p : SignedTables) : Part → Bytes
  | .base => p.base
  | .fallback => p.fallback
  | .check => p.check
  | .transition => p.transition
  | .accept => p.accept

/-- The arrays in the order in which their strings are read. -/
def readOrder : List Part := [.base, .accept, .fallback, .transition, .check]

/-- The first string that ends within a number. -/
def firstOdd? (p : SignedTables) : Option Part :=
  readOrder.find? fun part => (p.get part).length % 2 ≠ 0

end SignedTables

namespace SignedArrays

variable {a a' : SignedArrays} {p : SignedTables}

/-! ## The passes -/

theorem failure?_numbers? (part : Part) (bytes : Bytes) : failure? (numbers? part bytes) =
    if bytes.length % 2 ≠ 0 then some (.oddLength part bytes.length) else none := by
  rw [numbers?, ite_not]
  split <;> rfl

theorem failure?_ofTables : failure? (ofTables p)
    = p.firstOdd?.map fun part => .oddLength part (p.get part).length := by
  have hcons (part : Part) (parts : List Part) :
      ((part :: parts).find? fun part => (p.get part).length % 2 ≠ 0).map
          (fun part => TableError.oddLength part (p.get part).length)
        = (if (p.get part).length % 2 ≠ 0 then some (.oddLength part (p.get part).length)
            else none).or
          ((parts.find? fun part => (p.get part).length % 2 ≠ 0).map
            fun part => .oddLength part (p.get part).length) := by
    rw [List.find?_cons]
    by_cases hodd : (p.get part).length % 2 = 0 <;> simp [hodd]
  have hread : failure? (ofTables p) = _ :=
    failure?_bind (failure?_numbers? ..) fun _ _ =>
      failure?_bind (failure?_numbers? ..) fun _ _ =>
        failure?_bind (failure?_numbers? ..) fun _ _ =>
          failure?_bind (failure?_numbers? ..) fun _ _ =>
            (failure?_bind_pure ..).trans (failure?_numbers? ..)
  rw [hread, SignedTables.firstOdd?, SignedTables.readOrder]
  simp only [hcons, List.find?_nil, Option.map_none, Option.or_none]
  rfl

theorem ofTables_isOk_iff : (∃ a, ofTables p = .ok a) ↔ ∀ part, (p.get part).length % 2 = 0 := by
  rw [← failure?_eq_none_iff, failure?_ofTables, Option.map_eq_none_iff, SignedTables.firstOdd?,
    List.find?_eq_none]
  simp only [decide_eq_true_eq, not_not]
  refine ⟨fun h part => h part ?_, fun h part _ => h part⟩
  cases part <;> decide

theorem Decodes.even (h : a.Decodes p) (part : Part) : (p.get part).length % 2 = 0 := by
  have hlength {bytes : Bytes} {numbers : Array Int} (h : Decoded bytes numbers) :
      bytes.length % 2 = 0 := by
    have := h.length
    omega
  cases part with
  | base => exact hlength h.base
  | fallback => exact hlength h.fallback
  | check => exact hlength h.check
  | transition => exact hlength h.transition
  | accept => exact hlength h.accept

/-- The arrays that strings hold are those that are read from them. -/
theorem ofTables_eq_ok_iff : ofTables p = .ok a ↔ a.Decodes p := by
  refine ⟨ofTables_eq_ok, fun hdec => ?_⟩
  obtain ⟨a', ha'⟩ := ofTables_isOk_iff.2 hdec.even
  exact hdec.unique (ofTables_eq_ok ha') ▸ ha'

/-- The first owner of a slot that is no entry. -/
structure FirstStrayOwner (a : SignedArrays) (i : Nat) (v : Int) : Prop where
  owner : a.check[i]? = some v
  stray : v < -1
  first : ∀ j < i, ∀ v', a.check[j]? = some v' → -1 ≤ v'

theorem complaint?_ownerReadings_eq_some_iff {e : TableError} :
    complaint? a.ownerReadings = some e ↔
      ∃ i v, a.FirstStrayOwner i v ∧ e = .negativeEntry .check i v := by
  have hsome (v : Int) (i : Nat) : complaint? [⟨.check, i, v⟩] = some e ↔
      v < -1 ∧ e = .negativeEntry .check i v := by
    by_cases hstray : v < -1 <;>
      simp [complaint?, firstNegative?, complaint, hstray, eq_comm]
  rw [ownerReadings, List.map_eq_flatMap]
  refine (complaint?_zipIdx_eq_some_iff (f := fun v i => [⟨.check, i, v⟩])).trans ?_
  simp only [Array.getElem?_toList, hsome, complaint?_eq_none_iff, List.forall_mem_singleton]
  constructor
  · rintro ⟨i, v, howner, ⟨hstray, rfl⟩, hfirst⟩
    exact ⟨i, v, ⟨howner, hstray, hfirst⟩, rfl⟩
  · rintro ⟨i, v, h, rfl⟩
    exact ⟨i, v, h.owner, ⟨h.stray, rfl⟩, h.first⟩

/-- The first state that reads a number which is no entry, and the first such number there. -/
structure FirstStray (a : SignedArrays) (s row : Nat) (r : SignedEntry) : Prop where
  base : a.base[s]? = some (row : Int)
  stray : firstNegative? (a.stateReadings s row) = some r
  first : ∀ s' < s, ∀ row' : Nat, a.base[s']? = some (row' : Int) → a.RowReads s' row'

theorem complaint?_stateReadings_eq_none_iff {s : Nat} {base : Int} :
    complaint? (a.stateReadings s base) = none ↔
      ∀ row : Nat, base = row → a.RowReads s row := by
  rw [complaint?_eq_none_iff]
  by_cases hneg : base < 0
  · have hnone : a.stateReadings s base = [] := if_pos hneg
    rw [hnone]
    exact iff_of_true nofun fun row hrow => absurd hneg (by omega)
  · obtain ⟨row, rfl⟩ := Int.eq_ofNat_of_zero_le (Int.not_lt.1 hneg)
    rw [stateReadings_iff]
    exact ⟨fun h row' hrow => Int.ofNat_inj.1 hrow ▸ h, fun h => h row rfl⟩

theorem complaint?_rowReadings_eq_some_iff {e : TableError} :
    complaint? a.rowReadings = some e ↔
      ∃ s row r, a.FirstStray s row r ∧ e = r.complaint := by
  refine (complaint?_zipIdx_eq_some_iff (f := fun base s => a.stateReadings s base)).trans ?_
  simp only [Array.getElem?_toList, complaint?_stateReadings_eq_none_iff]
  constructor
  · rintro ⟨s, base, hbase, hstray, hfirst⟩
    have hneg : ¬ base < 0 := fun hneg => by
      rw [stateReadings, if_pos hneg] at hstray
      cases hstray
    obtain ⟨row, rfl⟩ := Int.eq_ofNat_of_zero_le (Int.not_lt.1 hneg)
    obtain ⟨r, hr, rfl⟩ := Option.map_eq_some_iff.1 hstray
    exact ⟨s, row, r, ⟨hbase, hr, fun s' hlt row' hbase' => hfirst s' hlt _ hbase' row' rfl⟩, rfl⟩
  · rintro ⟨s, row, r, h, rfl⟩
    refine ⟨s, row, h.base, congrArg (Option.map complaint) h.stray, ?_⟩
    rintro s' hlt _ hbase' row' rfl
    exact h.first s' hlt row' hbase'

theorem lengthComplaint?_eq_some_iff {e : TableError} : a.lengthComplaint? = some e ↔
    a.base.size = 0 ∧ e = .empty ∨ 0 < a.base.size ∧ ∃ part expected found,
      a.firstMisfit? = some (part, expected, found) ∧ e = .lengthMismatch part expected found := by
  unfold lengthComplaint?
  split
  · next hempty => simp [hempty, eq_comm]
  · next hempty =>
    have hpos := Nat.pos_of_ne_zero hempty
    simp [hempty, hpos, eq_comm]

theorem builder_eq_error_iff {e : TableError} : a.builder = .error e ↔
    a.lengthComplaint? = some e ∨ a.Sized ∧
      ((∃ i v, a.FirstStrayOwner i v ∧ e = .negativeEntry .check i v) ∨
        (∀ v ∈ a.check, -1 ≤ v) ∧ ∃ s row r, a.FirstStray s row r ∧ e = r.complaint) := by
  rw [← failure?_eq_some_iff, failure?_builder]
  simp only [Option.or_eq_some_iff, lengthComplaint?_eq_none_iff, complaint?_eq_none_iff,
    ownerReadings_iff, complaint?_ownerReadings_eq_some_iff, complaint?_rowReadings_eq_some_iff]

section
variable {b : Builder} (hdec : a.Decodes p) (hb : a.builder = .ok b)
include hdec hb

theorem symbolsFit_of_builder : b.declared.SymbolsFit := by
  refine Builder.symbolsFit_iff.2 fun s => ?_
  by_cases hs : s < b.size
  · obtain ⟨_, -, halphabet, -⟩ := decl_of_builder hdec hb hs
    exact halphabet
  · rw [Builder.decl_of_le (Nat.le_of_not_lt hs)]
    exact Builder.inAlphabet_bare

theorem fallback_of_builder (s : Nat) : b.declared.fallback s = none := by
  by_cases hs : s < b.size
  · obtain ⟨_, -, -, hfallback, -⟩ := decl_of_builder hdec hb hs
    exact hfallback
  · exact Builder.fallback_of_le (Nat.le_of_not_lt hs)

/-- Of what can be wrong with declarations, only targets that are no states can come of arrays. -/
theorem build_eq_error_iff (hfits : b.Fits) {e : TableError} : b.build = .error e ↔
    ∃ slot target, b.StrayTarget slot target ∧
      e = .stateOutOfRange .transition slot target a.base.size := by
  have hsize : b.size = a.base.size := (builder_eq_ok hb).2.1
  have hsymbols := symbolsFit_of_builder hdec hb
  have hfallback := fallback_of_builder hdec hb
  rw [Builder.build_eq_error_iff hfits, ← hsize]
  constructor
  · intro h
    cases h with
    | symbol h => exact absurd (hsymbols _ _ h.edge) (Nat.not_le_of_lt h.stray)
    | empty hempty =>
      have hnonempty := (builder_isOk_iff.1 ⟨b, hb⟩).1.nonempty
      exact absurd (hsize.symm.trans hempty) (Nat.pos_iff_ne_zero.1 hnonempty)
    | fallback _ h => exact absurd (h.fallback.symm.trans (hfallback _)) nofun
    | target _ _ h => exact ⟨_, _, h, rfl⟩
    | endless _ _ _ h => exact absurd (.last (hfallback _)) h.endless
  · rintro ⟨slot, target, h, rfl⟩
    refine .target hsymbols (fun s s' hback => ?_) h
    rw [Declared.FallsBack, hfallback s] at hback
    cases hback

end

/-! ## What makes no difference -/

/-- The arrays differ at most in numbers that no state reads. -/
structure Alike (a a' : SignedArrays) : Prop where
  base : a'.base = a.base
  check : a'.check = a.check
  accept_size : a'.accept.size = a.accept.size
  fallback_size : a'.fallback.size = a.fallback.size
  transition_size : a'.transition.size = a.transition.size
  accept : ∀ s row : Nat, a.base[s]? = some (row : Int) → a'.accept[s]? = a.accept[s]?
  fallback : ∀ s row : Nat, a.base[s]? = some (row : Int) → a'.fallback[s]? = a.fallback[s]?
  transition : ∀ s row : Nat, a.base[s]? = some (row : Int) → ∀ c ≤ endOfInput,
    a.check[row + c]? = some (s : Int) → a'.transition[row + c]? = a.transition[row + c]?

theorem Alike.target (h : a.Alike a') {s row c : Nat} (hrow : a.base[s]? = some (row : Int))
    (hc : c ≤ endOfInput) (otherwise : Cell) :
    a'.target s row otherwise c = a.target s row otherwise c := by
  unfold SignedArrays.target
  rw [h.check]
  split
  · next howner =>
    rw [Array.getD_eq_getD_getElem?, Array.getD_eq_getD_getElem?,
      h.transition s row hrow c hc howner]
  · rfl

theorem Alike.state (h : a.Alike a') {s : Nat} {base : Int} (hbase : a.base[s]? = some base) :
    a'.state s base = a.state s base := by
  unfold SignedArrays.state
  split
  · rfl
  · next hneg =>
    obtain ⟨row, rfl⟩ := Int.eq_ofNat_of_zero_le (Int.not_lt.1 hneg)
    have htargets (otherwise : Cell) : (List.range symbolCount).mapM (a'.target s row otherwise)
        = (List.range symbolCount).mapM (a.target s row otherwise) :=
      mapM_congr fun c hc => h.target hbase (Nat.le_of_lt_succ (List.mem_range.1 hc)) otherwise
    simp only [Array.getD_eq_getD_getElem?, h.accept s row hbase, h.fallback s row hbase,
      Int.toNat_natCast, htargets]

theorem Alike.builder (h : a.Alike a') : a'.builder = a.builder := by
  have hshape : a'.checkShape = a.checkShape := by
    unfold checkShape
    rw [h.base, h.check, h.accept_size, h.fallback_size, h.transition_size]
  have hstates : a.base.toList.zipIdx.mapM (fun entry => a'.state entry.2 entry.1)
      = a.base.toList.zipIdx.mapM fun entry => a.state entry.2 entry.1 := by
    refine mapM_congr fun entry hmem => h.state ?_
    rwa [List.mem_zipIdx_iff_getElem?, Array.getElem?_toList] at hmem
  rw [SignedArrays.builder, SignedArrays.builder, hshape, h.base, hstates]

end SignedArrays

namespace SignedTables

/-- The complaint that strings get, each with what must not be wrong for it to be reached. -/
inductive Complaint (p : SignedTables) : TableError → Prop
  /-- A string ends within a number. -/
  | odd {part : Part} (h : p.firstOdd? = some part) :
      Complaint p (.oddLength part (p.get part).length)
  | empty {a : SignedArrays} (hdec : a.Decodes p) (h : a.base.size = 0) : Complaint p .empty
  | length {a : SignedArrays} {part : Part} {expected found : Nat} (hdec : a.Decodes p)
      (hnonempty : 0 < a.base.size) (h : a.firstMisfit? = some (part, expected, found)) :
      Complaint p (.lengthMismatch part expected found)
  /-- The owner of a slot is no entry. -/
  | owner {a : SignedArrays} {i : Nat} {v : Int} (hdec : a.Decodes p) (hsized : a.Sized)
      (h : a.FirstStrayOwner i v) : Complaint p (.negativeEntry .check i v)
  /-- A number that a state reads is no entry. -/
  | entry {a : SignedArrays} {s row : Nat} {r : SignedEntry} (hdec : a.Decodes p) (hsized : a.Sized)
      (howners : ∀ v ∈ a.check, -1 ≤ v) (h : a.FirstStray s row r) :
      Complaint p (.negativeEntry r.part r.index r.value)
  /-- An edge leads to no state; it is named by the slot that it is packed in. -/
  | target {a : SignedArrays} {b : Builder} {slot : Nat} {target : Cell} (hdec : a.Decodes p)
      (hsized : a.Sized) (howners : ∀ v ∈ a.check, -1 ≤ v)
      (hreads : ∀ s row : Nat, a.base[s]? = some (row : Int) → a.RowReads s row)
      (hb : a.builder = .ok b) (h : b.StrayTarget slot target) :
      Complaint p (.stateOutOfRange .transition slot target a.base.size)

theorem load_eq_error_iff {p : SignedTables} {e : TableError} : p.load = .error e ↔
    SignedArrays.ofTables p = .error e ∨ ∃ a : SignedArrays, a.Decodes p ∧
      (a.builder = .error e ∨ ∃ b, a.builder = .ok b ∧ b.build = .error e) := by
  cases hread : SignedArrays.ofTables p with
  | error e' =>
    have hload : p.load = .error e' := by rw [load, builder, hread]; rfl
    have hnone (a : SignedArrays) : ¬ a.Decodes p := fun hdec => by
      rw [SignedArrays.ofTables_eq_ok_iff.2 hdec] at hread
      cases hread
    simp [hload, hnone]
  | ok a =>
    have hdec := SignedArrays.ofTables_eq_ok hread
    rw [load_of_ofTables hread, bind_eq_error]
    constructor
    · exact fun h => .inr ⟨a, hdec, h⟩
    · rintro (h | ⟨a', hdec', h⟩)
      · cases h
      · exact hdec.unique hdec' ▸ h

variable {p : SignedTables}

theorem load_isOk_iff_wellFormed (hfits : p.base.length / 2 * 257 < 2147483648) :
    (∃ t, p.load = .ok t) ↔
      (∀ part, (p.get part).length % 2 = 0) ∧ ∃ a : SignedArrays, a.Decodes p ∧ a.WellFormed := by
  constructor
  · rintro ⟨t, ht⟩
    cases hread : SignedArrays.ofTables p with
    | error e =>
      have hload : p.load = .error e := load_eq_error_iff.2 (.inl hread)
      exact absurd (hload.symm.trans ht) nofun
    | ok a =>
      have hdec := SignedArrays.ofTables_eq_ok hread
      exact ⟨hdec.even, a, hdec, (load_isOk_iff hread hfits).1 ⟨t, ht⟩⟩
  · rintro ⟨-, a, hdec, h⟩
    exact (load_isOk_iff (SignedArrays.ofTables_eq_ok_iff.2 hdec) hfits).2 h

theorem Complaint.of_load (hfits : p.base.length / 2 * 257 < 2147483648) {e : TableError}
    (h : p.load = .error e) : p.Complaint e := by
  rcases load_eq_error_iff.1 h with hodd | ⟨a, hdec, hbuilder | ⟨b, hb, hbuild⟩⟩
  · rw [← failure?_eq_some_iff, SignedArrays.failure?_ofTables] at hodd
    obtain ⟨part, hpart, rfl⟩ := Option.map_eq_some_iff.1 hodd
    exact .odd hpart
  · rcases SignedArrays.builder_eq_error_iff.1 hbuilder with
      hlength | ⟨hsized, ⟨i, v, howner, rfl⟩ | ⟨howners, s, row, r, hrow, rfl⟩⟩
    · rcases SignedArrays.lengthComplaint?_eq_some_iff.1 hlength with
        ⟨hempty, rfl⟩ | ⟨hnonempty, part, expected, found, hmisfit, rfl⟩
      · exact .empty hdec hempty
      · exact .length hdec hnonempty hmisfit
    · exact .owner hdec hsized howner
    · exact .entry hdec hsized howners hrow
  · obtain ⟨hsized, howners, hreads⟩ := SignedArrays.builder_isOk_iff.1 ⟨b, hb⟩
    have hsmall := fits_of_builder hdec (SignedArrays.builder_eq_ok hb).2.1 hfits
    obtain ⟨slot, target, htarget, rfl⟩ := (SignedArrays.build_eq_error_iff hdec hb hsmall).1 hbuild
    exact .target hdec hsized howners hreads hb htarget

theorem Complaint.load (hfits : p.base.length / 2 * 257 < 2147483648) {e : TableError}
    (h : p.Complaint e) : p.load = .error e := by
  have hbuilder {a : SignedArrays} (hdec : a.Decodes p) {e : TableError}
      (h : a.builder = .error e) : p.load = .error e :=
    load_eq_error_iff.2 (.inr ⟨a, hdec, .inl h⟩)
  cases h with
  | odd hpart =>
    refine load_eq_error_iff.2 (.inl ?_)
    rw [← failure?_eq_some_iff, SignedArrays.failure?_ofTables, hpart]
    rfl
  | empty hdec h =>
    refine hbuilder hdec (SignedArrays.builder_eq_error_iff.2 (.inl ?_))
    exact SignedArrays.lengthComplaint?_eq_some_iff.2 (.inl ⟨h, rfl⟩)
  | length hdec hnonempty h =>
    refine hbuilder hdec (SignedArrays.builder_eq_error_iff.2 (.inl ?_))
    exact SignedArrays.lengthComplaint?_eq_some_iff.2 (.inr ⟨hnonempty, _, _, _, h, rfl⟩)
  | owner hdec hsized h =>
    exact hbuilder hdec (SignedArrays.builder_eq_error_iff.2
      (.inr ⟨hsized, .inl ⟨_, _, h, rfl⟩⟩))
  | entry hdec hsized howners h =>
    exact hbuilder hdec (SignedArrays.builder_eq_error_iff.2
      (.inr ⟨hsized, .inr ⟨howners, _, _, _, h, rfl⟩⟩))
  | target hdec _ _ _ hb h =>
    have hsmall := fits_of_builder hdec (SignedArrays.builder_eq_ok hb).2.1 hfits
    have hbuild := (SignedArrays.build_eq_error_iff hdec hb hsmall).2 ⟨_, _, h, rfl⟩
    exact load_eq_error_iff.2 (.inr ⟨_, hdec, .inr ⟨_, hb, hbuild⟩⟩)

theorem load_of_alike {p' : SignedTables} {a a' : SignedArrays} (hdec : a.Decodes p)
    (hdec' : a'.Decodes p') (h : a.Alike a') : p'.load = p.load := by
  rw [load_of_ofTables (SignedArrays.ofTables_eq_ok_iff.2 hdec),
    load_of_ofTables (SignedArrays.ofTables_eq_ok_iff.2 hdec'), h.builder]

/-- **Exactly the well-formed strings load, and each other one gets the complaint of the first pass
that finds something wrong with it.** Numbers that no pass looks at make no difference. -/
theorem load_admission (hfits : p.base.length / 2 * 257 < 2147483648) :
    ((∃ t, p.load = .ok t) ↔
      (∀ part, (p.get part).length % 2 = 0) ∧ ∃ a : SignedArrays, a.Decodes p ∧ a.WellFormed) ∧
    (∀ e, p.load = .error e ↔ p.Complaint e) ∧
    ∀ (p' : SignedTables) (a a' : SignedArrays), a.Decodes p → a'.Decodes p' → a.Alike a' →
      p'.load = p.load :=
  ⟨load_isOk_iff_wellFormed hfits, fun _ => ⟨.of_load hfits, fun h => h.load hfits⟩,
    fun _ _ _ hdec hdec' halike => load_of_alike hdec hdec' halike⟩

/-- The numbers of `mixedTables`. -/
def mixedArrays : SignedArrays where
  base := #[0, -3, 1]
  accept := #[-1, -1, 4]
  fallback := #[-1, -1, 0]
  transition := #[1, 2, -1]
  check := #[0, 0, 2]

/-- The target in the slot of state 2 is -2. -/
def strayTables : SignedTables := { mixedTables with transition := [1, 0, 2, 0, 254, 255] }

/-- The rule and the fallback of state 1 are -9 and 7. -/
def unreadTables : SignedTables :=
  { mixedTables with accept := [255, 255, 247, 255, 4, 0], fallback := [255, 255, 7, 0, 0, 0] }

theorem load_admission_mixedTables :
    mixedTables.base.length / 2 * 257 < 2147483648 ∧ (∃ t, mixedTables.load = .ok t) ∧
      strayTables.load = .error (.negativeEntry .transition 2 (-2)) ∧
      unreadTables.load = mixedTables.load := by
  have hfits : mixedTables.base.length / 2 * 257 < 2147483648 := by decide
  have hdec {bytes : Bytes} (numbers : List Int) (heven : bytes.length % 2 = 0)
      (h : SignedArrays.numbers bytes = numbers) : Decoded bytes numbers.toArray :=
    h ▸ SignedArrays.decoded_numbers heven
  have hmixed : mixedArrays.Decodes mixedTables :=
    ⟨hdec [0, -3, 1] rfl (by decide +kernel), hdec [-1, -1, 4] rfl (by decide +kernel),
      hdec [-1, -1, 0] rfl (by decide +kernel), hdec [1, 2, -1] rfl (by decide +kernel),
      hdec [0, 0, 2] rfl (by decide +kernel)⟩
  have hproper : mixedArrays.Proper := by constructor <;> decide
  have hrows {s row : Nat} (h : mixedArrays.base[s]? = some (row : Int)) :
      s = 0 ∧ row = 0 ∨ s = 2 := by
    match s with
    | 0 => exact .inl ⟨rfl, Int.ofNat_inj.1 (Option.some.inj h).symm⟩
    | 1 => cases h
    | 2 => exact .inr rfl
    | _ + 3 => cases h
  obtain ⟨hload, -, halike⟩ := load_admission hfits
  refine ⟨hfits, hload.2 ⟨hmixed.even, mixedArrays, hmixed, hproper.wellFormed⟩, ?_, ?_⟩
  · let strayArrays : SignedArrays := { mixedArrays with transition := #[1, 2, -2] }
    have hstray : strayArrays.Decodes strayTables :=
      ⟨hmixed.base, hmixed.accept, hmixed.fallback, hdec [1, 2, -2] rfl (by decide +kernel),
        hmixed.check⟩
    have hsized : strayArrays.Sized := by constructor <;> decide
    have hfirst : strayArrays.FirstStray 2 1 ⟨.transition, 2, -2⟩ := by
      refine ⟨rfl, by decide +kernel, fun s' hlt row' hrow => ?_⟩
      obtain ⟨rfl, rfl⟩ | rfl := hrows hrow
      · exact SignedArrays.stateReadings_iff.1 (by decide +kernel)
      · exact absurd hlt (by decide)
    have hrefused := (load_admission (p := strayTables) hfits).2.1
    exact (hrefused _).2 (.entry hstray hsized (by decide) hfirst)
  · let unreadArrays : SignedArrays :=
      { mixedArrays with accept := #[-1, -9, 4], fallback := #[-1, 7, 0] }
    have hunread : unreadArrays.Decodes unreadTables :=
      ⟨hmixed.base, hdec [-1, -9, 4] rfl (by decide +kernel),
        hdec [-1, 7, 0] rfl (by decide +kernel), hmixed.transition, hmixed.check⟩
    refine halike _ mixedArrays unreadArrays hmixed hunread
      ⟨rfl, rfl, rfl, rfl, rfl, fun s row h => ?_, fun s row h => ?_, fun _ _ _ _ _ _ => rfl⟩
    · obtain ⟨rfl, rfl⟩ | rfl := hrows h <;> rfl
    · obtain ⟨rfl, rfl⟩ | rfl := hrows h <;> rfl

end SignedTables

end CombLexer
