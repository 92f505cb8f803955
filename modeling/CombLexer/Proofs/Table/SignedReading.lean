/-
Which numbers of signed tables are read as entries, and in what order.

A number is checked where it is read, and nowhere else. `ownerReadings` lists what
is read before any state is looked at, and `rowReadings` what the states read, one
state after the other. `failure?_builder` says that the first of them that is no
entry is what the arrays are refused for, once their lengths fit together, and
`builder_isOk_iff` what is left to ask of arrays that are not refused.
-/
import CombLexer.Proofs.Fallible
import CombLexer.Table.Signed

namespace CombLexer

open Fallible

/-- A number that is read as an entry, with its array and its place there. -/
structure SignedEntry where
  part : Part
  index : Nat
  value : Int
  deriving DecidableEq

namespace SignedEntry

/-- The complaint about a number that is no entry. -/
def complaint (r : SignedEntry) : TableError := .negativeEntry r.part r.index r.value

/-- The first of some numbers that is below -1. -/
def firstNegative? (rs : List SignedEntry) : Option SignedEntry := rs.find? fun r => r.value < -1

/-- The complaint about it. -/
def complaint? (rs : List SignedEntry) : Option TableError := (firstNegative? rs).map complaint

theorem complaint?_append (rs rs' : List SignedEntry) :
    complaint? (rs ++ rs') = (complaint? rs).or (complaint? rs') := by
  simp [complaint?, firstNegative?, List.find?_append, Option.map_or]

theorem complaint?_cons (r : SignedEntry) (rs : List SignedEntry) :
    complaint? (r :: rs) = (complaint? [r]).or (complaint? rs) :=
  complaint?_append [r] rs

theorem complaint?_flatMap {α : Type} (f : α → List SignedEntry) (xs : List α) :
    complaint? (xs.flatMap f) = xs.findSome? fun x => complaint? (f x) := by
  induction xs with
  | nil => rfl
  | cons x xs ih =>
    rw [List.flatMap_cons, complaint?_append, ih, List.findSome?_cons]
    cases complaint? (f x) <;> rfl

theorem complaint?_eq_none_iff {rs : List SignedEntry} :
    complaint? rs = none ↔ ∀ r ∈ rs, -1 ≤ r.value := by
  simp [complaint?, firstNegative?]

end SignedEntry

namespace SignedArrays

open SignedEntry

variable (a : SignedArrays)

/-- The owners of all slots. -/
def ownerReadings : List SignedEntry :=
  a.check.toList.zipIdx.map fun (owner, i) => ⟨.check, i, owner⟩

/-- The target in a slot, if the slot belongs to the state. -/
def slotReading (s slot : Nat) : List SignedEntry :=
  if a.check[slot]? = some (s : Int) then [⟨.transition, slot, a.transition.getD slot (-1)⟩] else []

/-- What is read about a state whose base is `base`: nothing if the base marks a rule; its rule, its
fallback and its targets by rising symbol if it does not. -/
def stateReadings (s : Nat) (base : Int) : List SignedEntry :=
  if base < 0 then []
  else ⟨.accept, s, a.accept.getD s (-1)⟩ :: ⟨.fallback, s, a.fallback.getD s (-1)⟩ ::
    (List.range symbolCount).flatMap fun c => a.slotReading s (base.toNat + c)

/-- What is read about all states. -/
def rowReadings : List SignedEntry :=
  a.base.toList.zipIdx.flatMap fun (base, s) => a.stateReadings s base

/-- The arrays whose lengths are checked, each with the length it must have, in the order of the
checks. -/
def lengths : List (Part × Nat × Nat) :=
  [(.accept, a.base.size, a.accept.size), (.fallback, a.base.size, a.fallback.size),
    (.transition, a.check.size, a.transition.size)]

/-- The first array of a wrong length, with the length that it must have and the one that it has. -/
def firstMisfit? : Option (Part × Nat × Nat) :=
  a.lengths.find? fun (_, expected, found) => found ≠ expected

/-- What is wrong with the lengths. -/
def lengthComplaint? : Option TableError :=
  if a.base.size = 0 then some .empty
  else a.firstMisfit?.map fun (part, expected, found) => .lengthMismatch part expected found

variable {a}

theorem failure?_entry (part : Part) (i : Nat) (v : Int) :
    failure? (entry part i v) = complaint? [⟨part, i, v⟩] := by
  unfold entry complaint? firstNegative?
  rw [List.find?_singleton]
  by_cases hnone : v = -1
  · simp [hnone, failure?]
  · by_cases hneg : v < 0
    · have hlow : v < -1 := by omega
      simp [hnone, hneg, hlow, failure?, complaint]
    · have hlow : ¬ v < -1 := by omega
      simp [hnone, hneg, hlow, failure?]

theorem failure?_checkLength (part : Part) (expected found : Nat) :
    failure? (checkLength part expected found)
      = if found = expected then none else some (.lengthMismatch part expected found) := by
  unfold checkLength
  split <;> rfl

theorem failure?_owners :
    failure? (a.check.toList.zipIdx.forM fun (owner, i) => discard (entry .check i owner))
      = complaint? a.ownerReadings := by
  have hone (x : Int × Nat) : failure? (discard (entry .check x.2 x.1) : Except TableError Unit)
      = complaint? [⟨.check, x.2, x.1⟩] :=
    (failure?_bind_pure _ fun _ => ()).trans (failure?_entry .check x.2 x.1)
  rw [failure?_forM, ownerReadings, List.map_eq_flatMap, complaint?_flatMap]
  simp only [hone]

/-- Lengths are checked before owners. -/
theorem failure?_checkShape :
    failure? a.checkShape = a.lengthComplaint?.or (complaint? a.ownerReadings) := by
  unfold checkShape lengthComplaint?
  split
  · rfl
  · rw [failure?_bind (failure?_checkLength ..) fun _ _ =>
      failure?_bind (failure?_checkLength ..) fun _ _ =>
        failure?_bind (failure?_checkLength ..) fun _ _ => failure?_owners]
    unfold firstMisfit? lengths
    simp only [List.find?_cons, List.find?_nil]
    by_cases haccept : a.accept.size = a.base.size
    · by_cases hfallback : a.fallback.size = a.base.size
      · by_cases htransition : a.transition.size = a.check.size
        · simp [haccept, hfallback, htransition]
        · simp [haccept, hfallback, htransition]
      · simp [haccept, hfallback]
    · simp [haccept]

theorem failure?_target (s row : Nat) (otherwise : Cell) (c : Nat) :
    failure? (a.target s row otherwise c) = complaint? (a.slotReading s (row + c)) := by
  unfold target slotReading
  split
  · exact failure?_entry ..
  · rfl

theorem failure?_state (s : Nat) (base : Int) :
    failure? (a.state s base) = complaint? (a.stateReadings s base) := by
  unfold state stateReadings
  split
  · rfl
  · rw [complaint?_cons ⟨.accept, _, _⟩, complaint?_cons ⟨.fallback, _, _⟩, complaint?_flatMap]
    refine failure?_bind (failure?_entry ..) fun accept _ =>
      failure?_bind (failure?_entry ..) fun otherwise _ => ?_
    have htargets : failure? ((List.range symbolCount).mapM (a.target s base.toNat otherwise))
        = (List.range symbolCount).findSome? fun c =>
          complaint? (a.slotReading s (base.toNat + c)) := by
      simp only [failure?_mapM, failure?_target]
    exact (failure?_bind_pure ..).trans htargets

/-- **Arrays are refused for their lengths, then for the first owner that is no entry, then for the
first number that a state reads and that is none.** -/
theorem failure?_builder : failure? a.builder =
    a.lengthComplaint?.or ((complaint? a.ownerReadings).or (complaint? a.rowReadings)) := by
  have hstates : failure? (a.base.toList.zipIdx.mapM fun (base, s) => a.state s base)
      = complaint? a.rowReadings := by
    simp only [failure?_mapM, failure?_state, rowReadings, complaint?_flatMap]
  rw [← Option.or_assoc]
  exact failure?_bind failure?_checkShape fun _ _ => (failure?_bind_pure ..).trans hstates

/-! ## What is asked of the arrays -/

variable (a)

/-- There are states, and the lengths of the arrays fit together. -/
structure Sized : Prop where
  nonempty : 0 < a.base.size
  accept : a.accept.size = a.base.size
  fallback : a.fallback.size = a.base.size
  transition : a.transition.size = a.check.size

/-- The numbers read about a state whose row begins at `row` are entries. Slots of other states are
not read, nor is anything but the slots of 257 symbols. -/
structure RowReads (s row : Nat) : Prop where
  accept : ∀ v, a.accept[s]? = some v → -1 ≤ v
  fallback : ∀ v, a.fallback[s]? = some v → -1 ≤ v
  targets : ∀ c ≤ endOfInput, a.check[row + c]? = some (s : Int) →
    ∀ v, a.transition[row + c]? = some v → -1 ≤ v

/-- The edges of a state whose row begins at `row` lead to states: by its slots, and by its fallback
if a symbol has no slot of the state. -/
structure RowLeads (s row : Nat) : Prop where
  hits : ∀ c ≤ endOfInput, a.check[row + c]? = some (s : Int) →
    ∀ v, a.transition[row + c]? = some v → v < a.base.size
  misses : ∀ c ≤ endOfInput, a.check[row + c]? ≠ some (s : Int) →
    ∀ v, a.fallback[s]? = some v → v < a.base.size

/-- Arrays that describe an automaton. Nothing is asked of a slot that no state reads, nor of the
rule and the fallback of a state whose base marks a rule. -/
structure WellFormed : Prop where
  sized : a.Sized
  owners : ∀ v ∈ a.check, -1 ≤ v
  reads : ∀ s row : Nat, a.base[s]? = some (row : Int) → a.RowReads s row
  leads : ∀ s row : Nat, a.base[s]? = some (row : Int) → a.RowLeads s row

variable {a}

theorem firstMisfit?_eq_none_iff : a.firstMisfit? = none ↔
    a.accept.size = a.base.size ∧ a.fallback.size = a.base.size ∧
      a.transition.size = a.check.size := by
  simp [firstMisfit?, lengths]

theorem lengthComplaint?_eq_none_iff : a.lengthComplaint? = none ↔ a.Sized := by
  have hsizes : a.firstMisfit?.map (fun (part, expected, found) =>
      TableError.lengthMismatch part expected found) = none ↔ _ :=
    Option.map_eq_none_iff.trans firstMisfit?_eq_none_iff
  unfold lengthComplaint?
  split
  · next hempty => exact ⟨nofun, fun h => absurd hempty (Nat.pos_iff_ne_zero.1 h.nonempty)⟩
  · next hempty =>
    rw [hsizes]
    exact ⟨fun ⟨haccept, hfallback, htransition⟩ =>
      ⟨Nat.pos_of_ne_zero hempty, haccept, hfallback, htransition⟩,
      fun h => ⟨h.accept, h.fallback, h.transition⟩⟩

theorem ownerReadings_iff :
    (∀ r ∈ a.ownerReadings, -1 ≤ r.value) ↔ ∀ v ∈ a.check, -1 ≤ v := by
  rw [ownerReadings, List.forall_mem_map]
  constructor
  · intro h v hv
    obtain ⟨i, hi⟩ := List.mem_iff_getElem?.1 (Array.mem_toList_iff.2 hv)
    exact h (v, i) (List.mk_mem_zipIdx_iff_getElem?.2 hi)
  · exact fun h x hx => h x.1 (Array.mem_toList_iff.1 (List.fst_mem_of_mem_zipIdx hx))

/-- A number that is read beyond the end of its array is taken for -1, which is an entry. -/
theorem getD_iff {numbers : Array Int} {i : Nat} :
    -1 ≤ numbers.getD i (-1) ↔ ∀ v, numbers[i]? = some v → -1 ≤ v := by
  rw [Array.getD_eq_getD_getElem?]
  cases numbers[i]? <;> simp

theorem slotReading_iff {s slot : Nat} : (∀ r ∈ a.slotReading s slot, -1 ≤ r.value) ↔
    (a.check[slot]? = some (s : Int) → ∀ v, a.transition[slot]? = some v → -1 ≤ v) := by
  unfold slotReading
  split
  · next howner =>
    rw [List.forall_mem_singleton, getD_iff]
    exact ⟨fun h _ => h, fun h => h howner⟩
  · next howner => simp [howner]

theorem stateReadings_iff {s row : Nat} :
    (∀ r ∈ a.stateReadings s row, -1 ≤ r.value) ↔ a.RowReads s row := by
  unfold stateReadings
  rw [if_neg (by omega)]
  simp only [List.forall_mem_cons, List.forall_mem_flatMap, getD_iff, slotReading_iff,
    List.mem_range, Int.toNat_natCast]
  constructor
  · rintro ⟨haccept, hfallback, htargets⟩
    exact ⟨haccept, hfallback, fun c hc => htargets c (Nat.lt_succ_of_le hc)⟩
  · intro h
    exact ⟨h.accept, h.fallback, fun c hc => h.targets c (Nat.le_of_lt_succ hc)⟩

theorem rowReadings_iff : (∀ r ∈ a.rowReadings, -1 ≤ r.value) ↔
    ∀ s row : Nat, a.base[s]? = some (row : Int) → a.RowReads s row := by
  simp only [rowReadings, List.forall_mem_flatMap, Prod.forall, List.mk_mem_zipIdx_iff_getElem?,
    Array.getElem?_toList]
  constructor
  · exact fun h s row hbase => stateReadings_iff.1 (h row s hbase)
  · intro h base s hbase
    by_cases hneg : base < 0
    · simp [stateReadings, hneg]
    · obtain ⟨row, rfl⟩ := Int.eq_ofNat_of_zero_le (Int.not_lt.1 hneg)
      exact stateReadings_iff.2 (h s row hbase)

/-- Arrays describe an automaton, some of whose edges may lead to no state, if they have the right
lengths and every number that is read is an entry. -/
theorem builder_isOk_iff : (∃ b, a.builder = .ok b) ↔ a.Sized ∧ (∀ v ∈ a.check, -1 ≤ v) ∧
    ∀ s row : Nat, a.base[s]? = some (row : Int) → a.RowReads s row := by
  rw [← failure?_eq_none_iff, failure?_builder]
  simp only [Option.or_eq_none_iff, lengthComplaint?_eq_none_iff, complaint?_eq_none_iff,
    ownerReadings_iff, rowReadings_iff]

end SignedArrays

end CombLexer
