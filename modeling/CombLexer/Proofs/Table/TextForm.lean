/-
The text form holds tables, and what it holds is exactly what fits a cell.

A text spells five lists of integers, one a field, in any order (`objectOf`).
Its tokens are read as the entries that the integers stand for, or not at all if
one of them stands for none (`takeList?_elements`, `takeFields?_fields`). So
such a text is refused exactly if an integer is out of range, and otherwise what
is checked are the arrays that the integers stand for (`load_spelled_exact`).
-/
import CombLexer.Proofs.Json.Spelling
import CombLexer.Proofs.Table.Validity

namespace CombLexer

/-- No complaint about arrays is one about JSON. -/
theorem Arrays.defect?_ne_json (a : Arrays) : a.defect? ≠ some .json := by
  have hlength : ∀ part expected, a.lengthDefect? part expected ≠ some .json := by
    intro part expected
    simp only [lengthDefect?]
    split <;> simp
  have hstate : ∀ part matters, a.stateDefect? part matters ≠ some .json := by
    intro part matters
    simp [stateDefect?]
  have hsize : a.sizeDefect? ≠ some .json := by
    simp only [sizeDefect?]
    split <;> simp
  intro h
  unfold defect? at h
  split at h
  · cases h
  · simp [Option.or_eq_some_iff, hlength, hstate, hsize] at h

theorem Table.ofArrays_ne_json (a : Arrays) : ofArrays a ≠ .error .json := by
  intro h
  unfold ofArrays at h
  split at h
  · cases h
  · next e hdefect =>
    cases h
    exact a.defect?_ne_json hdefect

namespace Json

/-! ## How tables are written -/

/-- The integers of a list behind its bracket, with a bracket behind the last. -/
def elements : List Int → List Lexeme → List Lexeme
  | [], rest => .closeArray :: rest
  | [n], rest => .integer n :: .closeArray :: rest
  | n :: ns, rest => .integer n :: .comma :: elements ns rest

/-- The fields of an object behind its brace, in the given order, with a brace behind the last. -/
def fields (lists : Part → List Int) : List Part → List Lexeme
  | [] => [.closeObject]
  | [part] => .name part :: .colon :: .openArray :: elements (lists part) [.closeObject]
  | part :: parts =>
    .name part :: .colon :: .openArray :: elements (lists part) (.comma :: fields lists parts)

theorem apart_elements (ns : List Int) {rest : List Lexeme} (h : Apart rest) :
    Apart (elements ns rest) := by
  fun_induction elements ns rest with
  | case1 => exact h
  | case2 => exact h
  | case3 _ _ _ _ ih => exact ih h

theorem apart_fields (lists : Part → List Int) (order : List Part) :
    Apart (fields lists order) := by
  fun_induction fields lists order with
  | case1 => trivial
  | case2 part => exact apart_elements (lists part) (show Apart [.closeObject] from trivial)
  | case3 part parts _ ih =>
    exact apart_elements (lists part) (show Apart (.comma :: fields lists parts) from ih)

/-! ## How they are read -/

theorem mapM_eq_none {α β : Type} {f : α → Option β} {xs : List α} {x : α} (hx : x ∈ xs)
    (h : f x = none) : xs.mapM f = none := by
  induction xs with
  | nil => cases hx
  | cons y xs ih =>
    rw [List.mapM_cons]
    rcases List.mem_cons.1 hx with rfl | hx
    · simp [h]
    · simp [ih hx]

theorem mapM_eq_some {α β : Type} {f : α → Option β} {g : α → β} {xs : List α}
    (h : ∀ x ∈ xs, f x = some (g x)) : xs.mapM f = some (xs.map g) := by
  induction xs with
  | nil => rfl
  | cons x xs ih =>
    have hrest := ih fun y hy => h y (List.mem_cons_of_mem _ hy)
    rw [List.mapM_cons, h x List.mem_cons_self, hrest]
    rfl

/-- The integers that stand for a cell are those from -1 to the greatest entry. -/
theorem ofInt?_eq_none_iff {n : Int} : Cell.ofInt? n = none ↔ n < -1 ∨ 4294967294 < n := by
  unfold Cell.ofInt?
  split
  · simp
    omega
  · split
    · simp
      omega
    · simp
      omega

/-- An integer is read as a number that has its value, or as one without a value. Then it has too
many digits for a cell. -/
theorem token_integer (n : Int) :
    (Lexeme.integer n).token = .number (some n) ∨
      ((Lexeme.integer n).token = .number none ∧ Cell.ofInt? n = none) := by
  by_cases hlong : digitLimit < (Decimal.digits n.natAbs).length
  · refine .inr ⟨by rw [Lexeme.token, if_pos hlong], ?_⟩
    have hgreatest : (Decimal.digits 4294967294).length = digitLimit := by decide +kernel
    have hbig : ¬ n.natAbs ≤ 4294967294 := by
      intro hsmall
      have := Decimal.length_digits_le hsmall
      omega
    rw [ofInt?_eq_none_iff]
    omega
  · exact .inl (by rw [Lexeme.token, if_neg hlong])

theorem takeCells?_elements (n : Int) (ns : List Int) (rest : List Lexeme) :
    takeCells? ((elements (n :: ns) rest).map Lexeme.token) =
      ((n :: ns).mapM Cell.ofInt?).map (·, rest.map Lexeme.token) := by
  induction ns generalizing n with
  | nil =>
    rw [elements, List.map_cons]
    rcases token_integer n with htoken | ⟨htoken, hnone⟩
    · rw [htoken]
      show (do return ([← Cell.ofInt? n], rest.map Lexeme.token)) = _
      cases hcell : Cell.ofInt? n <;> simp [hcell]
    · rw [htoken]
      simp [takeCells?, hnone]
  | cons m ns ih =>
    rw [elements, List.map_cons, List.map_cons]
    rcases token_integer n with htoken | ⟨htoken, hnone⟩
    · rw [htoken, List.mapM_cons]
      simp only [Lexeme.token, takeCells?, ih]
      cases Cell.ofInt? n <;> cases (m :: ns).mapM Cell.ofInt? <;> simp
    · rw [htoken]
      simp [takeCells?, hnone]
    · simp

/-- A list is read as the cells that its integers stand for. -/
theorem takeList?_elements (ns : List Int) (rest : List Lexeme) :
    takeList? ((Lexeme.openArray :: elements ns rest).map Lexeme.token) =
      (ns.mapM Cell.ofInt?).map fun cells => (cells.toArray, rest.map Lexeme.token) := by
  cases ns with
  | nil => rfl
  | cons n ns =>
    have hcells := takeCells?_elements n ns rest
    obtain ⟨tail, htail⟩ : ∃ tail, elements (n :: ns) rest = .integer n :: tail := by
      cases ns <;> exact ⟨_, rfl⟩
    rw [htail] at hcells ⊢
    simp only [List.map_cons, Lexeme.token] at hcells ⊢
    simp only [takeList?, hcells]
    cases (n :: ns).mapM Cell.ofInt? <;> simp

theorem partNamed?_name (part : Part) : partNamed? part.name.toList = some part := by
  cases part <;> decide

/-- The array that a field is read as, with its name. -/
def field? (lists : Part → List Int) (part : Part) : Option (Part × Array Cell) :=
  ((lists part).mapM Cell.ofInt?).map fun cells => (part, cells.toArray)

/-- A field that has not been read before is read as its array. -/
theorem takeField?_elements (lists : Part → List Int) {part : Part} {found : Found}
    (hfound : found.get? part = none) (rest : List Lexeme) :
    takeField? part.name.toList found
        ((Lexeme.openArray :: elements (lists part) rest).map Lexeme.token) =
      (field? lists part).map fun read => (found ++ [read], rest.map Lexeme.token) := by
  unfold takeField? field?
  rw [partNamed?_name]
  simp only [hfound, takeList?_elements]
  cases (lists part).mapM Cell.ofInt? <;> simp

theorem get?_append_other {found : Found} {part part' : Part} {cells : Array Cell}
    (hne : part' ≠ part) (h : found.get? part' = none) :
    Found.get? (found ++ [(part, cells)]) part' = none := by
  simp only [Found.get?, Option.map_eq_none_iff, List.find?_eq_none] at h ⊢
  intro f hf
  rcases List.mem_append.1 hf with hf | hf
  · exact h f hf
  · rw [List.mem_singleton.1 hf]
    simpa using hne.symm

/-- Fields are read one after another, in whatever order they come. -/
theorem takeFields?_fields (lists : Part → List Int) {order : List Part} (hne : order ≠ [])
    (hnodup : order.Nodup) {found : Found} (hfound : ∀ part ∈ order, found.get? part = none)
    {fuel : Nat} (hfuel : order.length ≤ fuel) :
    takeFields? fuel found ((fields lists order).map Lexeme.token) =
      (order.mapM (field? lists)).map fun read => (found ++ read, []) := by
  induction order generalizing found fuel with
  | nil => exact absurd rfl hne
  | cons part parts ih =>
    obtain ⟨fuel, rfl⟩ : ∃ n, fuel = n + 1 := ⟨fuel - 1, by simp at hfuel; omega⟩
    have hpart := hfound part List.mem_cons_self
    rw [List.mapM_cons]
    cases parts with
    | nil =>
      have hfield := takeField?_elements lists hpart [.closeObject]
      simp only [fields, List.map_cons (f := Lexeme.token), Lexeme.token] at hfield ⊢
      simp only [takeFields?, hfield]
      cases field? lists part <;> simp
    | cons part' parts =>
      have hfield := takeField?_elements lists hpart (.comma :: fields lists (part' :: parts))
      simp only [fields, List.map_cons (f := Lexeme.token), Lexeme.token] at hfield ⊢
      simp only [takeFields?, hfield]
      cases hread : field? lists part with
      | none => simp
      | some read =>
        obtain ⟨cells, -, rfl⟩ := Option.map_eq_some_iff.1 hread
        obtain ⟨hnew, hnodup'⟩ := List.nodup_cons.1 hnodup
        have hfound' : ∀ other ∈ part' :: parts,
            Found.get? (found ++ [(part, cells.toArray)]) other = none := by
          intro other hother
          have hother' : other ≠ part := by
            rintro rfl
            exact hnew hother
          exact get?_append_other hother' (hfound other (List.mem_cons_of_mem _ hother))
        have hfuel' : (part' :: parts).length ≤ fuel := by
          simp at hfuel ⊢
          omega
        have hrest := ih (by simp) hnodup' hfound' hfuel'
        simp only [Option.map_some, Option.bind_eq_bind, Option.bind_some, hrest]
        cases (part' :: parts).mapM (field? lists) <;> simp

/-! ## Whole texts -/

/-- The lexemes of an object whose fields are five lists of integers, in the given order. -/
def objectOf (lists : Part → List Int) (order : List Part) : List Lexeme :=
  .openObject :: fields lists order

theorem length_elements (ns : List Int) (rest : List Lexeme) :
    rest.length ≤ (elements ns rest).length := by
  fun_induction elements ns rest with
  | case1 => simp
  | case2 => simp; omega
  | case3 n ns rest _ ih => simp; omega

theorem length_fields (lists : Part → List Int) (order : List Part) :
    order.length ≤ (fields lists order).length := by
  fun_induction fields lists order with
  | case1 => simp
  | case2 part => simp
  | case3 part parts _ ih =>
    have := length_elements (lists part) (.comma :: fields lists parts)
    simp at this ⊢
    omega

/-- The arrays in a text are those that its fields are read as. -/
theorem arrays?_of_spells {lists : Part → List Int} {order : List Part}
    (horder : order.Perm fieldOrder) {data : Bytes} (h : Spells (objectOf lists order) data) :
    arrays? data = (order.mapM (field? lists)).bind Found.arrays? := by
  have htokens : tokens? data = some ((objectOf lists order).map Lexeme.token) :=
    tokensWithin?_of_spells h (apart_fields lists order) (Nat.le_refl _)
  have hnodup : order.Nodup := horder.nodup_iff.2 (by decide)
  have hne : order ≠ [] := by
    rintro rfl
    cases horder.length_eq
  have hfuel : order.length ≤ ((fields lists order).map Lexeme.token).length := by
    rw [List.length_map]
    exact length_fields lists order
  have hfresh : ∀ part ∈ order, Found.get? [] part = none := fun _ _ => rfl
  have hfields := takeFields?_fields lists hne hnodup hfresh hfuel
  rw [arrays?, htokens, objectOf, List.map_cons]
  simp only [Lexeme.token, takeFound?, Option.bind_eq_bind, Option.bind_some, hfields]
  cases order.mapM (field? lists) <;> simp

/-- The cell that an integer in range stands for. -/
def cellOf (n : Int) : Cell := if n = -1 then none else .ofNat n.toNat

/-- The arrays that five lists of integers stand for, with -1 for an absent cell. -/
def arraysOf (lists : Part → List Int) : Arrays where
  base := ((lists .base).map cellOf).toArray
  fallback := ((lists .fallback).map cellOf).toArray
  check := ((lists .check).map cellOf).toArray
  transition := ((lists .transition).map cellOf).toArray
  accept := ((lists .accept).map cellOf).toArray

theorem ofInt?_of_inRange {n : Int} (h : -1 ≤ n ∧ n ≤ 4294967294) :
    Cell.ofInt? n = some (cellOf n) := by
  unfold Cell.ofInt? cellOf Cell.ofNat
  by_cases hnone : n = -1
  · simp [hnone]
  · have hentry : 0 ≤ n ∧ n < 4294967295 := by omega
    have hnat : n.toNat < 4294967295 := by omega
    rw [if_neg hnone, if_neg hnone, dif_pos hentry, dif_pos hnat]

theorem cellOf_toInt (cell : Cell) : cellOf cell.toInt = cell := by
  cases cell with
  | none => rfl
  | some e =>
    have he := e.isLt
    have hnone : ¬ (e.val : Int) = -1 := by omega
    show cellOf (e.val : Int) = some e
    rw [cellOf, if_neg hnone, Int.toNat_natCast, Cell.ofNat, dif_pos he]

theorem get?_map {order : List Part} (g : Part → Array Cell) {part : Part} (h : part ∈ order) :
    Found.get? (order.map fun part => (part, g part)) part = some (g part) := by
  induction order with
  | nil => cases h
  | cons first order ih =>
    rw [Found.get?, List.map_cons]
    by_cases hfirst : first = part
    · simp [hfirst]
    · have hrest := ih ((List.mem_cons.1 h).resolve_left (Ne.symm hfirst))
      simpa [hfirst, Found.get?] using hrest

theorem mem_of_perm_fieldOrder {order : List Part} (h : order.Perm fieldOrder) (part : Part) :
    part ∈ order := by
  refine h.mem_iff.2 ?_
  cases part <;> decide

/-- Where all integers are in range, the arrays are those that they stand for. -/
theorem arrays?_of_inRange {lists : Part → List Int} {order : List Part}
    (horder : order.Perm fieldOrder) {data : Bytes} (h : Spells (objectOf lists order) data)
    (hrange : ∀ part, ∀ n ∈ lists part, -1 ≤ n ∧ n ≤ 4294967294) :
    arrays? data = some (arraysOf lists) := by
  have hfield : ∀ part ∈ order,
      field? lists part = some (part, ((lists part).map cellOf).toArray) := by
    intro part _
    rw [field?, mapM_eq_some fun n hn => ofInt?_of_inRange (hrange part n hn), Option.map_some]
  have hget := fun part => get?_map (fun part => ((lists part).map cellOf).toArray)
    (mem_of_perm_fieldOrder horder part)
  rw [arrays?_of_spells horder h, mapM_eq_some hfield]
  simp [Found.arrays?, hget, arraysOf]

theorem arrays?_of_outOfRange {lists : Part → List Int} {order : List Part}
    (horder : order.Perm fieldOrder) {data : Bytes} (h : Spells (objectOf lists order) data)
    {part : Part} {n : Int} (hn : n ∈ lists part) (hout : n < -1 ∨ 4294967294 < n) :
    arrays? data = none := by
  have hfield : field? lists part = none := by
    rw [field?, mapM_eq_none hn (ofInt?_eq_none_iff.2 hout), Option.map_none]
  rw [arrays?_of_spells horder h, mapM_eq_none (mem_of_perm_fieldOrder horder part) hfield]
  rfl

/-! ## What is written for tables -/

theorem flatMap_elements (ns : List Int) (rest : List Lexeme) :
    (elements ns rest).flatMap Lexeme.text =
      commaSeparated (ns.map integer) ++ 0x5D :: rest.flatMap Lexeme.text := by
  fun_induction elements ns rest with
  | case1 => simp [commaSeparated, Lexeme.text]
  | case2 n => simp [commaSeparated, Lexeme.text]
  | case3 n ns rest hne ih =>
    cases ns with
    | nil => exact absurd rfl hne
    | cons m ns => simp [commaSeparated, Lexeme.text, ih]

theorem flatMap_fields (lists : Part → List Int) (order : List Part) :
    (fields lists order).flatMap Lexeme.text =
      commaSeparated (order.map fun part => field part.name (lists part)) ++ [0x7D] := by
  fun_induction fields lists order with
  | case1 => simp [commaSeparated, Lexeme.text]
  | case2 part => simp [commaSeparated, Lexeme.text, flatMap_elements, field, list]
  | case3 part parts hne ih =>
    cases parts with
    | nil => exact absurd rfl hne
    | cons part' parts =>
      simp [commaSeparated, Lexeme.text, flatMap_elements, field, list, ih]

/-- An object without white space spells its fields. -/
theorem spells_object (lists : Part → List Int) (order : List Part) :
    Spells (objectOf lists order) (object (order.map fun part => (part.name, lists part))) := by
  have hspells := spells_flatMap (objectOf lists order)
  have htext : (objectOf lists order).flatMap Lexeme.text =
      object (order.map fun part => (part.name, lists part)) := by
    simp [objectOf, object, Lexeme.text, flatMap_fields, Function.comp_def]
  rwa [htext] at hspells

/-- The integers of arrays are in range and stand for the cells that they are written for. -/
theorem arraysOf_toInt (a : Arrays) :
    arraysOf (fun part => (a.get part).toList.map Cell.toInt) = a := by
  have hcells : ∀ cells : Array Cell, ((cells.toList.map Cell.toInt).map cellOf).toArray = cells := by
    intro cells
    rw [List.map_map, show cellOf ∘ Cell.toInt = id from funext cellOf_toInt, List.map_id]
  simp only [arraysOf, hcells]
  rfl

theorem toInt_inRange (cell : Cell) : -1 ≤ cell.toInt ∧ cell.toInt ≤ 4294967294 := by
  cases cell with
  | none => decide
  | some e =>
    have he := e.isLt
    simp only [Cell.toInt]
    omega

/-- **The text form loads back, and its range is exact.** A text that spells five lists of integers
as the fields of an object, in any order and with any white space, fails as JSON exactly if an
integer is below -1 or above the greatest entry, and otherwise loads as the arrays that the integers
stand for do. So what is written for tables loads as those tables. -/
theorem load_spelled_exact :
    (∀ (lists : Part → List Int) (order : List Part) (data : Bytes), order.Perm fieldOrder →
        Spells (objectOf lists order) data →
        (load data = .error .json ↔ ∃ part, ∃ n ∈ lists part, n < -1 ∨ 4294967294 < n) ∧
          ((∀ part, ∀ n ∈ lists part, -1 ≤ n ∧ n ≤ 4294967294) →
            load data = Table.ofArrays (arraysOf lists))) ∧
      ∀ t : Table, load (encode t.toArrays) = .ok t := by
  have hloads : ∀ (lists : Part → List Int) (order : List Part) (data : Bytes),
      order.Perm fieldOrder → Spells (objectOf lists order) data →
      (∀ part, ∀ n ∈ lists part, -1 ≤ n ∧ n ≤ 4294967294) →
        load data = Table.ofArrays (arraysOf lists) := by
    intro lists order data horder hspells hrange
    rw [load, arrays?_of_inRange horder hspells hrange]
  refine ⟨?_, ?_⟩
  · intro lists order data horder hspells
    refine ⟨⟨?_, ?_⟩, hloads lists order data horder hspells⟩
    · intro hjson
      by_contra hin
      have hrange : ∀ part, ∀ n ∈ lists part, -1 ≤ n ∧ n ≤ 4294967294 := by
        intro part n hn
        by_contra hout
        exact hin ⟨part, n, hn, by omega⟩
      rw [hloads lists order data horder hspells hrange] at hjson
      exact Table.ofArrays_ne_json _ hjson
    · rintro ⟨part, n, hn, hout⟩
      rw [load, arrays?_of_outOfRange horder hspells hn hout]
  · intro t
    have hspells := spells_object (fun part => (t.get part).toList.map Cell.toInt) fieldOrder
    have hload := hloads _ fieldOrder _ (.refl _) hspells fun part n hn => by
      obtain ⟨cell, -, rfl⟩ := List.mem_map.1 hn
      exact toInt_inRange cell
    rw [arraysOf_toInt] at hload
    exact hload.trans t.ofArrays_toArrays

/-- The arrays of one state without edges, with the rule that it accepts. -/
def oneState (rule : Int) : Part → List Int
  | .base => [0]
  | .fallback => [-1]
  | .accept => [rule]
  | .check | .transition => []

/-- Fields in an order that is not that of the writer. -/
def shuffled : List Part := [.accept, .check, .base, .transition, .fallback]

/-- The greatest entry loads, behind a blank too, and the number above it does not. -/
theorem load_spelled_exact_oneState :
    shuffled.Perm fieldOrder ∧
      load (0x20 :: (objectOf (oneState 4294967294) shuffled).flatMap Lexeme.text) =
        Table.ofArrays ⟨#[some 0], #[none], #[], #[], #[some 4294967294]⟩ ∧
      load ((objectOf (oneState 4294967295) shuffled).flatMap Lexeme.text) = .error .json := by
  have horder : shuffled.Perm fieldOrder := by decide
  have hspelled := load_spelled_exact.1
  refine ⟨horder, ?_, ?_⟩
  · have hspace : ∀ b ∈ ([0x20] : Bytes), isSpace b := by simp [isSpace]
    have hspells : Spells (objectOf (oneState 4294967294) shuffled)
        (0x20 :: (objectOf (oneState 4294967294) shuffled).flatMap Lexeme.text) :=
      .next hspace (spells_flatMap _)
    refine (hspelled _ _ _ horder hspells).2 ?_
    intro part
    cases part <;> decide
  · refine (hspelled _ _ _ horder (spells_flatMap _)).1.2 ⟨.accept, 4294967295, ?_, ?_⟩
    · decide
    · decide

example : object [("base", [0, -1]), ("check", [])] =
    Bytes.ascii "\x7b\"base\":[0,-1],\"check\":[]\x7d" := by
  decide +kernel

end Json

end CombLexer
