/-
The binary form holds tables exactly.

Each reader takes off the front of a file what the writer puts there and refuses
everything else: `takeWord_eq_ok` for one word, `takeArray_eq_ok` for an array,
`arrays?_eq_ok` for the five arrays with nothing behind them. So a file that
loads is the one that is written for its tables, and there is no second one
(`encode_load_inverse`). `LaidOut` says, without the writer, where in a file each
number stands.
-/
import CombLexer.Proofs.Bytes
import CombLexer.Proofs.Fallible
import CombLexer.Proofs.Table.Validity
import CombLexer.Table.Binary

namespace CombLexer

open Fallible

namespace Binary

/-! ## Words -/

/-- The limit below which the numbers of a word lie. -/
def wordLimit : Nat := 4294967296

@[simp] theorem length_word (n : Nat) : (word n).length = 4 := Bytes.length_littleEndian 4 n

theorem ofLittleEndian_word {n : Nat} (h : n < wordLimit) : Bytes.ofLittleEndian (word n) = n := by
  rw [word, Bytes.ofLittleEndian_littleEndian]
  exact Nat.mod_eq_of_lt h

theorem word_ofLittleEndian (b₀ b₁ b₂ b₃ : UInt8) :
    word (Bytes.ofLittleEndian [b₀, b₁, b₂, b₃]) = [b₀, b₁, b₂, b₃] :=
  Bytes.littleEndian_ofLittleEndian [b₀, b₁, b₂, b₃]

theorem ofLittleEndian_lt (b₀ b₁ b₂ b₃ : UInt8) :
    Bytes.ofLittleEndian [b₀, b₁, b₂, b₃] < wordLimit :=
  Bytes.ofLittleEndian_lt [b₀, b₁, b₂, b₃]

theorem cell_lt (cell : Cell) : cell.toNat < wordLimit := by
  cases cell with
  | none => decide
  | some e =>
    have he := e.isLt
    simp only [Cell.toNat, wordLimit]
    omega

/-- A word read as a cell is the word of that cell. -/
theorem word_toNat_ofNat (b₀ b₁ b₂ b₃ : UInt8) :
    word (Cell.ofNat (Bytes.ofLittleEndian [b₀, b₁, b₂, b₃])).toNat = [b₀, b₁, b₂, b₃] := by
  have hlt := ofLittleEndian_lt b₀ b₁ b₂ b₃
  rw [Cell.toNat_ofNat (Nat.le_of_lt_succ hlt), word_ofLittleEndian]

/-! ## What the readers accept -/

theorem takeWord_eq_ok {region : Region} {data rest : Bytes} {n : Nat} :
    takeWord region data = .ok (n, rest) ↔ n < wordLimit ∧ data = word n ++ rest := by
  constructor
  · intro h
    unfold takeWord at h
    split at h
    · next b₀ b₁ b₂ b₃ rest' =>
      simp only [Except.ok.injEq, Prod.mk.injEq] at h
      obtain ⟨rfl, rfl⟩ := h
      rw [word_ofLittleEndian]
      exact ⟨ofLittleEndian_lt b₀ b₁ b₂ b₃, rfl⟩
    · cases h
  · rintro ⟨hn, rfl⟩
    have hword := ofLittleEndian_word hn
    simp only [word, Bytes.littleEndian] at hword ⊢
    simp only [List.cons_append, List.nil_append, takeWord, hword]

theorem words_cons (cell : Cell) (cells : List Cell) :
    words (cell :: cells).toArray = word cell.toNat ++ words cells.toArray := by
  simp [words]

/-- Where there are bytes for `n` cells, that many are taken. -/
theorem takeCells_spec {n : Nat} {data : Bytes} (h : 4 * n ≤ data.length) :
    (takeCells n data).1.length = n ∧
      data = words (takeCells n data).1.toArray ++ (takeCells n data).2 := by
  induction n generalizing data with
  | zero => simp [takeCells, words]
  | succ n ih =>
    match data, h with
    | b₀ :: b₁ :: b₂ :: b₃ :: rest, h =>
      have hrest : 4 * n ≤ rest.length := by
        simp only [List.length_cons] at h
        omega
      obtain ⟨hlen, hdata⟩ := ih hrest
      simp only [takeCells, List.length_cons, hlen, words_cons, word_toNat_ofNat]
      refine ⟨trivial, ?_⟩
      rw [List.append_assoc, ← hdata]
      rfl
    | [], h | [_], h | [_, _], h | [_, _, _], h =>
      simp only [List.length_cons, List.length_nil] at h
      omega

theorem takeCells_words (cells : List Cell) (rest : Bytes) :
    takeCells cells.length (words cells.toArray ++ rest) = (cells, rest) := by
  induction cells with
  | nil => simp [takeCells, words]
  | cons cell cells ih =>
    have hword := ofLittleEndian_word (cell_lt cell)
    rw [words_cons]
    simp only [word, Bytes.littleEndian] at hword ⊢
    simp only [List.cons_append, List.nil_append, List.length_cons, takeCells, hword, ih,
      Cell.ofNat_toNat]

@[simp] theorem length_words (cells : Array Cell) : (words cells).length = 4 * cells.size := by
  simp [words, List.length_flatMap, Nat.mul_comm]

theorem takeArray_eq_ok {part : Part} {n : Nat} {data rest : Bytes} {cells : Array Cell} :
    takeArray part n data = .ok (cells, rest) ↔ cells.size = n ∧ data = words cells ++ rest := by
  unfold takeArray
  constructor
  · intro h
    split at h
    · cases h
    · next hlong =>
      obtain ⟨hlen, hdata⟩ := takeCells_spec (show 4 * n ≤ data.length by omega)
      simp only [Except.ok.injEq, Prod.mk.injEq] at h
      obtain ⟨rfl, rfl⟩ := h
      exact ⟨hlen, hdata⟩
  · rintro ⟨rfl, rfl⟩
    have htake := takeCells_words cells.toList rest
    have hlong : ¬ (words cells ++ rest).length / 4 < cells.size := by
      rw [List.length_append, length_words]
      omega
    rw [Array.toArray_toList, Array.length_toList] at htake
    simp only [if_neg hlong, htake, Array.toArray_toList]

theorem payload_eq_ok {data rest : Bytes} : payload data = .ok rest ↔ data = magic ++ rest := by
  unfold payload
  constructor
  · intro h
    split at h
    · cases h
    · split at h
      · next hmagic =>
        cases h
        rw [← hmagic, List.take_append_drop]
      · cases h
  · rintro rfl
    have hlen : magic.length = 8 := by decide
    have hlong : ¬ (magic ++ rest).length < 8 := by
      rw [List.length_append]
      omega
    rw [if_neg hlong, if_pos (List.take_left' hlen), List.drop_left' hlen]

/-! ## Whole files -/

/-- The numbers of states and slots fit their words, and every array has the length that its number
says. -/
structure Sized (a : Arrays) : Prop where
  states_lt : a.base.size < wordLimit
  slots_lt : a.check.size < wordLimit
  fallback : a.fallback.size = a.base.size
  accept : a.accept.size = a.base.size
  transition : a.transition.size = a.check.size

/-- The arrays in a file are those that it is written for. -/
theorem arrays?_eq_ok {data : Bytes} {a : Arrays} :
    arrays? data = .ok a ↔ Sized a ∧ data = encode a := by
  simp only [arrays?, bind_eq_ok, Prod.exists, payload_eq_ok, takeWord_eq_ok, takeArray_eq_ok]
  constructor
  · rintro ⟨_, rfl, states, _, ⟨hstates, rfl⟩, slots, _, ⟨hslots, rfl⟩, base, _, ⟨rfl, rfl⟩,
      fallback, _, ⟨hfallback, rfl⟩, accept, _, ⟨haccept, rfl⟩, check, _, ⟨rfl, rfl⟩, transition,
      rest, ⟨htransition, rfl⟩, h⟩
    split at h
    · next hrest =>
      cases h
      refine ⟨⟨hstates, hslots, hfallback, haccept, htransition⟩, ?_⟩
      simp [encode, List.isEmpty_iff.1 hrest]
    · cases h
  · rintro ⟨h, rfl⟩
    refine ⟨_, by simp only [encode, List.append_assoc], _, _, ⟨h.states_lt, rfl⟩, _, _,
      ⟨h.slots_lt, rfl⟩, _, _, ⟨rfl, rfl⟩, _, _, ⟨h.fallback, rfl⟩, _, _, ⟨h.accept, rfl⟩, _, _,
      ⟨rfl, rfl⟩, _, [], ⟨h.transition, (List.append_nil _).symm⟩, rfl⟩

theorem sized_of_table {t : Table} (h : t.slotCount < wordLimit) : Sized t.toArrays := by
  have hvalid := t.valid
  have hstates : t.base.size < Cell.absentWord := hvalid.size_lt
  exact ⟨Nat.lt_trans hstates (by decide), h, hvalid.fallback_size, hvalid.accept_size,
    hvalid.transition_size⟩

/-- A file loads as tables exactly if it is written for them. -/
theorem load_eq_ok {data : Bytes} {t : Table} :
    load data = .ok t ↔ t.slotCount < wordLimit ∧ data = encode t.toArrays := by
  simp only [load, bind_eq_ok, arrays?_eq_ok]
  constructor
  · rintro ⟨a, ⟨hsized, rfl⟩, ht⟩
    rw [← Table.toArrays_of_ofArrays ht] at hsized ⊢
    exact ⟨hsized.slots_lt, rfl⟩
  · rintro ⟨hslots, rfl⟩
    exact ⟨t.toArrays, ⟨sized_of_table hslots, rfl⟩, t.ofArrays_toArrays⟩

/-! ## Where the numbers stand -/

/-- The number in the word at a place of a file, counted in words behind the magic word. -/
def wordAt (data : Bytes) (place : Nat) : Nat :=
  Bytes.ofLittleEndian ((data.drop (8 + 4 * place)).take 4)

/-- The place of the first cell of an array. The rules come before the comb. -/
def placeOf (states slots : Nat) : Part → Nat
  | .base => 2
  | .fallback => 2 + states
  | .accept => 2 + 2 * states
  | .check => 2 + 3 * states
  | .transition => 2 + 3 * states + slots

/-- A file is laid out for five arrays: it begins with the magic word, holds the two numbers and
each cell at its place, and has nothing else. -/
structure LaidOut (data : Bytes) (a : Arrays) : Prop where
  magic : data.take 8 = [0x4C, 0x58, 0x53, 0x54, 0x45, 0x50, 0x30, 0x31]
  length : data.length = 16 + 4 * (3 * a.base.size + 2 * a.check.size)
  states : wordAt data 0 = a.base.size
  slots : wordAt data 1 = a.check.size
  cell : ∀ (part : Part) (i : Nat) (cell : Cell), (a.get part)[i]? = some cell →
    wordAt data (placeOf a.base.size a.check.size part + i) = cell.toNat

theorem wordAt_of_beginsWith {data : Bytes} (front : Bytes) {place n : Nat} (hn : n < wordLimit)
    (hfront : front ++ word n <+: data) (hplace : front.length = 8 + 4 * place) :
    wordAt data place = n := by
  obtain ⟨back, rfl⟩ := hfront
  rw [wordAt, List.append_assoc, List.drop_left' hplace, List.take_left' (length_word n),
    ofLittleEndian_word hn]

/-- The words of an array, cut at one of its cells. -/
theorem words_split {cells : Array Cell} {i : Nat} {cell : Cell} (hi : cells[i]? = some cell) :
    words cells = words (cells.toList.take i).toArray ++
      (word cell.toNat ++ words (cells.toList.drop (i + 1)).toArray) := by
  rw [← Array.getElem?_toList] at hi
  obtain ⟨hlt, hcell⟩ := List.getElem?_eq_some_iff.1 hi
  rw [← words_cons, ← hcell, ← List.drop_eq_getElem_cons hlt]
  simp only [words, ← List.flatMap_append, List.take_append_drop]

/-- In an array that begins at a place, the words follow one another. -/
theorem wordAt_words {data : Bytes} (front : Bytes) {cells : Array Cell} {place i : Nat}
    {cell : Cell} (hi : cells[i]? = some cell) (hfront : front ++ words cells <+: data)
    (hplace : front.length = 8 + 4 * place) : wordAt data (place + i) = cell.toNat := by
  have hlt := (Array.getElem?_eq_some_iff.1 hi).1
  refine wordAt_of_beginsWith (front ++ words (cells.toList.take i).toArray) (cell_lt cell) ?_ ?_
  · refine List.IsPrefix.trans ?_ hfront
    rw [words_split hi, List.append_assoc]
    simp
  · simp [hplace]
    omega

/-- What stands before the arrays in a file. -/
def header (a : Arrays) : Bytes := magic ++ word a.base.size ++ word a.check.size

/-- What stands before an array in a file. -/
def before (a : Arrays) : Part → Bytes
  | .base => header a
  | .fallback => header a ++ words a.base
  | .accept => header a ++ words a.base ++ words a.fallback
  | .check => header a ++ words a.base ++ words a.fallback ++ words a.accept
  | .transition => header a ++ words a.base ++ words a.fallback ++ words a.accept ++ words a.check

theorem encode_beginsWith (a : Arrays) (part : Part) :
    before a part ++ words (a.get part) <+: encode a := by
  cases part <;> simp [encode, before, header, Arrays.get]

theorem length_before {a : Arrays} (h : Sized a) (part : Part) :
    (before a part).length = 8 + 4 * placeOf a.base.size a.check.size part := by
  have hmagic : magic.length = 8 := by decide
  have hfallback := h.fallback
  have haccept := h.accept
  cases part <;> simp [before, header, hmagic, placeOf] <;> omega

/-- What is written for arrays is laid out for them. -/
theorem laidOut_encode {a : Arrays} (h : Sized a) : LaidOut (encode a) a := by
  have hmagic : magic.length = 8 := by decide
  refine ⟨?_, ?_, ?_, ?_, ?_⟩
  · simp only [encode, List.append_assoc]
    exact List.take_left' hmagic
  · simp [encode, hmagic, h.fallback, h.accept, h.transition]
    omega
  · refine wordAt_of_beginsWith magic h.states_lt ?_ hmagic
    simp [encode]
  · refine wordAt_of_beginsWith (magic ++ word a.base.size) h.slots_lt ?_ ?_
    · simp [encode]
    · simp [hmagic]
  · intro part i cell hi
    exact wordAt_words (before a part) hi (encode_beginsWith a part) (length_before h part)

/-! ## Both directions -/

/-- **The binary form is a bijection** from the tables whose slots can be counted in a word onto the
files that load. What is written for tables is laid out for them and loads as those tables, and a
file that loads is the one that is written, so no two files load as the same tables. -/
theorem encode_load_inverse :
    (∀ t : Table, t.slotCount < wordLimit →
        LaidOut (encode t.toArrays) t.toArrays ∧ load (encode t.toArrays) = .ok t) ∧
      (∀ (data : Bytes) (t : Table), load data = .ok t →
        t.slotCount < wordLimit ∧ encode t.toArrays = data) ∧
      ∀ (data data' : Bytes) (t : Table), load data = .ok t → load data' = .ok t → data = data' := by
  refine ⟨?_, ?_, ?_⟩
  · intro t hslots
    exact ⟨laidOut_encode (sized_of_table hslots), load_eq_ok.2 ⟨hslots, rfl⟩⟩
  · intro data t hload
    obtain ⟨hslots, hdata⟩ := load_eq_ok.1 hload
    exact ⟨hslots, hdata.symm⟩
  · intro data data' t hload hload'
    rw [(load_eq_ok.1 hload).2, (load_eq_ok.1 hload').2]

/-- Tables of two states and three slots, in which the slots without an owner hold what they like. -/
def lopsided : Table where
  base := #[.ofNat 0, none]
  fallback := #[none, .ofNat 0]
  check := #[none, .ofNat 0, none]
  transition := #[.ofNat 1234, .ofNat 1, none]
  accept := #[none, .ofNat 7]
  sound := by decide

theorem encode_load_inverse_lopsided :
    lopsided.slotCount < wordLimit ∧ load (encode lopsided.toArrays) = .ok lopsided ∧
      (encode lopsided.toArrays).length = 64 ∧ wordAt (encode lopsided.toArrays) 11 = 1234 ∧
      ∀ data, load data = .ok lopsided → data = encode lopsided.toArrays := by
  have hslots : lopsided.slotCount < wordLimit := by decide
  obtain ⟨hlaid, hload⟩ := encode_load_inverse.1 lopsided hslots
  refine ⟨hslots, hload, hlaid.length, ?_, ?_⟩
  · exact hlaid.cell .transition 0 (some 1234) rfl
  · intro data hdata
    exact encode_load_inverse.2.2 data _ lopsided hdata hload

end Binary

end CombLexer
