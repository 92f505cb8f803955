/-
What is said of a file, whatever bytes it holds.

A reader goes through a file from the front, and can stop at every step. But where
it stops can be told beforehand: each array has a place that the two counts alone
determine, so what is left for it is known from the length of the file
(`isCutShort`). `verdict` is the answer read off like that, without taking anything
off the file, and `load_eq_verdict` says that it is the one that loading gives.

Each step of the reader is an equation at a place of the file: `takeWord_at` for a
word, `takeArray_at` for an array. A file that loads has the one length that its
counts ask for, so no file that loads goes on as another (`load_classified`).
-/
import CombLexer.Proofs.Table.BinaryForm

namespace CombLexer.Binary

open Fallible

variable {data : Bytes}

/-! ## The verdict -/

/-- How many cells an array has. -/
def countOf (states slots : Nat) : Part → Nat
  | .base | .fallback | .accept => states
  | .check | .transition => slots

/-- The arrays as they stand one behind the other in a file. -/
def fileOrder : List Part := [.base, .fallback, .accept, .check, .transition]

/-- Behind the arrays before it, fewer bytes are left for an array than its cells take. -/
def isCutShort (data : Bytes) (part : Part) : Bool :=
  data.length - (8 + 4 * placeOf (wordAt data 0) (wordAt data 1) part) <
    4 * countOf (wordAt data 0) (wordAt data 1) part

theorem isCutShort_iff {part : Part} : isCutShort data part ↔
    data.length - (8 + 4 * placeOf (wordAt data 0) (wordAt data 1) part) <
      4 * countOf (wordAt data 0) (wordAt data 1) part :=
  decide_eq_true_iff

/-- The `n` cells from a place on. -/
def cellsAt (data : Bytes) (place n : Nat) : Array Cell :=
  ((List.range n).map fun i => Cell.ofNat (wordAt data (place + i))).toArray

/-- The cells of an array, at the place where the counts say that it stands. -/
def arrayAt (data : Bytes) (part : Part) : Array Cell :=
  cellsAt data (placeOf (wordAt data 0) (wordAt data 1) part)
    (countOf (wordAt data 0) (wordAt data 1) part)

def arraysAt (data : Bytes) : Arrays where
  base := arrayAt data .base
  fallback := arrayAt data .fallback
  check := arrayAt data .check
  transition := arrayAt data .transition
  accept := arrayAt data .accept

/-- The length that the counts ask for. -/
def fullLength (data : Bytes) : Nat := 16 + 4 * (3 * wordAt data 0 + 2 * wordAt data 1)

/-- What is to be said of a file. -/
def verdict (data : Bytes) : Except TableError Table :=
  if data.length < 8 then .error (.truncated .header)
  else if data.take 8 ≠ [0x4C, 0x58, 0x53, 0x54, 0x45, 0x50, 0x30, 0x31] then .error .badMagic
  else if data.length < 16 then .error (.truncated .header)
  else
    match fileOrder.find? (isCutShort data) with
    | some part => .error (.truncated (.part part))
    | none =>
      if fullLength data < data.length then .error (.trailingBytes (data.length - fullLength data))
      else Table.ofArrays (arraysAt data)

/-! ## The readers at a place -/

/-- The four bytes at a place, and what is behind them. -/
theorem drop_place {place : Nat} (h : 8 + 4 * (place + 1) ≤ data.length) :
    ∃ b₀ b₁ b₂ b₃,
      data.drop (8 + 4 * place) = b₀ :: b₁ :: b₂ :: b₃ :: data.drop (8 + 4 * (place + 1)) ∧
      wordAt data place = Bytes.ofLittleEndian [b₀, b₁, b₂, b₃] := by
  have hrest : data.drop (8 + 4 * (place + 1)) = (data.drop (8 + 4 * place)).drop 4 := by
    rw [List.drop_drop]
    congr 1
  have hlength : (data.drop (8 + 4 * place)).length = _ := List.length_drop
  rw [hrest, wordAt]
  generalize data.drop (8 + 4 * place) = left at hlength ⊢
  obtain _ | ⟨b₀, _ | ⟨b₁, _ | ⟨b₂, _ | ⟨b₃, rest⟩⟩⟩⟩ := left
  case cons.cons.cons.cons => exact ⟨b₀, b₁, b₂, b₃, rfl, rfl⟩
  all_goals
    simp only [List.length_cons, List.length_nil] at hlength
    omega

theorem takeWord_at (region : Region) (place : Nat) :
    takeWord region (data.drop (8 + 4 * place)) =
      if data.length < 8 + 4 * (place + 1) then .error (.truncated region)
      else .ok (wordAt data place, data.drop (8 + 4 * (place + 1))) := by
  by_cases hshort : data.length < 8 + 4 * (place + 1)
  · rw [if_pos hshort]
    have hlength : (data.drop (8 + 4 * place)).length = _ := List.length_drop
    generalize data.drop (8 + 4 * place) = left at hlength ⊢
    obtain _ | ⟨_, _ | ⟨_, _ | ⟨_, _ | ⟨_, rest⟩⟩⟩⟩ := left
    case cons.cons.cons.cons =>
      simp only [List.length_cons] at hlength
      omega
    all_goals rfl
  · obtain ⟨b₀, b₁, b₂, b₃, hdrop, hword⟩ := drop_place (Nat.le_of_not_lt hshort)
    rw [if_neg hshort, hdrop, hword]
    rfl

theorem takeCells_at {place n : Nat} (h : 4 * n ≤ data.length - (8 + 4 * place)) :
    takeCells n (data.drop (8 + 4 * place)) =
      ((cellsAt data place n).toList, data.drop (8 + 4 * (place + n))) := by
  induction n generalizing place with
  | zero => simp [takeCells, cellsAt]
  | succ n ih =>
    have hfirst : 8 + 4 * (place + 1) ≤ data.length := by omega
    obtain ⟨b₀, b₁, b₂, b₃, hdrop, hword⟩ := drop_place hfirst
    have hcells : (cellsAt data place (n + 1)).toList =
        Cell.ofNat (wordAt data place) :: (cellsAt data (place + 1) n).toList := by
      simp only [cellsAt, List.range_succ_eq_map, List.map_cons, List.map_map, Nat.add_zero]
      congr 2
      funext i
      simp only [Function.comp]
      congr 2
      omega
    rw [hdrop, takeCells, ih (by omega), hcells, hword, Nat.add_right_comm place 1 n]
    rfl

/-- As many bytes as are asked for are there exactly if they are enough for that many words. -/
theorem takeArray_at (part : Part) (place n : Nat) :
    takeArray part n (data.drop (8 + 4 * place)) =
      if data.length - (8 + 4 * place) < 4 * n then .error (.truncated (.part part))
      else .ok (cellsAt data place n, data.drop (8 + 4 * (place + n))) := by
  rw [takeArray, List.length_drop]
  by_cases hshort : data.length - (8 + 4 * place) < 4 * n
  · rw [if_pos hshort, if_pos (by omega)]
  · rw [if_neg hshort, if_neg (by omega), takeCells_at (Nat.le_of_not_lt hshort)]

/-! ## Loading -/

/-- The complaint about the first of some arrays that is cut short, or else what is read. -/
def unlessCut (data : Bytes) (parts : List Part) (read : Except TableError Arrays) :
    Except TableError Arrays :=
  match parts.find? (isCutShort data) with
  | some part => .error (.truncated (.part part))
  | none => read

/-- Reading stops at an array that is cut short, and else goes on behind it. -/
theorem takeArray_step {parts : List Part} {place : Nat} {read : Except TableError Arrays}
    {next : Array Cell × Bytes → Except TableError Arrays} (part : Part)
    (hplace : place = placeOf (wordAt data 0) (wordAt data 1) part)
    (hnext : next (arrayAt data part,
        data.drop (8 + 4 * (place + countOf (wordAt data 0) (wordAt data 1) part))) =
      unlessCut data parts read) :
    (takeArray part (countOf (wordAt data 0) (wordAt data 1) part) (data.drop (8 + 4 * place)) >>=
        next) =
      unlessCut data (part :: parts) read := by
  subst hplace
  rw [takeArray_at, unlessCut]
  by_cases hcut : isCutShort data part
  · rw [List.find?_cons_of_pos hcut, if_pos (isCutShort_iff.1 hcut)]
    rfl
  · rw [List.find?_cons_of_neg hcut, if_neg (mt isCutShort_iff.2 hcut)]
    exact hnext

theorem payload_of_magic (h8 : 8 ≤ data.length) (hmagic : data.take 8 = magic) :
    payload data = .ok (data.drop (8 + 4 * 0)) := by
  rw [payload, if_neg (Nat.not_lt.2 h8), if_pos hmagic]

/-- With a whole header, the arrays are read one after the other. -/
theorem arrays?_of_header (hlong : 16 ≤ data.length) (hmagic : data.take 8 = magic) :
    arrays? data = unlessCut data fileOrder
      (if fullLength data < data.length then .error (.trailingBytes (data.length - fullLength data))
       else .ok (arraysAt data)) := by
  rw [arrays?, payload_of_magic (by omega) hmagic, ok_bind, takeWord_at, if_neg (by omega), ok_bind]
  dsimp only
  rw [takeWord_at, if_neg (by omega), ok_bind]
  refine takeArray_step .base rfl ?_
  refine takeArray_step .fallback rfl ?_
  refine takeArray_step .accept (by simp only [placeOf, countOf]; omega) ?_
  refine takeArray_step .check (by simp only [placeOf, countOf]; omega) ?_
  refine takeArray_step .transition (by simp only [placeOf, countOf]; omega) ?_
  -- What is left behind the last array is what is longer than the counts ask for.
  simp only [unlessCut, List.find?_nil, countOf, List.isEmpty_iff_length_eq_zero, List.length_drop]
  have hleft : data.length - (8 + 4 * (2 + wordAt data 0 + wordAt data 0 + wordAt data 0 +
      wordAt data 1 + wordAt data 1)) = data.length - fullLength data := by
    rw [fullLength]
    omega
  rw [hleft]
  by_cases htrailing : fullLength data < data.length
  · rw [if_pos htrailing, if_neg (by omega)]
    rfl
  · rw [if_neg htrailing, if_pos (by omega)]
    rfl

/-- A file that ends in its header, behind the magic word. -/
theorem arrays?_of_short (h8 : 8 ≤ data.length) (h16 : data.length < 16)
    (hmagic : data.take 8 = magic) : arrays? data = .error (.truncated .header) := by
  rw [arrays?, payload_of_magic h8 hmagic, ok_bind, takeWord_at]
  by_cases h12 : data.length < 12
  · rw [if_pos h12]
    rfl
  · rw [if_neg h12, ok_bind]
    dsimp only
    rw [takeWord_at, if_pos h16]
    rfl

theorem magic_eq : magic = [0x4C, 0x58, 0x53, 0x54, 0x45, 0x50, 0x30, 0x31] := by decide

/-- Loading gives the verdict. -/
theorem load_eq_verdict (data : Bytes) : load data = verdict data := by
  rw [verdict, ← magic_eq]
  by_cases h8 : data.length < 8
  · rw [if_pos h8, load, arrays?, payload, if_pos h8]
    rfl
  rw [if_neg h8]
  by_cases hmagic : data.take 8 = magic
  · rw [if_neg (not_not_intro hmagic)]
    by_cases h16 : data.length < 16
    · rw [if_pos h16, load, arrays?_of_short (Nat.le_of_not_lt h8) h16 hmagic]
      rfl
    · rw [if_neg h16, load, arrays?_of_header (Nat.le_of_not_lt h16) hmagic, unlessCut]
      cases fileOrder.find? (isCutShort data) with
      | some part => rfl
      | none =>
        by_cases htrailing : fullLength data < data.length
        · simp only [if_pos htrailing]
          rfl
        · simp only [if_neg htrailing]
          rfl
  · rw [if_pos hmagic, load, arrays?, payload, if_neg h8, if_neg hmagic]
    rfl

/-! ## Files that load, and where they end -/

/-- Where no array is cut short, the file is as long as its counts ask for. -/
theorem find?_isCutShort_eq_none_iff (h : 16 ≤ data.length) :
    fileOrder.find? (isCutShort data) = none ↔ fullLength data ≤ data.length := by
  simp only [List.find?_eq_none, fileOrder, List.mem_cons, List.not_mem_nil, or_false,
    forall_eq_or_imp, forall_eq, isCutShort_iff, placeOf, countOf, fullLength]
  omega

/-- What is behind a place does not change the word that stands there. -/
theorem wordAt_append {rest : Bytes} {place : Nat} (h : 8 + 4 * (place + 1) ≤ data.length) :
    wordAt (data ++ rest) place = wordAt data place := by
  rw [wordAt, wordAt, List.drop_append_of_le_length (by omega),
    List.take_append_of_le_length (by rw [List.length_drop]; omega)]

theorem fullLength_append {rest : Bytes} (h : 16 ≤ data.length) :
    fullLength (data ++ rest) = fullLength data := by
  rw [fullLength, fullLength, wordAt_append (by omega), wordAt_append (by omega)]

/-- A file that loads begins with the magic word and has the length that its counts ask for. -/
theorem header_of_load {t : Table} (h : load data = .ok t) :
    data.take 8 = magic ∧ data.length = fullLength data := by
  obtain ⟨hslots, hdata⟩ := load_eq_ok.1 h
  have hlaid : LaidOut data t.toArrays := hdata ▸ laidOut_encode (sized_of_table hslots)
  refine ⟨hlaid.magic.trans magic_eq.symm, ?_⟩
  rw [fullLength, hlaid.states, hlaid.slots]
  exact hlaid.length

/-- A file that loads and goes on has trailing bytes. -/
theorem load_append {rest : Bytes} {t : Table} (hrest : rest ≠ []) (h : load data = .ok t) :
    load (data ++ rest) = .error (.trailingBytes rest.length) := by
  obtain ⟨hmagic, hlength⟩ := header_of_load h
  have h16 : 16 ≤ data.length := hlength ▸ Nat.le_add_right _ _
  have hpos : 0 < rest.length := List.length_pos_iff.2 hrest
  have hfull : fullLength (data ++ rest) = data.length := by rw [fullLength_append h16, hlength]
  have hnone : fileOrder.find? (isCutShort (data ++ rest)) = none := by
    rw [find?_isCutShort_eq_none_iff (by rw [List.length_append]; omega), hfull, List.length_append]
    exact Nat.le_add_right _ _
  have hmagic' : (data ++ rest).take 8 = magic := by
    rw [List.take_append_of_le_length (by omega), hmagic]
  rw [load_eq_verdict, verdict, ← magic_eq, hnone, hfull, List.length_append, if_neg (by omega),
    if_neg (not_not_intro hmagic'), if_neg (by omega), if_pos (by omega), Nat.add_sub_cancel_left]

/-- A file that would load if it went on is truncated. -/
theorem load_of_append {rest : Bytes} {t : Table} (hrest : rest ≠ [])
    (h : load (data ++ rest) = .ok t) : ∃ region, load data = .error (.truncated region) := by
  obtain ⟨hmagic, hlength⟩ := header_of_load h
  have hpos : 0 < rest.length := List.length_pos_iff.2 hrest
  rw [load_eq_verdict, verdict, ← magic_eq]
  by_cases h8 : data.length < 8
  · exact ⟨.header, if_pos h8⟩
  rw [List.take_append_of_le_length (Nat.le_of_not_lt h8)] at hmagic
  rw [if_neg h8, if_neg (not_not_intro hmagic)]
  by_cases h16 : data.length < 16
  · exact ⟨.header, if_pos h16⟩
  rw [if_neg h16]
  have hsome : fileOrder.find? (isCutShort data) ≠ none := by
    rw [Ne, find?_isCutShort_eq_none_iff (Nat.le_of_not_lt h16)]
    rw [fullLength_append (Nat.le_of_not_lt h16), List.length_append] at hlength
    omega
  obtain ⟨part, hpart⟩ := Option.ne_none_iff_exists'.1 hsome
  exact ⟨.part part, by rw [hpart]⟩

/-- **Every byte string has its verdict**, and loading gives it. So of two files of which one goes
on as the other at most one loads: the longer has trailing bytes or the shorter is truncated. -/
theorem load_classified :
    (∀ data : Bytes, load data = verdict data) ∧
      (∀ (data rest : Bytes) (t : Table), rest ≠ [] → load data = .ok t →
        load (data ++ rest) = .error (.trailingBytes rest.length)) ∧
      ∀ (data rest : Bytes) (t : Table), rest ≠ [] → load (data ++ rest) = .ok t →
        ∃ region, load data = .error (.truncated region) :=
  ⟨load_eq_verdict, fun _ _ _ => load_append, fun _ _ _ => load_of_append⟩

/-- The file of two states and three slots has 64 bytes. One byte behind it is too many; after 30
bytes two are missing for the fallbacks, and after 14 bytes for the second count. -/
theorem load_classified_lopsided :
    load (encode lopsided.toArrays ++ [0]) = .error (.trailingBytes 1) ∧
      (∃ region, load ((encode lopsided.toArrays).take 30) = .error (.truncated region)) ∧
      load ((encode lopsided.toArrays).take 30) = .error (.truncated (.part .fallback)) ∧
      load ((encode lopsided.toArrays).take 14) = .error (.truncated .header) := by
  obtain ⟨hverdict, hextended, hcut⟩ := load_classified
  have hload : load (encode lopsided.toArrays) = .ok lopsided := load_eq_ok.2 ⟨by decide, rfl⟩
  refine ⟨hextended _ [0] lopsided (by decide) hload, ?_, ?_, ?_⟩
  · refine hcut _ ((encode lopsided.toArrays).drop 30) lopsided (by decide +kernel) ?_
    rw [List.take_append_drop]
    exact hload
  · have hpart : fileOrder.find? (isCutShort ((encode lopsided.toArrays).take 30)) =
        some .fallback := by decide +kernel
    rw [hverdict, verdict, hpart]
    rfl
  · rw [hverdict]
    rfl

end CombLexer.Binary
