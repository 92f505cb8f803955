/-
Where a walk ends, in terms of the bytes at hand.

`walk_eq` says all that a walk does in one equation: with the input over it
settles on the longest match; else it is suspended where the bytes at hand are
used up, with the best match on them on record, or it settles on that match
where they lead no further. `step_longest` reads off it that a walk over the
rest of the input finds the longest match and takes nothing else away.
-/
import CombLexer.Proofs.Scan.Positions
import CombLexer.Proofs.Table.Longest

namespace CombLexer

namespace Buffer

variable {σ : Type}

/-- The bytes at hand behind the cursor. -/
def ahead (b : Buffer σ) : Bytes := b.content.toList.drop b.cursor

/-- Records a match on the bytes behind the cursor, if there is one. -/
def record (b : Buffer σ) : Option Match → Buffer σ
  | some m => { b with lastMatchEnd := b.cursor + m.length, matchedRule := some m.rule }
  | none => b

/-- Moves the cursor over `n` bytes at hand. -/
def pass (b : Buffer σ) (n : Nat) : Buffer σ := { b with cursor := b.cursor + n }

theorem ahead_length (b : Buffer σ) : b.ahead.length = b.unread := by
  simp [ahead, unread]

theorem ahead_eq_cons {b : Buffer σ} {c : UInt8} (h : b.peek = some c) :
    b.ahead = c :: b.advance.ahead := by
  obtain ⟨hlt, hc⟩ := Array.getElem?_eq_some_iff.1 h
  have hlt' : b.cursor < b.content.toList.length := by rwa [Array.length_toList]
  simp only [ahead, advance, if_pos hlt]
  rw [List.drop_eq_getElem_cons hlt', Array.getElem_toList, hc]

theorem ahead_eq_nil {b : Buffer σ} (h : b.peek = none) : b.ahead = [] := by
  have hle := Array.getElem?_eq_none_iff.1 h
  exact List.drop_eq_nil_of_le (by rwa [Array.length_toList])

@[simp] theorem enter_ahead (b : Buffer σ) (rule : Option Nat) : (b.enter rule).ahead = b.ahead := by
  cases rule <;> rfl

theorem pass_pass (b : Buffer σ) (n k : Nat) : (b.pass n).pass k = b.pass (n + k) := by
  simp only [pass, Nat.add_assoc]

/-- Where the cursor stands makes no difference to how a walk is settled. -/
@[simp] theorem settle_pass (b : Buffer σ) (n : Nat) : (b.pass n).settle = b.settle := rfl

/-- A match behind one more byte: where none is found, that byte may itself end one. -/
theorem record_enter_advance {b : Buffer σ} {c : UInt8} (h : b.peek = some c) (rule : Option Nat)
    (m : Option Match) :
    (b.advance.enter rule).record m =
      (b.record ((m.map (·.behind 1)).or (rule.map (⟨1, ·⟩)))).pass 1 := by
  have hlt := (advance_cursor h).1
  simp only [advance, if_pos hlt]
  cases m with
  | some m =>
    have hlen : b.cursor + 1 + m.length = b.cursor + (m.length + 1) := by omega
    cases rule <;> simp [enter, markMatch, record, pass, Match.behind, hlen]
  | none => cases rule <;> rfl

end Buffer

open Buffer

variable {σ : Type}

/-- All that a walk does. -/
theorem Table.walk_eq (t : Table) (s : Nat) (b : Buffer σ) :
    t.walk s b =
      if b.atEnd then (b.record (t.longest? s b.ahead)).settle
      else
        match t.after? s b.ahead with
        | some s' =>
          (.ok (.suspended s'), (b.record (t.best? s b.ahead)).pass b.ahead.length)
        | none => (b.record (t.best? s b.ahead)).settle := by
  fun_induction Table.walk t s b with
  | case1 s b c hc s' hs ih =>
    simp only [enter_atEnd, advance_atEnd, enter_ahead, record_enter_advance hc, settle_pass] at ih
    rw [ih, ahead_eq_cons hc]
    simp only [Table.longest?_cons, Table.after?, Table.best?, hs, Option.bind_some,
      List.length_cons, pass_pass, Nat.add_comm 1]
  | case2 s b c hc hs =>
    rw [ahead_eq_cons hc]
    simp [Table.longest?_cons, Table.after?, Table.best?, hs, record]
  | case3 s b hc hend s' hs =>
    rw [if_pos hend, ahead_eq_nil hc, Table.longest?_nil, hs]
    cases hr : t.rule? s' <;> simp [hr, enter, markMatch, record]
  | case4 s b hc hend hs =>
    rw [if_pos hend, ahead_eq_nil hc, Table.longest?_nil, hs]
    rfl
  | case5 s b hc hend =>
    rw [if_neg hend, ahead_eq_nil hc]
    rfl

/-- A walk from one of the tables' states has an answer. -/
theorem Table.step_eq {t : Table} {s : Nat} (hs : s < t.size) (b : Buffer σ) :
    t.step s b = .ok (t.walk s b) := by
  unfold Table.step Table.answer
  rw [if_pos hs]
  split <;> rfl

theorem Buffer.lexeme_eq (b : Buffer σ) :
    b.lexeme = (b.content.toList.drop b.start).take (b.cursor - b.start) := by
  rw [Buffer.lexeme, Array.toList_extract, List.extract_eq_take_drop]

/-- **The longest match.** A walk over the rest of the input, from one of the tables' states, is
settled on the longest match there is, which is the lexeme, or finds none if there is none. Only
the cursor and the match of the buffer change, and the cursor stands where the match ends. -/
theorem Table.step_longest (t : Table) {s : Nat} (hs : s < t.size) (b : Buffer σ)
    (hend : b.atEnd = true) :
    ∃ result b', t.step s b.openToken = .ok (result, b') ∧
      b'.start = b.cursor ∧ b'.content = b.content ∧ b'.atEnd = b.atEnd ∧ b'.source = b.source ∧
      b'.discarded = b.discarded ∧ b'.cursor = b'.lastMatchEnd ∧
      ((∃ m, (∀ m', t.Longest s b.ahead m' ↔ m' = m) ∧ result = .ok (.matched m.rule) ∧
          b'.matchedRule = some m.rule ∧ b'.cursor = b.cursor + m.length ∧
          b'.lexeme = b.ahead.take m.length) ∨
        ((∀ m, ¬ t.Longest s b.ahead m) ∧ result = .error (.noMatch b.cursorOffset) ∧
          b'.matchedRule = none ∧ b'.cursor = b.cursor)) := by
  have hwalk : t.walk s b.openToken = (b.openToken.record (t.longest? s b.ahead)).settle := by
    have hopen : b.openToken.atEnd = true := hend
    rw [Table.walk_eq, if_pos hopen]
    rfl
  refine ⟨_, _, (Table.step_eq hs _).trans (congrArg _ hwalk), ?_⟩
  cases hm : t.longest? s b.ahead with
  | none =>
    refine ⟨rfl, rfl, rfl, rfl, rfl, rfl, .inr ⟨?_, rfl, rfl, rfl⟩⟩
    exact Table.longest?_eq_none_iff.1 hm
  | some m =>
    refine ⟨rfl, rfl, rfl, rfl, rfl, rfl, .inl ⟨m, fun m' => ?_, rfl, rfl, rfl, ?_⟩⟩
    · rw [← Table.longest?_eq_some_iff, hm, Option.some.injEq, eq_comm]
    · rw [Buffer.lexeme_eq]
      show (b.content.toList.drop b.cursor).take (b.cursor + m.length - b.cursor) = _
      rw [Nat.add_sub_cancel_left]
      rfl

/-- Tables of three states: byte 0 leads to a state that accepts rule 7, and byte 1 on from there
to one that accepts nothing. -/
def Table.backingOff : Table where
  base := #[some 0, some 0, none]
  fallback := #[none, none, none]
  check := #[some 0, some 1]
  transition := #[some 1, some 2]
  accept := #[none, some 7, none]
  sound := by decide

/-- Behind bytes 0 and 1 there is no match of two bytes, so the walk goes back to the first. -/
theorem Table.step_longest_backingOff :
    0 < Table.backingOff.size ∧ (Buffer.ofBytes [0, 1]).atEnd = true ∧
      ∃ b', Table.backingOff.step 0 (Buffer.ofBytes [0, 1]).openToken = .ok (.ok (.matched 7), b') ∧
        b'.lexeme = [0] := by
  have hs : 0 < Table.backingOff.size := by decide
  obtain ⟨result, b', hstep, -, -, -, -, -, -, hres⟩ :=
    Table.backingOff.step_longest hs (Buffer.ofBytes [0, 1]) rfl
  have hlong : Table.backingOff.Longest 0 (Buffer.ofBytes [0, 1]).ahead ⟨1, 7⟩ :=
    Table.longest?_eq_some_iff.1 (by decide)
  refine ⟨hs, rfl, b', ?_⟩
  rcases hres with ⟨m, hm, rfl, -, -, hlex⟩ | ⟨hno, -⟩
  · obtain rfl := (hm _).1 hlong
    exact ⟨hstep, hlex⟩
  · exact absurd hlong (hno _)

end CombLexer
