/-
A walk over a part of the input is final, or can be taken up again.

`Buffer.extend` puts a text behind the bytes at hand. What a walk does on the
extended buffer can be told from what it does on the part (`Table.walk_extend`):
where the part settles it the text makes no difference, and where it is
suspended on the part the rest of the walk starts from the state that it names.
Dropping the bytes before the token makes no difference to a walk either, but
for the positions, which move along (`Buffer.walk_compact`). Together they are
why a state and a buffer are all that has to be kept between two pieces of the
input.
-/
import CombLexer.Proofs.Scan.Safety

namespace CombLexer

variable {σ : Type}

namespace Buffer

/-! ## More of the input at hand -/

/-- The buffer with a text behind the bytes at hand. The input is over behind that text or not. -/
def extend (b : Buffer σ) (q : Bytes) (closed : Bool) : Buffer σ :=
  { b with content := b.content ++ q, atEnd := closed }

section
variable {b : Buffer σ} {q : Bytes} {closed : Bool}

theorem extend_peek {c : UInt8} (h : b.peek = some c) : (b.extend q closed).peek = some c := by
  have hlt := (advance_cursor h).1
  rw [peek, extend, ← Array.getElem?_toList, Array.toList_appendList,
    List.getElem?_append_left (by rwa [Array.length_toList]), Array.getElem?_toList]
  exact h

theorem extend_advance {c : UInt8} (h : b.peek = some c) :
    (b.extend q closed).advance = b.advance.extend q closed := by
  have hpeek : (b.extend q closed).peek = some c := extend_peek h
  have hlt := (advance_cursor h).1
  have hlt' := (advance_cursor hpeek).1
  rw [advance, advance, if_pos hlt, if_pos hlt']
  rfl

theorem extend_enter (rule : Option Nat) :
    (b.extend q closed).enter rule = (b.enter rule).extend q closed := by
  cases rule <;> rfl

theorem extend_settle :
    (b.extend q closed).settle = (b.settle.1, b.settle.2.extend q closed) := by
  obtain ⟨content, start, cursor, lastMatchEnd, matchedRule, atEnd, discarded, source⟩ := b
  cases matchedRule <;> rfl

theorem Sound.extend (h : b.Sound) : (b.extend q closed).Sound := by
  refine ⟨h.start_le, h.lastMatchEnd_le, ?_, h.unmatched⟩
  show b.cursor ≤ (b.content ++ q).size
  rw [← Array.length_toList, Array.toList_appendList, List.length_append, Array.length_toList]
  exact Nat.le_add_right_of_le h.cursor_le

theorem extend_toList : (b.extend q closed).content.toList = b.content.toList ++ q :=
  Array.toList_appendList

end

/-! ## Less of what is behind -/

section
variable {b : Buffer σ}

theorem compact_ahead (h : b.start ≤ b.cursor) : b.compact.ahead = b.ahead := by
  have hcursor : b.compact.cursor = b.cursor - b.start := by rw [compact_eq]
  rw [ahead, ahead, compact_toList, hcursor, List.drop_drop, Nat.add_sub_cancel' h]

theorem compact_record (h : b.start ≤ b.cursor) (m : Option Match) :
    b.compact.record m = (b.record m).compact := by
  cases m with
  | none => rfl
  | some m =>
    have hlen : b.cursor - b.start + m.length = b.cursor + m.length - b.start := by omega
    simp only [compact_eq, record, hlen]

theorem compact_pass (h : b.start ≤ b.cursor) (n : Nat) :
    b.compact.pass n = (b.pass n).compact := by
  have hlen : b.cursor - b.start + n = b.cursor + n - b.start := by omega
  simp only [compact_eq, pass, hlen]

theorem compact_settle (b : Buffer σ) :
    b.compact.settle = (b.settle.1, b.settle.2.compact) := by
  simp only [compact_eq]
  obtain ⟨content, start, cursor, lastMatchEnd, matchedRule, atEnd, discarded, source⟩ := b
  cases matchedRule <;> rfl

/-- A walk from behind the dropped bytes is the same walk. -/
theorem walk_compact (h : b.start ≤ b.cursor) (t : Table) (s : Nat) :
    t.walk s b.compact = ((t.walk s b).1, (t.walk s b).2.compact) := by
  have hatEnd : b.compact.atEnd = b.atEnd := by rw [compact_eq]
  rw [t.walk_eq s b.compact, t.walk_eq s b, hatEnd, compact_ahead h]
  simp only [compact_record h, compact_settle]
  cases b.atEnd with
  | true => rfl
  | false =>
    cases t.after? s b.ahead with
    | none => rfl
    | some s' =>
      have hstart :
          (b.record (t.best? s b.ahead)).start ≤ (b.record (t.best? s b.ahead)).cursor := by
        cases t.best? s b.ahead <;> exact h
      exact congrArg (Prod.mk _) (compact_pass hstart _)

theorem compact_span (h : b.start ≤ b.cursor) : b.compact.span = b.span := by
  have hcursor : b.discarded + b.start + (b.cursor - b.start) = b.discarded + b.cursor := by omega
  simp only [compact_eq, span, startOffset, cursorOffset, Nat.add_zero, hcursor]

/-- What comes behind the bytes at hand does not hang on those that are dropped. -/
theorem compact_extend (h : b.start ≤ b.content.size) (q : Bytes) (closed : Bool) :
    b.compact.extend q closed = (b.extend q closed).compact := by
  have hcontent : b.content.extract b.start b.content.size ++ q =
      (b.content ++ q).extract b.start (b.content ++ q).size := by
    apply Array.toList_inj.1
    have hle : b.start ≤ b.content.toList.length := by rwa [Array.length_toList]
    have hdrop := (b.extend q closed).compact_toList
    have hdrop' := b.compact_toList
    rw [compact_eq] at hdrop hdrop'
    rw [Array.toList_appendList]
    exact (congrArg (· ++ q) hdrop').trans
      ((List.drop_append_of_le_length hle).symm.trans (hdrop.trans (congrArg _ extend_toList)).symm)
  simp only [compact_eq, extend, hcontent]

theorem compact_matchedRule (b : Buffer σ) : b.compact.matchedRule = b.matchedRule := by
  rw [compact_eq]

end

end Buffer

open Buffer

/-! ## Walks -/

namespace Table

variable {t : Table} {s : Nat} {b : Buffer σ}

theorem walk_of_peek {c : UInt8} (h : b.peek = some c) :
    t.walk s b =
      match t.resolve? s c.toNat with
      | some s' => t.walk s' (b.advance.enter (t.rule? s'))
      | none => b.settle := by
  rw [walk]
  split
  · next c' hc =>
    obtain rfl : c = c' := Option.some.inj (h.symm.trans hc)
    rfl
  · next hc =>
    rw [h] at hc
    cases hc

/-- What comes of a walk over a part of the input when a text is put behind that part. -/
def resume (t : Table) (q : Bytes) (closed : Bool) :
    Except ScanError Outcome × Buffer σ → Except ScanError Outcome × Buffer σ
  | (.ok (.suspended s'), b') => t.walk s' (b'.extend q closed)
  | (outcome, b') => (outcome, b'.extend q closed)

theorem resume_settle (q : Bytes) (closed : Bool) :
    t.resume q closed b.settle = (b.extend q closed).settle := by
  rw [extend_settle]
  unfold settle
  cases b.matchedRule <;> rfl

theorem resume_of_settled {step : Except ScanError Outcome × Buffer σ}
    (h : ∀ s', step.1 ≠ .ok (.suspended s')) (q : Bytes) (closed : Bool) :
    t.resume q closed step = (step.1, step.2.extend q closed) := by
  obtain ⟨outcome, b'⟩ := step
  match outcome with
  | .error e => rfl
  | .ok (.matched rule) => rfl
  | .ok (.suspended s') => exact absurd rfl (h s')

/-- **A walk over a part of the input** tells what a walk over the part and a text behind it
does. -/
theorem walk_extend (hend : b.atEnd = false) (q : Bytes) (closed : Bool) :
    t.walk s (b.extend q closed) = t.resume q closed (t.walk s b) := by
  fun_induction Table.walk t s b with
  | case1 s b c hc s' hs ih =>
    have hatEnd : (b.advance.enter (t.rule? s')).atEnd = false := by simpa using hend
    rw [walk_of_peek (extend_peek hc), hs, ← ih hatEnd, extend_advance hc]
    exact congrArg (t.walk s') (extend_enter _)
  | case2 s b c hc hs =>
    rw [walk_of_peek (extend_peek hc), hs, resume_settle]
  | case3 s b hc hend' => rw [hend] at hend'; cases hend'
  | case4 s b hc hend' => rw [hend] at hend'; cases hend'
  | case5 s b hc hend' => rfl

/-- A walk drops nothing of what is at hand. -/
theorem walk_content (t : Table) (s : Nat) (b : Buffer σ) : (t.walk s b).2.content = b.content := by
  have hadvance (b : Buffer σ) : b.advance.content = b.content := by
    unfold Buffer.advance
    split <;> rfl
  fun_induction Table.walk t s b with
  | case1 s b c hc s' hs ih => rw [ih, enter_content, hadvance]
  | case2 s b c hc hs => rw [settle_buffer]; rfl
  | case3 s b hc hend s' hs => rw [settle_buffer]; exact enter_content b _
  | case4 s b hc hend hs => rw [settle_buffer]; rfl
  | case5 s b hc hend => rfl

/-- A suspended walk that is taken up with more at hand, and with the bytes before the token
dropped, comes to what one walk over all comes to. -/
theorem walk_resumed {s' : Nat} {b' : Buffer σ} (hb : b.Sound) (hend : b.atEnd = false)
    (hwalk : t.walk s b = (.ok (.suspended s'), b')) (q : Bytes) (closed : Bool) :
    t.walk s' (b'.compact.extend q closed) =
      ((t.walk s (b.extend q closed)).1, (t.walk s (b.extend q closed)).2.compact) := by
  have hsound : b'.Sound := hb.of_walk hwalk
  have hwhole : t.walk s (b.extend q closed) = t.walk s' (b'.extend q closed) := by
    rw [walk_extend hend, hwalk]
    rfl
  rw [compact_extend hsound.start_le_size, hwhole]
  exact walk_compact (b := b'.extend q closed) hsound.start_le_cursor t s'

/-- **A walk over a part of the input is final or can be taken up again.** From a state of the
tables, on any open token, a walk that is not suspended comes to the same outcome, place and rule
with any text behind that part. One that is suspended has read all of the part, and taken up from
the state that it names, with a text in the place of the bytes before the token, it comes to the
outcome, the span and the rule of one walk over both. -/
theorem step_final_or_resumable (t : Table) {s : Nat} (hs : s < t.size) {b : Buffer σ}
    (hb : b.Sound) (hend : b.atEnd = false) :
    ∃ outcome b', t.step s b = .ok (outcome, b') ∧
      ((∀ s', outcome ≠ .ok (.suspended s')) → ∀ q closed, ∃ b'',
        t.step s (b.extend q closed) = .ok (outcome, b'') ∧ b''.span = b'.span ∧
          b''.cursor = b'.cursor ∧ b''.matchedRule = b'.matchedRule) ∧
      ∀ s', outcome = .ok (.suspended s') →
        b'.content = b.content ∧ b'.cursor = b.content.size ∧ ∀ q closed, ∃ outcome' b₁ b₂,
          t.step s (b.extend q closed) = .ok (outcome', b₁) ∧
          t.step s' (b'.compact.extend q closed) = .ok (outcome', b₂) ∧
          b₂.span = b₁.span ∧ b₂.matchedRule = b₁.matchedRule := by
  refine ⟨(t.walk s b).1, (t.walk s b).2, step_eq hs b, fun hsettled q closed => ?_, ?_⟩
  · have hstep := step_eq hs (b.extend q closed)
    rw [walk_extend hend, resume_of_settled hsettled] at hstep
    exact ⟨_, hstep, rfl, rfl, rfl⟩
  · intro s' hsuspended
    have hwalk : t.walk s b = (.ok (.suspended s'), (t.walk s b).2) := Prod.ext hsuspended rfl
    obtain ⟨hs', -, -, hcursor⟩ := of_walk_suspended hs hwalk
    refine ⟨t.walk_content s b, by rw [hcursor, Nat.max_eq_right hb.cursor_le], fun q closed => ?_⟩
    have hstep := step_eq hs' ((t.walk s b).2.compact.extend q closed)
    rw [walk_resumed hb hend hwalk] at hstep
    have hstart := (hb.extend.walk t s : (t.walk s (b.extend q closed)).2.Sound).start_le_cursor
    exact ⟨_, _, _, step_eq hs _, hstep, compact_span hstart, compact_matchedRule _⟩

/-- Behind byte 0 of two the walk is suspended with a match on record; with the second byte and the
end of the input it goes back to that match, with the first of the stream dropped or not. -/
theorem step_final_or_resumable_backingOff :
    let b : Buffer Exhausted :=
      { content := #[5, 0], start := 1, cursor := 1, lastMatchEnd := 1, source := .exhausted }
    0 < backingOff.size ∧ b.Sound ∧ b.atEnd = false ∧
      ∃ b', backingOff.step 0 b = .ok (.ok (.suspended 1), b') ∧ b'.cursor = b.content.size ∧
        ∃ b₁ b₂, backingOff.step 0 (b.extend [1] true) = .ok (.ok (.matched 7), b₁) ∧
          backingOff.step 1 (b'.compact.extend [1] true) = .ok (.ok (.matched 7), b₂) ∧
          b₂.span = b₁.span := by
  intro b
  have hs : 0 < backingOff.size := by decide
  have hb : b.Sound := ⟨by decide, by decide, by decide, fun _ => rfl⟩
  obtain ⟨outcome, b', hstep, -, hresumable⟩ := backingOff.step_final_or_resumable hs hb rfl
  have hpart : backingOff.walk 0 b = (.ok (.suspended 1), _) := (walk_eq _ _ _).trans rfl
  have hwhole : backingOff.walk 0 (b.extend [1] true) = (.ok (.matched 7), _) :=
    (walk_eq _ _ _).trans rfl
  cases hstep.symm.trans ((step_eq hs _).trans (congrArg _ hpart))
  obtain ⟨-, hcursor, hall⟩ := hresumable 1 rfl
  obtain ⟨outcome', b₁, b₂, hone, htwo, hspan, -⟩ := hall [1] true
  cases hone.symm.trans ((step_eq hs _).trans (congrArg _ hwhole))
  exact ⟨hs, hb, rfl, _, hstep, hcursor, _, b₂, hone, htwo, hspan⟩

end Table

end CombLexer
