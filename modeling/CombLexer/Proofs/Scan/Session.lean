/-
A token that is being looked for, on a source that delivers a text in pieces.

What counts about a buffer in mid-walk does not hang on where the pieces are
cut: the offset of the token, how far the walk has come (`walked`), the best
match so far (`best`), and the text from the start of the token on, part of it
at hand (`text`) and part still to come (`Owes`). A refill keeps all of these
(`refill_sameWalk`), though it moves every position of the buffer.
-/
import CombLexer.Proofs.Scan.WalkOutcome
import CombLexer.Proofs.Source.Delivery

namespace CombLexer

namespace Buffer

variable {σ : Type}

/-- The bytes at hand from the start of the token on. -/
def text (b : Buffer σ) : Bytes := b.content.toList.drop b.start

/-- How many bytes of the token the cursor has passed. -/
def walked (b : Buffer σ) : Nat := b.cursor - b.start

/-- The best match of the token so far. -/
def best (b : Buffer σ) : Option Match := b.matchedRule.map (⟨b.lastMatchEnd - b.start, ·⟩)

/-- The bytes that are still to come behind those at hand. -/
inductive Owes [Supply σ] (b : Buffer σ) : Bytes → Prop
  | ended (h : b.atEnd = true) : Owes b []
  | more {rest : Bytes} (h : b.atEnd = false) (hrest : Delivers b.source rest) : Owes b rest

theorem Owes.eq_nil [Supply σ] {b : Buffer σ} {rest : Bytes} (h : b.Owes rest)
    (hend : b.atEnd = true) : rest = [] := by
  cases h with
  | ended => rfl
  | more hmore => rw [hend] at hmore; cases hmore

/-- What is to come hangs on the source and on whether the input is over. -/
theorem Owes.congr [Supply σ] {b b' : Buffer σ} {rest : Bytes} (h : b.Owes rest)
    (hend : b'.atEnd = b.atEnd) (hsource : b'.source = b.source) : b'.Owes rest := by
  cases h with
  | ended h => exact .ended (hend.trans h)
  | more h hrest => exact .more (hend.trans h) (hsource ▸ hrest)

theorem Sound.cursorOffset_eq {b : Buffer σ} (h : b.Sound) :
    b.cursorOffset = b.startOffset + b.walked := by
  have := h.start_le_cursor
  simp only [cursorOffset, startOffset, walked]
  omega

theorem Sound.ahead_eq {b : Buffer σ} (h : b.Sound) : b.ahead = b.text.drop b.walked := by
  have := h.start_le_cursor
  rw [ahead, text, List.drop_drop]
  congr 1
  simp only [walked]
  omega

theorem Sound.walked_le {b : Buffer σ} (h : b.Sound) : b.walked ≤ b.text.length := by
  have := h.cursor_le
  simp only [walked, text, List.length_drop, Array.length_toList]
  omega

theorem Sound.text_length {b : Buffer σ} (h : b.Sound) :
    b.text.length = b.walked + b.ahead.length := by
  have := h.walked_le
  rw [h.ahead_eq, List.length_drop]
  omega

theorem lexeme_eq_take (b : Buffer σ) : b.lexeme = b.text.take b.walked := b.lexeme_eq

/-! ## The same token with more of it at hand -/

/-- `b'` with `rest'` to come is about the same token as `b` with `rest` to come. -/
structure SameToken [Supply σ] (b : Buffer σ) (rest : Bytes) (b' : Buffer σ) (rest' : Bytes) :
    Prop where
  sound : b'.Sound
  owes : b'.Owes rest'
  startOffset : b'.startOffset = b.startOffset
  input : b'.text ++ rest' = b.text ++ rest
  grows : b.text.length ≤ b'.text.length

/-- And the walk has come as far and found as much. -/
structure SameWalk [Supply σ] (b : Buffer σ) (rest : Bytes) (b' : Buffer σ) (rest' : Bytes) : Prop
    extends SameToken b rest b' rest' where
  walked : b'.walked = b.walked
  best : b'.best = b.best

section
variable [Supply σ] {b b' b'' : Buffer σ} {rest rest' rest'' : Bytes}

theorem SameToken.trans (h : SameToken b rest b' rest') (h' : SameToken b' rest' b'' rest'') :
    SameToken b rest b'' rest'' :=
  ⟨h'.sound, h'.owes, h'.startOffset.trans h.startOffset, h'.input.trans h.input,
    Nat.le_trans h.grows h'.grows⟩

theorem SameWalk.refl (hb : b.Sound) (ho : b.Owes rest) : SameWalk b rest b rest :=
  ⟨⟨hb, ho, rfl, rfl, Nat.le_refl _⟩, rfl, rfl⟩

theorem SameWalk.trans (h : SameWalk b rest b' rest') (h' : SameWalk b' rest' b'' rest'') :
    SameWalk b rest b'' rest'' :=
  ⟨h.toSameToken.trans h'.toSameToken, h'.walked.trans h.walked, h'.best.trans h.best⟩

/-- What the cursor has before it, at hand and to come, is the token without what it has passed. -/
theorem SameToken.ahead (h : SameToken b rest b' rest') :
    b'.ahead ++ rest' = (b.text ++ rest).drop b'.walked := by
  rw [← h.input, h.sound.ahead_eq, List.drop_append_of_le_length h.sound.walked_le]

theorem SameToken.lexeme (h : SameToken b rest b' rest') :
    b'.lexeme = (b.text ++ rest).take b'.walked := by
  rw [← h.input, lexeme_eq_take, List.take_append_of_le_length h.sound.walked_le]

theorem SameWalk.ahead (h : SameWalk b rest b' rest') (hb : b.Sound) :
    b'.ahead ++ rest' = b.ahead ++ rest := by
  rw [h.toSameToken.ahead, h.walked, hb.ahead_eq, List.drop_append_of_le_length hb.walked_le]

end

/-! ## Refills -/

theorem compact_text (b : Buffer σ) : b.compact.text = b.text := by
  have hstart : b.compact.start = 0 := by rw [compact_eq]
  rw [text, hstart, List.drop_zero, compact_toList]
  rfl

theorem compact_startOffset (b : Buffer σ) : b.compact.startOffset = b.startOffset := by
  rw [compact_eq]
  simp [startOffset]

theorem compact_walked (b : Buffer σ) : b.compact.walked = b.walked := by
  rw [compact_eq]
  simp [walked]

theorem compact_best (b : Buffer σ) : b.compact.best = b.best := by
  rw [compact_eq]
  simp [best]

/-- The buffer with a piece taken in; an empty piece is the end of the input. -/
def grow (b : Buffer σ) (bytes : Bytes) (source : σ) : Buffer σ :=
  { b with content := b.content ++ bytes, source, atEnd := b.atEnd || bytes.isEmpty }

theorem accept_counted (b : Buffer σ) (bytes : Bytes) (source : σ) :
    b.accept (.counted bytes) source = (.ok (), b.grow bytes source) := by
  cases bytes <;> simp [accept, Delivery.counted, grow]

theorem grow_text {b : Buffer σ} (h : b.Sound) (bytes : Bytes) (source : σ) :
    (b.grow bytes source).text = b.text ++ bytes := by
  have hle : b.start ≤ b.content.toList.length := by
    rw [Array.length_toList]
    exact h.start_le_size
  simp only [text, grow, Array.toList_appendList]
  rw [List.drop_append_of_le_length hle]

/-- While the input is not over, a refill succeeds and keeps the walk; a byte comes or the input is
over now. -/
theorem refill_sameWalk [Supply σ] {b : Buffer σ} {rest : Bytes} (hb : b.Sound) (ho : b.Owes rest)
    (hend : b.atEnd = false) :
    ∃ b' rest', b.refill = (.ok (), b') ∧ SameWalk b rest b' rest' ∧
      (b'.atEnd = true ∨ b.text.length < b'.text.length) := by
  obtain ⟨bytes, rest', hdel, hw, hnext⟩ : ∃ bytes rest',
      (Supply.refill b.source).1 = .counted bytes ∧ rest = bytes ++ rest' ∧
        if bytes = [] then rest' = [] else Delivers (Supply.refill b.source).2 rest' := by
    cases ho with
    | ended h => rw [hend] at h; cases h
    | more _ hrest => exact hrest.refill
  have hrefill : b.refill = (.ok (), b.compact.grow bytes (Supply.refill b.source).2) := by
    rw [← accept_counted, ← hdel, refill, hend]
    rfl
  have hsound := hb.refill
  rw [hrefill] at hsound
  have hend' : (b.compact.grow bytes (Supply.refill b.source).2).atEnd = bytes.isEmpty := by
    rw [compact_eq]
    simp [grow, hend]
  have htext := grow_text hb.compact bytes (Supply.refill b.source).2
  rw [compact_text] at htext
  refine ⟨_, rest', hrefill, ⟨⟨hsound, ?_, compact_startOffset b, ?_, ?_⟩, compact_walked b,
    compact_best b⟩, ?_⟩
  · by_cases hbytes : bytes = []
    · rw [if_pos hbytes] at hnext
      subst hbytes hnext
      exact .ended hend'
    · rw [if_neg hbytes] at hnext
      exact .more (hend'.trans (by simpa using hbytes)) hnext
  · rw [htext, hw, List.append_assoc]
  · rw [htext, List.length_append]
    exact Nat.le_add_right _ _
  · by_cases hbytes : bytes = []
    · exact .inl (hend'.trans (by simp [hbytes]))
    · have hpos := List.length_pos_iff.2 hbytes
      rw [htext, List.length_append]
      exact .inr (Nat.lt_add_of_pos_right hpos)

/-- Waiting for a byte keeps the walk, and ends with a byte at hand or with the input over. -/
theorem fill_sameWalk [Source σ] {b : Buffer σ} {rest : Bytes} (hb : b.Sound) (ho : b.Owes rest) :
    ∃ b' rest', b.fill = (.ok (), b') ∧ SameWalk b rest b' rest' ∧
      (b'.peek = none → b'.atEnd = true) := by
  fun_induction Buffer.fill b generalizing rest with
  | case1 b hbare e b' hr =>
    obtain ⟨_, _, hok, -⟩ := refill_sameWalk hb ho hbare.2
    rw [hok] at hr
    cases hr
  | case2 b hbare b' hr ih =>
    obtain ⟨b₁, rest₁, hok, hsame, -⟩ := refill_sameWalk hb ho hbare.2
    obtain rfl : b₁ = b' := by rw [hok] at hr; exact (Prod.mk.inj hr).2
    obtain ⟨b₂, rest₂, hfill, hsame', hover⟩ := ih hsame.sound hsame.owes
    exact ⟨b₂, rest₂, hfill, hsame.trans hsame', hover⟩
  | case3 b hnot =>
    refine ⟨b, rest, rfl, .refl hb ho, fun hpeek => ?_⟩
    cases hend : b.atEnd with
    | true => rfl
    | false => exact absurd ⟨hpeek, hend⟩ hnot

end Buffer

end CombLexer
