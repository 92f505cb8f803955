/-
The search for one token on a source that delivers a text in pieces.

A walk over the bytes at hand is settled on the longest match on the whole text,
or it is suspended and leaves the rest of the search to do (`walk_cases`). So a
walk with all its refills ends as one walk over the whole text does
(`drive_spec`). What counts about a buffer between tokens is where its cursor
stands and what is before it (`Stands`): one search finds the longest match on
that (`attempt_spec`), and passing over a byte takes the first one off it
(`skipByte_spec`).
-/
import CombLexer.Proofs.Scan.Returning
import CombLexer.Proofs.Scan.Session

namespace CombLexer

namespace Buffer

variable {σ : Type}

/-! ## Walks -/

@[simp] theorem record_atEnd (b : Buffer σ) (m : Option Match) : (b.record m).atEnd = b.atEnd := by
  cases m <;> rfl

@[simp] theorem record_source (b : Buffer σ) (m : Option Match) :
    (b.record m).source = b.source := by
  cases m <;> rfl

@[simp] theorem record_text (b : Buffer σ) (m : Option Match) : (b.record m).text = b.text := by
  cases m <;> rfl

@[simp] theorem record_startOffset (b : Buffer σ) (m : Option Match) :
    (b.record m).startOffset = b.startOffset := by
  cases m <;> rfl

/-- A match on the bytes behind the cursor takes the place of the best so far. -/
theorem record_best {b : Buffer σ} (h : b.Sound) (m : Option Match) :
    (b.record m).best = (m.map (·.behind b.walked)).or b.best := by
  have := h.start_le_cursor
  cases m with
  | none => rfl
  | some m =>
    have hlen : b.cursor + m.length - b.start = m.length + (b.cursor - b.start) := by omega
    simp [record, best, walked, Match.behind, hlen]

/-- What a search ends with, by the best match: its rule with the cursor behind it, or a failure at
the start of the token with the cursor there. -/
def EndsWith (b' : Buffer σ) (offset : Nat) (result : Except ScanError Nat) :
    Option Match → Prop
  | some m => result = .ok m.rule ∧ b'.walked = m.length
  | none => result = .error (.noMatch offset) ∧ b'.walked = 0

/-- A walk that is settled ends with the best match of its token. -/
theorem settle_endsWith {b : Buffer σ} (h : b.rewind.Sound) :
    ∃ result, b.settle = (result.map .matched, b.rewind) ∧
      b.rewind.EndsWith b.startOffset result b.best := by
  unfold settle best
  cases hrule : b.matchedRule with
  | none =>
    have hlast : b.lastMatchEnd = b.start := h.unmatched hrule
    refine ⟨.error (.noMatch b.startOffset), rfl, rfl, ?_⟩
    show b.lastMatchEnd - b.start = 0
    rw [hlast, Nat.sub_self]
  | some rule => exact ⟨.ok rule, rfl, rfl, rfl⟩

theorem pass_record_walked {b : Buffer σ} (h : b.Sound) (m : Option Match) (n : Nat) :
    ((b.record m).pass n).walked = b.walked + n := by
  have := h.start_le_cursor
  have hstep : b.cursor + n - b.start = b.cursor - b.start + n := by omega
  cases m <;> exact hstep

section
variable [Supply σ] {b : Buffer σ} {rest : Bytes} {m : Option Match}

/-- Recording a match keeps the token, wherever the cursor goes from there in order. -/
theorem sameToken_record (ho : b.Owes rest) {b' : Buffer σ} (hsound : b'.Sound)
    (hb' : b' = (b.record m).rewind ∨ ∃ n, b' = (b.record m).pass n) : SameToken b rest b' rest := by
  have htext : b'.text = b.text := by
    rcases hb' with rfl | ⟨n, rfl⟩ <;> exact record_text b m
  have howes : b'.Owes rest := by
    rcases hb' with rfl | ⟨n, rfl⟩ <;> exact ho.congr (record_atEnd b m) (record_source b m)
  have hoffset : b'.startOffset = b.startOffset := by
    rcases hb' with rfl | ⟨n, rfl⟩ <;> exact record_startOffset b m
  exact ⟨hsound, howes, hoffset, by rw [htext], Nat.le_of_eq (congrArg List.length htext.symm)⟩

/-- The match that a search from state `s` is to end with: the longest on all that the cursor has
before it, or else the best that the token has already. -/
def goal (t : Table) (s : Nat) (b : Buffer σ) (rest : Bytes) : Option Match :=
  ((t.longest? s (b.ahead ++ rest)).map (·.behind b.walked)).or b.best

theorem SameWalk.goal_eq {b' : Buffer σ} {rest' : Bytes} (h : SameWalk b rest b' rest')
    (hb : b.Sound) (t : Table) (s : Nat) : goal t s b' rest' = goal t s b rest := by
  rw [goal, goal, h.ahead hb, h.walked, h.best]

theorem walk_settled {t : Table} {s : Nat} (hb : b.Sound) (ho : b.Owes rest)
    (hwalk : t.walk s b = (b.record (t.longest? s (b.ahead ++ rest))).settle) :
    ∃ result b', t.walk s b = (result.map .matched, b') ∧ SameToken b rest b' rest ∧
      b'.EndsWith b.startOffset result (goal t s b rest) := by
  have hsound := hb.walk t s
  rw [hwalk, settle_buffer] at hsound
  obtain ⟨result, hsettle, hends⟩ := settle_endsWith hsound
  rw [record_best hb, record_startOffset] at hends
  exact ⟨result, _, hwalk.trans hsettle, sameToken_record ho hsound (.inl rfl), hends⟩

/-- A suspended walk has used up what is at hand, and the rest of the search is left to do. -/
theorem walk_suspended {t : Table} {s s' : Nat} (hb : b.Sound) (ho : b.Owes rest)
    (hafter : t.after? s b.ahead = some s')
    (hwalk : t.walk s b =
      (.ok (.suspended s'), (b.record (t.best? s b.ahead)).pass b.ahead.length)) :
    ∃ b', t.walk s b = (.ok (.suspended s'), b') ∧ SameToken b rest b' rest ∧
      b'.atEnd = b.atEnd ∧ goal t s' b' rest = goal t s b rest := by
  obtain ⟨b', hb'⟩ : ∃ b', b' = (b.record (t.best? s b.ahead)).pass b.ahead.length := ⟨_, rfl⟩
  rw [← hb'] at hwalk
  have hsound : b'.Sound := hb.of_walk hwalk
  have hwalked : b'.walked = b.walked + b.ahead.length := hb' ▸ pass_record_walked hb _ _
  have hbest : b'.best = ((t.best? s b.ahead).map (·.behind b.walked)).or b.best :=
    hb' ▸ record_best hb _
  have htoken : SameToken b rest b' rest := sameToken_record ho hsound (.inr ⟨_, hb'⟩)
  have hahead : b'.ahead = [] := by
    have htext : b'.text = b.text := hb' ▸ record_text b _
    have hlen := hsound.text_length
    rw [htext, hwalked, hb.text_length] at hlen
    exact List.eq_nil_of_length_eq_zero (by omega)
  refine ⟨b', hwalk, htoken, hb' ▸ record_atEnd b _, ?_⟩
  -- What is found behind the bytes at hand is longer by all that has been walked.
  unfold goal
  rw [hahead, hwalked, hbest, List.nil_append, Table.longest?_append, hafter, Option.bind_some]
  have hlen : b.walked + b.ahead.length = b.ahead.length + b.walked := Nat.add_comm _ _
  cases t.longest? s' rest with
  | none => simp
  | some m => simp [Match.behind_behind, hlen]

/-- On a buffer whose source owes `rest`, a walk is settled, or it is suspended behind the bytes at
hand while there is more to come. -/
theorem walk_cases (t : Table) (s : Nat) (hb : b.Sound) (ho : b.Owes rest) :
    (∃ result b', t.walk s b = (result.map .matched, b') ∧ SameToken b rest b' rest ∧
        b'.EndsWith b.startOffset result (goal t s b rest)) ∨
      ∃ s' b', t.walk s b = (.ok (.suspended s'), b') ∧ SameToken b rest b' rest ∧
        b'.atEnd = false ∧ goal t s' b' rest = goal t s b rest := by
  have hwalk := Table.walk_eq t s b
  cases hend : b.atEnd with
  | true =>
    have hrest := ho.eq_nil hend
    rw [hend, if_pos rfl] at hwalk
    refine .inl (walk_settled hb ho ?_)
    rw [hwalk, hrest, List.append_nil]
  | false =>
    rw [hend, if_neg (by decide)] at hwalk
    cases hafter : t.after? s b.ahead with
    | none =>
      -- The bytes at hand lead no further, so those behind them make no difference.
      have hlongest : t.longest? s (b.ahead ++ rest) = t.best? s b.ahead := by
        rw [Table.longest?_append, hafter]
        rfl
      rw [hafter] at hwalk
      refine .inl (walk_settled hb ho ?_)
      rw [hlongest]
      exact hwalk
    | some s' =>
      rw [hafter] at hwalk
      obtain ⟨b', heq, htoken, hend', hrest⟩ := walk_suspended hb ho hafter hwalk
      exact .inr ⟨s', b', heq, htoken, hend'.trans hend, hrest⟩

end

section
variable [Supply σ] {t : Table} {s : Nat} {b b' : Buffer σ} {rest : Bytes}

/-- A walk that has an answer ends with the best match there is. -/
theorem walk_ends {result : Except ScanError Nat} (hb : b.Sound) (ho : b.Owes rest)
    (hwalk : t.walk s b = (result.map .matched, b')) :
    SameToken b rest b' rest ∧ b'.EndsWith b.startOffset result (goal t s b rest) := by
  rcases walk_cases t s hb ho with ⟨result', b₁, heq, htoken, hends⟩ | ⟨s', b₁, heq, -⟩
  · rw [hwalk, Prod.mk.injEq] at heq
    obtain ⟨hresult, rfl⟩ := heq
    obtain rfl := Outcome.map_matched_inj hresult
    exact ⟨htoken, hends⟩
  · rw [hwalk] at heq
    cases result <;> cases heq

/-- A walk that waits for input leaves the rest of its search to do. -/
theorem walk_waits {s' : Nat} (hb : b.Sound) (ho : b.Owes rest)
    (hwalk : t.walk s b = (.ok (.suspended s'), b')) :
    SameToken b rest b' rest ∧ b'.atEnd = false ∧ goal t s' b' rest = goal t s b rest := by
  rcases walk_cases t s hb ho with ⟨result, b₁, heq, -⟩ | ⟨s₁, b₁, heq, htoken, hend, hgoal⟩
  · rw [hwalk] at heq
    cases result <;> cases heq
  · rw [hwalk] at heq
    cases heq
    exact ⟨htoken, hend, hgoal⟩

end

/-- **A walk over pieces is a walk over the text.** Whatever pieces come while it goes on, it ends
with the longest match on all that the cursor has before it, or with the best match that the token
had already. -/
theorem drive_spec [Source σ] (t : Table) (s : Nat) {b : Buffer σ} {rest : Bytes} (hb : b.Sound)
    (ho : b.Owes rest) :
    ∃ rest', SameToken b rest (t.drive s b).buffer rest' ∧
      (t.drive s b).buffer.EndsWith b.startOffset (t.drive s b).result (goal t s b rest) := by
  fun_induction Table.drive t s b generalizing rest with
  | case1 s b e b' hw =>
    have hwalk : t.walk s b = ((Except.error e : Except ScanError Nat).map .matched, b') := hw
    exact ⟨rest, walk_ends hb ho hwalk⟩
  | case2 s b rule b' hw =>
    have hwalk : t.walk s b = ((Except.ok rule : Except ScanError Nat).map .matched, b') := hw
    exact ⟨rest, walk_ends hb ho hwalk⟩
  | case3 s b s' b' hw stop e b'' =>
    -- A source that owes a text does not fail.
    rename_i hr
    obtain ⟨htoken, hend, -⟩ := walk_waits hb ho hw
    obtain ⟨_, _, hok, -⟩ := refill_sameWalk htoken.sound htoken.owes hend
    rw [hok] at hr
    cases hr
  | case4 s b s' b' hw stop b'' hr =>
    rename_i ih
    obtain ⟨htoken, hend, hgoal⟩ := walk_waits hb ho hw
    obtain ⟨b₂, rest₂, hok, hsame, -⟩ := refill_sameWalk htoken.sound htoken.owes hend
    rw [hok] at hr
    cases hr
    obtain ⟨rest₃, htoken₃, hends⟩ := ih hsame.sound hsame.owes
    rw [hsame.goal_eq htoken.sound, hgoal, hsame.startOffset, htoken.startOffset] at hends
    exact ⟨rest₃, (htoken.trans hsame.toSameToken).trans htoken₃, hends⟩

/-! ## Between tokens -/

/-- The cursor stands at an offset and has a text before it, at hand or to come. -/
structure Stands [Supply σ] (b : Buffer σ) (offset : Nat) (w : Bytes) : Prop where
  cursor_le : b.cursor ≤ b.content.size
  cursorOffset : b.cursorOffset = offset
  input : ∃ rest, b.Owes rest ∧ b.ahead ++ rest = w

theorem stands_ofSource [Supply σ] {source : σ} {w : Bytes} (h : Delivers source w) :
    (ofSource source).Stands 0 w :=
  ⟨Nat.le_refl 0, rfl, w, .more rfl h, rfl⟩

theorem stands_ofBytes (w : Bytes) : (ofBytes w).Stands 0 w :=
  ⟨Nat.zero_le _, rfl, [], .ended rfl, List.append_nil w⟩

@[simp] theorem openToken_walked (b : Buffer σ) : b.openToken.walked = 0 := Nat.sub_self _

theorem peek_eq_none_iff {b : Buffer σ} (h : b.cursor ≤ b.content.size) :
    b.peek = none ↔ b.cursor = b.content.size := by
  rw [peek, Array.getElem?_eq_none_iff]
  omega

theorem isDone_of_peek {b : Buffer σ} {c : UInt8} (h : b.peek = some c) : b.isDone = false := by
  have hcur : b.cursor ≠ b.content.size := Nat.ne_of_lt (advance_cursor h).1
  simp [isDone, hcur]

theorem peek_isSome_iff {b : Buffer σ} : b.peek.isSome ↔ b.ahead ≠ [] := by
  cases hpeek : b.peek with
  | none => simp [ahead_eq_nil hpeek]
  | some c => simp [ahead_eq_cons hpeek]

theorem SameToken.startOffset_eq [Supply σ] {b b' : Buffer σ} {rest rest' : Bytes} {offset : Nat}
    (h : SameToken b.openToken rest b' rest') (hoffset : b.cursorOffset = offset) :
    b'.startOffset = offset :=
  h.startOffset.trans hoffset

/-- With a token begun at its cursor, a buffer stands where the token has got to. -/
theorem SameToken.stands [Supply σ] {b b' : Buffer σ} {rest rest' w : Bytes} {offset : Nat}
    (h : SameToken b.openToken rest b' rest') (hoffset : b.cursorOffset = offset)
    (hw : b.ahead ++ rest = w) : b'.Stands (offset + b'.walked) (w.drop b'.walked) := by
  refine ⟨h.sound.cursor_le, ?_, rest', h.owes, ?_⟩
  · rw [h.sound.cursorOffset_eq, h.startOffset_eq hoffset]
  · rw [← hw]
    exact h.ahead

/-- What the search for a token can come to, from an offset with `w` before it. -/
inductive Attempted [Supply σ] (t : Table) (s offset : Nat) (w : Bytes) : Attempt σ → Prop
  | ended {a : Attempt σ} (hw : w = []) (hr : a.result = .ok none) (hb : a.buffer.Stands offset []) :
      Attempted t s offset w a
  | token {a : Attempt σ} {m : Match} (hw : w ≠ []) (hm : t.longest? s w = some m)
      (hr : a.result = .ok (some ⟨m.rule, ⟨offset, offset + m.length⟩⟩))
      (hb : a.buffer.Stands (offset + m.length) (w.drop m.length))
      (hlex : a.buffer.lexeme = w.take m.length) : Attempted t s offset w a
  | noMatch {a : Attempt σ} (hw : w ≠ []) (hm : t.longest? s w = none)
      (hr : a.result = .error (.noMatch offset)) (hb : a.buffer.Stands offset w)
      (hstart : a.buffer.startOffset = offset) (hpeek : a.buffer.peek.isSome) :
      Attempted t s offset w a

section
variable [Supply σ] {t : Table} {s offset : Nat} {b b₁ : Buffer σ} {rest rest₁ w : Bytes}
  (hopen : b.openToken.Sound) (hoffset : b.cursorOffset = offset) (hw : b.ahead ++ rest = w)
  (hsame : SameWalk b.openToken rest b₁ rest₁)
include hopen hoffset hw hsame

/-- A search that finds no byte to begin with is at the end of the input. -/
theorem attempted_of_over (hpeek : b₁.peek = none) (hend : b₁.atEnd = true) :
    b₁.isDone = true ∧ Attempted t s offset w ⟨.ok none, [], b₁⟩ := by
  have hahead : b₁.ahead ++ rest₁ = w := (hsame.ahead hopen).trans hw
  have hnil : w = [] := by rw [← hahead, ahead_eq_nil hpeek, hsame.owes.eq_nil hend]; rfl
  have hstands := hsame.toSameToken.stands hoffset hw
  rw [hsame.walked, openToken_walked, hnil] at hstands
  refine ⟨?_, .ended hnil rfl hstands⟩
  simp [isDone, hend, (peek_eq_none_iff hsame.sound.cursor_le).1 hpeek]

/-- A search ends as its walk does, from the first byte on. -/
theorem attempted_of_walked {c : UInt8} (hpeek : b₁.peek = some c) {d : Drive σ} {rest₂ : Bytes}
    (hdrive : SameToken b₁ rest₁ d.buffer rest₂)
    (hends : d.buffer.EndsWith b₁.startOffset d.result (goal t s b₁ rest₁)) :
    Attempted t s offset w d.toAttempt := by
  have hahead : b₁.ahead ++ rest₁ = w := (hsame.ahead hopen).trans hw
  have hne : w ≠ [] := by rw [← hahead, ahead_eq_cons hpeek]; exact List.cons_ne_nil _ _
  have htoken := hsame.toSameToken.trans hdrive
  have hgoal : goal t s b₁ rest₁ = t.longest? s w := by
    rw [hsame.goal_eq hopen, goal, openToken_walked]
    show ((t.longest? s (b.ahead ++ rest)).map (·.behind 0)).or none = _
    simp [hw]
  rw [hgoal, hsame.startOffset_eq hoffset] at hends
  have hstands := htoken.stands hoffset hw
  have hstart := htoken.startOffset_eq hoffset
  have hspan : d.buffer.span = ⟨offset, offset + d.buffer.walked⟩ := by
    rw [span, hstart, hstands.cursorOffset]
  cases hm : t.longest? s w with
  | none =>
    rw [hm] at hends
    obtain ⟨hresult, hzero⟩ := hends
    rw [hzero] at hstands
    -- The byte that the search began with is still at hand.
    have hbyte : d.buffer.peek.isSome := by
      have hwalked : b₁.walked = 0 := by rw [hsame.walked, openToken_walked]
      have hlen := hsame.sound.text_length
      have hlen' := hdrive.sound.text_length
      have hgrows := hdrive.grows
      rw [ahead_eq_cons hpeek, List.length_cons] at hlen
      rw [peek_isSome_iff, ne_eq, ← List.length_eq_zero_iff]
      omega
    refine .noMatch hne hm ?_ ?_ ?_ ?_ <;> simp only [Drive.toAttempt, hresult]
    · exact hstands
    · exact hstart
    · exact hbyte
  | some m =>
    rw [hm] at hends
    obtain ⟨hresult, hlen⟩ := hends
    have hlex := htoken.lexeme
    rw [hlen] at hstands hspan hlex
    refine .token hne hm ?_ ?_ ?_ <;> simp only [Drive.toAttempt, hresult]
    · rw [hspan]
    · exact hstands
    · rw [← hw]
      exact hlex

end

/-- **A search finds the longest match on the rest of the input**, however that is delivered. -/
theorem attempt_spec [Source σ] (t : Table) (s : Nat) {b : Buffer σ} {offset : Nat} {w : Bytes}
    (h : b.Stands offset w) : Attempted t s offset w (t.attempt s b) := by
  obtain ⟨hcursor, hoffset, rest, howes, hw⟩ := h
  have hopen : b.openToken.Sound := .of_openToken hcursor
  have howes' : b.openToken.Owes rest := howes.congr rfl rfl
  obtain ⟨b₁, rest₁, hfill, hsame, hover⟩ := fill_sameWalk hopen howes'
  cases hpeek : b₁.peek with
  | none =>
    obtain ⟨hdone, hattempted⟩ := attempted_of_over hopen hoffset hw hsame hpeek (hover hpeek)
    have hattempt : t.attempt s b = ⟨.ok none, [], b₁⟩ := by simp [Table.attempt, hfill, hdone]
    rw [hattempt]
    exact hattempted
  | some c =>
    obtain ⟨rest₂, hdrive, hends⟩ := drive_spec t s hsame.sound hsame.owes
    rw [Table.attempt_of_walked hfill (isDone_of_peek hpeek)]
    exact attempted_of_walked hopen hoffset hw hsame hpeek hdrive hends

/-! ## Passing over a byte -/

/-- Where a byte is at hand, passing over it does not touch the source. -/
theorem skipByte_of_peek [Supply σ] {b : Buffer σ} (h : b.peek.isSome) :
    b.skipByte = (.ok true, (b.pass 1).openToken) := by
  obtain ⟨c, hc⟩ := Option.isSome_iff_exists.1 h
  have hne : b.openToken.cursor ≠ b.openToken.content.size := Nat.ne_of_lt (advance_cursor hc).1
  have hbare : b.openToken.refillIfBare = (.ok (), b.openToken) := by
    rw [refillIfBare, if_neg fun hbare => hne hbare.1]
  rw [skipByte_eq, hbare]
  exact if_neg hne

/-- A byte is looked for once: then there is one at hand, or the input is over. -/
theorem refillIfBare_sameWalk [Supply σ] {b : Buffer σ} {rest : Bytes} (hb : b.Sound)
    (ho : b.Owes rest) :
    ∃ b' rest', b.refillIfBare = (.ok (), b') ∧ SameWalk b rest b' rest' ∧
      (b'.peek = none → b'.atEnd = true) := by
  unfold refillIfBare
  by_cases hbare : b.cursor = b.content.size ∧ b.atEnd = false
  · obtain ⟨b', rest', hrefill, hsame, hmore⟩ := refill_sameWalk hb ho hbare.2
    refine ⟨b', rest', by rw [if_pos hbare, hrefill], hsame, fun hpeek => ?_⟩
    rcases hmore with hend | hlt
    · exact hend
    · have hnil := ahead_eq_nil ((peek_eq_none_iff hb.cursor_le).2 hbare.1)
      have hlen := hb.text_length
      have hlen' := hsame.sound.text_length
      rw [hnil, List.length_nil] at hlen
      rw [ahead_eq_nil hpeek, List.length_nil, hsame.walked] at hlen'
      omega
  · refine ⟨b, rest, if_neg hbare, .refl hb ho, fun hpeek => ?_⟩
    have hcur := (peek_eq_none_iff hb.cursor_le).1 hpeek
    cases hend : b.atEnd with
    | true => rfl
    | false => exact absurd ⟨hcur, hend⟩ hbare

/-- Passing over a byte takes the first one off the rest of the input, if there is one, and says
whether there was. -/
theorem skipByte_spec [Supply σ] {b : Buffer σ} {offset : Nat} {w : Bytes} (h : b.Stands offset w) :
    ∃ b', b.skipByte = (.ok !w.isEmpty, b') ∧
      b'.Stands (offset + (w.take 1).length) (w.drop 1) := by
  obtain ⟨hcursor, hoffset, rest, howes, hw⟩ := h
  have hopen : b.openToken.Sound := .of_openToken hcursor
  obtain ⟨b₁, rest₁, hbare, hsame, hover⟩ := refillIfBare_sameWalk hopen (howes.congr rfl rfl)
  have hwalked : b₁.walked = 0 := by rw [hsame.walked, openToken_walked]
  have hstands := hsame.toSameToken.stands hoffset hw
  have hahead : b₁.ahead ++ rest₁ = w := (hsame.ahead hopen).trans hw
  rw [hwalked, List.drop_zero] at hstands
  rw [skipByte_eq, hbare]
  cases hpeek : b₁.peek with
  | none =>
    have hnil : w = [] := by rw [← hahead, ahead_eq_nil hpeek, hsame.owes.eq_nil (hover hpeek)]; rfl
    rw [hnil] at hstands ⊢
    exact ⟨b₁, if_pos ((peek_eq_none_iff hsame.sound.cursor_le).1 hpeek), hstands⟩
  | some c =>
    have hlt := (advance_cursor hpeek).1
    have hadvance : b₁.advance.ahead = (b₁.pass 1).ahead := by rw [advance, if_pos hlt]; rfl
    rw [ahead_eq_cons hpeek, hadvance] at hahead
    subst hahead
    refine ⟨(b₁.pass 1).openToken, if_neg (Nat.ne_of_lt hlt), hlt, ?_, rest₁,
      hsame.owes.congr rfl rfl, rfl⟩
    have hnext : b₁.cursorOffset + 1 = offset + 1 := congrArg (· + 1) hstands.cursorOffset
    exact hnext

end Buffer

end CombLexer
