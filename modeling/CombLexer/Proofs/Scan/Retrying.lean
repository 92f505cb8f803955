/-
A refill that has failed can be tried again, and leaves no trace.

A failing refill moves every index of the buffer and may have taken bytes in.
But the place in the stream stays as it is, and so does what has been found of
the token (`Buffer.Unmoved`), however often the source fails (`Fails.unmoved`).
`Table.Pursues` is a walk by someone who goes on behind failures, with steps and
refills in any order. Where it is settled, it has come to what one walk over the
bytes that were taken in comes to (`Pursues.walk`), and those bytes do not tell
which refills brought them and which of these failed. A source that fails now
and then but says in the end that the input is over lets every such walk come to
its end (`Pursues.settles`).
-/
import CombLexer.Proofs.Scan.Awaiting
import CombLexer.Proofs.Scan.Continuation
import CombLexer.Proofs.Scan.Exhaustion

namespace CombLexer

variable {σ τ : Type}

/-- A supply appends the bytes of `w`, whatever fails on the way, and says in the end that the input
is over. -/
inductive HoldsOut [Supply σ] : σ → Bytes → Prop
  | ended {s : σ} (h : (Supply.refill s).1.report = .ok 0) :
      HoldsOut s (Supply.refill s).1.appended
  | goesOn {s : σ} {rest : Bytes} (h : (Supply.refill s).1.report ≠ .ok 0)
      (hrest : HoldsOut (Supply.refill s).2 rest) :
      HoldsOut s ((Supply.refill s).1.appended ++ rest)

/-- A failed read takes nothing in. -/
theorem Reader.appended_of_failed {r : Reader} {e : SourceError}
    (h : (Supply.refill r).1.report = .error e) : (Supply.refill r).1.appended = [] := by
  have hreport : (deliver r).1.report = .error e := h
  show (deliver r).1.appended = []
  unfold deliver at hreport ⊢
  by_cases hdone : r.done = true
  · rw [if_pos hdone]
    rfl
  · rw [if_neg hdone] at hreport ⊢
    rcases hread : read r.chunkSize r.script with ⟨error | bytes, rest⟩
    · rfl
    · rw [hread] at hreport
      cases hreport

namespace Buffer

/-- Where in the stream the best match of the token ends so far. -/
def matchOffset (b : Buffer σ) : Nat := b.discarded + b.lastMatchEnd

/-- The same place in the stream with as much found, and the bytes before the token dropped. What is
at hand from the token on is still at hand, with `lost` behind it. -/
structure Unmoved (b : Buffer σ) (lost : Bytes) (b' : Buffer σ) : Prop where
  startOffset : b'.startOffset = b.startOffset
  cursorOffset : b'.cursorOffset = b.cursorOffset
  matchOffset : b'.matchOffset = b.matchOffset
  matchedRule : b'.matchedRule = b.matchedRule
  lexeme : b'.lexeme = b.lexeme
  atEnd : b'.atEnd = b.atEnd
  start : b'.start = 0
  content : b'.content.toList = b.text ++ lost

theorem Unmoved.text {b b' : Buffer σ} {lost : Bytes} (h : b.Unmoved lost b') :
    b'.text = b.text ++ lost := by
  rw [Buffer.text, h.start, List.drop_zero, h.content]

theorem Unmoved.trans {b b' b'' : Buffer σ} {lost lost' : Bytes} (h : b.Unmoved lost b')
    (h' : b'.Unmoved lost' b'') : b.Unmoved (lost ++ lost') b'' where
  startOffset := h'.startOffset.trans h.startOffset
  cursorOffset := h'.cursorOffset.trans h.cursorOffset
  matchOffset := h'.matchOffset.trans h.matchOffset
  matchedRule := h'.matchedRule.trans h.matchedRule
  lexeme := h'.lexeme.trans h.lexeme
  atEnd := h'.atEnd.trans h.atEnd
  start := h'.start
  content := by rw [h'.content, h.text, List.append_assoc]

/-- Where refills keep failing: so many of them in a row, one at least, which append so many
bytes. -/
inductive Fails [Supply σ] : Buffer σ → Nat → Bytes → Buffer σ → Prop
  | once {b b' : Buffer σ} {e : SourceError} (h : b.refill = (.error (.source e), b')) :
      Fails b 1 (Supply.refill b.source).1.appended b'
  | again {b b' b'' : Buffer σ} {e : SourceError} {n : Nat} {lost : Bytes}
      (h : b.refill = (.error (.source e), b')) (hrest : Fails b' n lost b'') :
      Fails b (n + 1) ((Supply.refill b.source).1.appended ++ lost) b''

section
variable [Supply σ] {b b' : Buffer σ} {e : SourceError}

theorem atEnd_of_failed (h : b.refill = (.error (.source e), b')) : b.atEnd = false := by
  cases hend : b.atEnd with
  | false => rfl
  | true =>
    rw [refill, if_pos hend] at h
    cases h

theorem report_of_failed (h : b.refill = (.error (.source e), b')) :
    (Supply.refill b.source).1.report = .error e := by
  obtain ⟨e', heq, hreport⟩ := refill_error (atEnd_of_failed h) h
  cases heq
  exact hreport

/-- A refill that fails takes the appended bytes in and does no more than that. -/
theorem unmoved_of_failed (hb : b.Sound) (h : b.refill = (.error (.source e), b')) :
    b.Unmoved (Supply.refill b.source).1.appended b' := by
  have hend := atEnd_of_failed h
  have hmatch := hb.start_le
  have hatEnd := refill_atEnd_iff hend
  have htext := refill_text hb hend
  have hoffset := b.refill_startOffset
  have hcursor := refill_cursorOffset hb.start_le_cursor
  have hwalked := b.refill_walked
  obtain ⟨atEnd, hrefill⟩ := refill_snd hend
  rw [report_of_failed h] at hatEnd
  rw [h] at hatEnd htext hoffset hcursor hwalked hrefill
  have hb' : b' = _ := hrefill
  have hstart : b'.start = 0 := by rw [hb', compact_eq]
  refine ⟨hoffset, hcursor, ?_, ?_, ?_, ?_, hstart, ?_⟩
  · simp only [hb', compact_eq, matchOffset]
    omega
  · rw [hb']
    exact compact_matchedRule b
  · rw [lexeme_eq_take, lexeme_eq_take, hwalked, htext,
      List.take_append_of_le_length hb.walked_le]
  · rw [hend, Bool.eq_false_iff]
    exact fun hover => nomatch hatEnd.1 hover
  · rw [← htext, text, hstart, List.drop_zero]

theorem Fails.unmoved {n : Nat} {lost : Bytes} (hb : b.Sound) (h : b.Fails n lost b') :
    b.Unmoved lost b' := by
  induction h with
  | once h => exact unmoved_of_failed hb h
  | again h hrest ih => exact (unmoved_of_failed hb h).trans (ih (hb.of_refill h))

end

theorem Fails.lost_of_reader {b b' : Buffer Reader} {n : Nat} {lost : Bytes}
    (h : b.Fails n lost b') : lost = [] := by
  induction h with
  | once h => exact Reader.appended_of_failed (report_of_failed h)
  | again h hrest ih =>
    rw [ih, List.append_nil]
    exact Reader.appended_of_failed (report_of_failed h)

/-! ## What is still to come -/

/-- The bytes that are still to come behind those at hand, whatever fails on the way. -/
inductive Expects [Supply σ] (b : Buffer σ) : Bytes → Prop
  | ended (h : b.atEnd = true) : Expects b []
  | more {w : Bytes} (h : b.atEnd = false) (hw : HoldsOut b.source w) : Expects b w

section
variable [Supply σ] {b b' : Buffer σ} {w : Bytes}

theorem Expects.congr (h : b.Expects w) (hend : b'.atEnd = b.atEnd)
    (hsource : b'.source = b.source) : b'.Expects w := by
  cases h with
  | ended h => exact .ended (hend.trans h)
  | more h hw => exact .more (hend.trans h) (hsource ▸ hw)

theorem Expects.refill (h : b.Expects w) (hend : b.atEnd = false) :
    ∃ rest, w = (Supply.refill b.source).1.appended ++ rest ∧ b.refill.2.Expects rest := by
  cases h with
  | ended h => rw [hend] at h; cases h
  | more _ hw =>
    cases hw with
    | ended hover => exact ⟨[], (List.append_nil _).symm, .ended ((refill_atEnd_iff hend).2 hover)⟩
    | @goesOn _ rest hgoes hrest =>
      have hend' : b.refill.2.atEnd = false :=
        Bool.eq_false_iff.2 fun hover => hgoes ((refill_atEnd_iff hend).1 hover)
      exact ⟨rest, rfl, .more hend' (refill_source hend ▸ hrest)⟩

end

/-! ## More of the input at hand -/

theorem extend_nil (b : Buffer σ) : b.extend [] b.atEnd = b := by
  have hcontent : b.content ++ ([] : Bytes) = b.content :=
    Array.toList_inj.1 (Array.toList_appendList.trans (List.append_nil _))
  rw [extend, hcontent]

theorem extend_ahead {b : Buffer σ} (h : b.cursor ≤ b.content.size) (q : Bytes) (closed : Bool) :
    (b.extend q closed).ahead = b.ahead ++ q := by
  have hle : b.cursor ≤ b.content.toList.length := by rwa [Array.length_toList]
  rw [ahead, extend_toList]
  exact List.drop_append_of_le_length hle

/-- What a refill takes in might as well have been at hand before it. -/
theorem refill_extend [Supply σ] {b : Buffer σ} (hb : b.Sound) (hend : b.atEnd = false)
    (q : Bytes) (closed : Bool) :
    b.refill.2.extend q closed =
      (b.extend ((Supply.refill b.source).1.appended ++ q) closed).compact.mapSource
        fun _ => (Supply.refill b.source).2 := by
  obtain ⟨atEnd, hrefill⟩ := refill_snd hend
  have hcontent : b.compact.content ++ (Supply.refill b.source).1.appended ++ q =
      b.compact.content ++ ((Supply.refill b.source).1.appended ++ q) := by
    apply Array.toList_inj.1
    simp only [Array.toList_appendList, List.append_assoc]
  rw [← compact_extend hb.start_le_size, hrefill]
  simp only [extend, mapSource, hcontent]

/-- Behind a text that is at hand some more may still come, unless it is the end of the input. -/
theorem extend_owes {b : Buffer σ} {fed q : Bytes} {closed : Bool} (hq : closed = true → q = []) :
    ((b.extend fed closed).lend q).Owes q := by
  cases closed with
  | true =>
    rw [hq rfl]
    exact .ended rfl
  | false => exact .more rfl (Chunks.delivers_one q)

theorem Sound.span_eq {b : Buffer σ} (h : b.Sound) :
    b.span = ⟨b.startOffset, b.startOffset + b.walked⟩ := by
  rw [span, h.cursorOffset_eq]

/-- What a search ends with determines its result and how far it has come. -/
theorem EndsWith.unique {b : Buffer σ} {c : Buffer τ} {offset : Nat} {m : Option Match}
    {result result' : Except ScanError Nat} (h : b.EndsWith offset result m)
    (h' : c.EndsWith offset result' m) : result' = result ∧ c.walked = b.walked := by
  cases m with
  | none => exact ⟨h'.1.trans h.1.symm, h'.2.trans h.2.symm⟩
  | some m => exact ⟨h'.1.trans h.1.symm, h'.2.trans h.2.symm⟩

/-- With `q` still to come, a walk over what is at hand and a text behind it has the goal of the
walk that has all of that still to come. -/
theorem goal_extend {t : Table} {s : Nat} {b : Buffer σ} (hb : b.Sound) (fed q : Bytes)
    (closed : Bool) (source : τ) :
    goal t s ((b.extend fed closed).lend q) q =
      goal t s (b.mapSource fun _ => source) (fed ++ q) := by
  have hahead : ((b.extend fed closed).lend q).ahead = b.ahead ++ fed :=
    extend_ahead hb.cursor_le fed closed
  rw [goal, hahead, List.append_assoc]
  rfl

end Buffer

open Buffer

namespace Table

variable {t : Table} {s s' : Nat}

/-- A walk that goes on behind failures, with steps and refills in any order: from a state and a
buffer it has come to another state and buffer, with so many bytes taken in. -/
inductive Pursues [Supply σ] (t : Table) : Nat → Buffer σ → Bytes → Nat → Buffer σ → Prop
  | here {s : Nat} {b : Buffer σ} : Pursues t s b [] s b
  | walked {s s₁ s' : Nat} {b b₁ b' : Buffer σ} {fed : Bytes}
      (h : t.step s b = .ok (.ok (.suspended s₁), b₁)) (hrest : Pursues t s₁ b₁ fed s' b') :
      Pursues t s b fed s' b'
  | refilled {s s' : Nat} {b b' : Buffer σ} {fed : Bytes} (hend : b.atEnd = false)
      (hrest : Pursues t s b.refill.2 fed s' b') :
      Pursues t s b ((Supply.refill b.source).1.appended ++ fed) s' b'

section
variable [Supply σ] {b b' last : Buffer σ} {fed : Bytes} {result : Except ScanError Nat}

theorem Pursues.of_fails {n : Nat} {lost : Bytes} (h : b.Fails n lost b') :
    t.Pursues s b lost s b' := by
  induction h with
  | once h =>
    have hone := Pursues.refilled (t := t) (s := s) (atEnd_of_failed h) .here
    rwa [h, List.append_nil] at hone
  | again h hrest ih =>
    refine .refilled (atEnd_of_failed h) ?_
    rwa [h]

/-- Where a walk that goes on behind failures is settled, it has come to the result and the span of
one walk over the bytes that it took in. -/
theorem Pursues.walk (h : t.Pursues s b fed s' b') (hb : b.Sound)
    (hsettled : t.walk s' b' = (result.map .matched, last)) :
    ∃ b'', t.walk s (b.extend fed last.atEnd) = (result.map .matched, b'') ∧
      b''.span = last.span := by
  induction h with
  | @here s b =>
    have hatEnd := (t.walk_source s b).2
    rw [hsettled] at hatEnd
    rw [show last.atEnd = b.atEnd from hatEnd, extend_nil]
    exact ⟨last, hsettled, rfl⟩
  | @walked s s₁ s' b b₁ b' fed hstep hrest ih =>
    have hwalk := walk_of_step hstep
    have hend := (t.walk_source s b).2
    rw [hwalk] at hend
    rw [walk_extend (hend.symm.trans (atEnd_of_suspended hwalk)), hwalk]
    exact ih (hb.of_walk hwalk) hsettled
  | @refilled s s' b b' fed hend hrest ih =>
    obtain ⟨c, hwalk, hspan⟩ := ih hb.refill hsettled
    have hextend : (b.extend ((Supply.refill b.source).1.appended ++ fed) last.atEnd).Sound :=
      hb.extend
    rw [refill_extend hb hend, mapSource_walk, walk_compact hextend.start_le_cursor,
      Prod.mk.injEq] at hwalk
    obtain ⟨hresult, rfl⟩ := hwalk
    refine ⟨_, Prod.ext hresult rfl, ?_⟩
    rw [← hspan]
    exact (compact_span (hextend.walk t s).start_le_cursor).symm

/-- So it comes to the result and the span of a walk on any supply that delivers those bytes
without a failure, in any pieces, and that is over then or goes on with some `q`. -/
theorem Pursues.drives [Supply τ] (h : t.Pursues s b fed s' b') (hb : b.Sound)
    (hend : b.atEnd = false) (hsettled : t.walk s' b' = (result.map .matched, last)) {source : τ}
    {n : Nat} {q : Bytes} (hq : last.atEnd = true → q = [])
    (hsource : RunsOut n source (fed ++ q) none) :
    ∃ k d, t.Drives s (b.mapSource fun _ => source) k d ∧ d.result = result ∧
      d.buffer.span = last.span := by
  obtain ⟨c, hwalk, hspan⟩ := h.walk hb hsettled
  have hextend : (b.extend fed last.atEnd).Sound := hb.extend
  have hlend := walk_lend t s (b.extend fed last.atEnd) q
  rw [hwalk] at hlend
  obtain ⟨htoken, hends⟩ := walk_ends hextend.lend (extend_owes hq) hlend
  have hawaits : (b.mapSource fun _ => source).Awaits n (fed ++ q) none := .more hend hsource
  obtain ⟨k, -, d, -, hdrives, ⟨rest, -, htoken', hends'⟩ | ⟨e, hfault, -⟩⟩ :=
    hawaits.drives (hb.mapSource _) (fun _ => rfl) t s
  · rw [goal_extend hb fed q last.atEnd source] at hends
    rw [List.append_nil] at hends'
    obtain ⟨hresult, hwalked⟩ := hends.unique hends'
    refine ⟨k, d, hdrives, hresult, ?_⟩
    have hstart : d.buffer.startOffset = c.startOffset :=
      htoken'.startOffset.trans htoken.startOffset.symm
    have hcome : d.buffer.walked = c.walked := hwalked
    have hsound : d.buffer.Sound := htoken'.sound.of_lend
    have hsound' : c.Sound := htoken.sound.of_lend
    rw [← hspan, hsound.span_eq, hsound'.span_eq, hstart, hcome]
  · cases hfault

/-! ## Every such walk can be brought to its end -/

theorem Pursues.state_lt (h : t.Pursues s b fed s' b') (hs : s < t.size) : s' < t.size := by
  induction h with
  | here => exact hs
  | walked hstep hrest ih => exact ih (of_walk_suspended hs (walk_of_step hstep)).1
  | refilled hend hrest ih => exact ih hs

theorem Pursues.expects {w : Bytes} (h : t.Pursues s b fed s' b') (hw : b.Expects w) :
    ∃ rest, w = fed ++ rest ∧ b'.Expects rest := by
  induction h generalizing w with
  | here => exact ⟨w, rfl, hw⟩
  | @walked s s₁ s' b b₁ b' fed hstep hrest ih =>
    obtain ⟨hsource, hatEnd⟩ := t.walk_source s b
    rw [walk_of_step hstep] at hsource hatEnd
    exact ih (hw.congr hatEnd hsource)
  | @refilled s s' b b' fed hend hrest ih =>
    obtain ⟨rest, rfl, hexpects⟩ := hw.refill hend
    obtain ⟨rest', rfl, hexpects'⟩ := ih hexpects
    exact ⟨rest', (List.append_assoc _ _ _).symm, hexpects'⟩

end

/-- A step is settled, or it is suspended where more input may come. -/
theorem step_settled_or_suspended (hs : s < t.size) (b : Buffer σ) :
    (∃ (result : Except ScanError Nat) (b' : Buffer σ),
        t.step s b = .ok (result.map Outcome.matched, b') ∧ b'.atEnd = b.atEnd) ∨
      ∃ s' b', t.step s b = .ok (.ok (.suspended s'), b') ∧ s' < t.size ∧ b.atEnd = false ∧
        b'.atEnd = false ∧ b'.source = b.source := by
  obtain ⟨hsource, hatEnd⟩ := t.walk_source s b
  have hstep := step_eq hs b
  rcases hwalk : t.walk s b with ⟨e | rule | s', b'⟩ <;> rw [hwalk] at hsource hatEnd hstep
  · exact .inl ⟨.error e, b', hstep, hatEnd⟩
  · exact .inl ⟨.ok rule, b', hstep, hatEnd⟩
  · have hend := atEnd_of_suspended hwalk
    exact .inr ⟨s', b', hstep, (of_walk_suspended hs hwalk).1, hatEnd.symm.trans hend, hend,
      hsource⟩

/-- A walk that goes on behind failures is settled, with so many bytes taken in. -/
inductive Settles [Supply σ] (t : Table) (s : Nat) (b : Buffer σ) (fed : Bytes)
    (result : Except ScanError Nat) (last : Buffer σ) : Prop
  | intro {s' : Nat} {b' : Buffer σ} (hpursues : t.Pursues s b fed s' b')
      (hsettled : t.step s' b' = .ok (result.map .matched, last)) : Settles t s b fed result last

section
variable [Supply σ] {b b₁ last : Buffer σ} {fed : Bytes} {result : Except ScanError Nat}

theorem Settles.at_once (h : t.step s b = .ok (result.map .matched, last)) :
    t.Settles s b [] result last :=
  ⟨.here, h⟩

/-- A walk that is suspended is settled behind a refill. -/
theorem Settles.behind (hstep : t.step s b = .ok (.ok (.suspended s'), b₁))
    (hend : b₁.atEnd = false) (hsource : b₁.source = b.source)
    (h : t.Settles s' b₁.refill.2 fed result last) :
    t.Settles s b ((Supply.refill b.source).1.appended ++ fed) result last := by
  obtain ⟨hpursues, hsettled⟩ := h
  rw [← hsource]
  exact ⟨.walked hstep (.refilled hend hpursues), hsettled⟩

/-- At the end of the input a walk is settled at once. -/
theorem settles_of_atEnd (hs : s < t.size) (h : b.atEnd = true) :
    ∃ result last, t.Settles s b [] result last := by
  rcases step_settled_or_suspended hs b with ⟨result, last, hstep, -⟩ | ⟨_, _, -, -, hend, -⟩
  · exact ⟨result, last, .at_once hstep⟩
  · rw [h] at hend
    cases hend

/-- While the source holds out, refills lead to the end of the walk or of the input. -/
theorem settles_of_holdsOut {source : σ} {w : Bytes} (h : HoldsOut source w) (hs : s < t.size)
    (hend : b.atEnd = false) (hsource : b.source = source) :
    ∃ fed result last rest, t.Settles s b fed result last ∧ w = fed ++ rest ∧
      (last.atEnd = true → rest = []) := by
  induction h generalizing s b with
  | @ended source hover =>
    rcases step_settled_or_suspended hs b with
      ⟨result, last, hstep, hatEnd⟩ | ⟨s₁, b₁, hstep, hs₁, -, hend₁, hsource₁⟩
    · exact ⟨[], result, last, _, .at_once hstep, rfl, fun hlast => by
        rw [hatEnd, hend] at hlast; cases hlast⟩
    · have hover' : b₁.refill.2.atEnd = true := by
        rw [refill_atEnd_iff hend₁, hsource₁, hsource, hover]
      obtain ⟨result, last, hsettles⟩ := settles_of_atEnd hs₁ hover'
      subst hsource
      exact ⟨_, result, last, [], hsettles.behind hstep hend₁ hsource₁, by simp, fun _ => rfl⟩
  | @goesOn source rest hgoes hrest ih =>
    rcases step_settled_or_suspended hs b with
      ⟨result, last, hstep, hatEnd⟩ | ⟨s₁, b₁, hstep, hs₁, -, hend₁, hsource₁⟩
    · exact ⟨[], result, last, _, .at_once hstep, rfl, fun hlast => by
        rw [hatEnd, hend] at hlast; cases hlast⟩
    · have hend₂ : b₁.refill.2.atEnd = false := by
        rw [Bool.eq_false_iff, ne_eq, refill_atEnd_iff hend₁, hsource₁, hsource]
        exact hgoes
      have hsource₂ : b₁.refill.2.source = (Supply.refill source).2 := by
        rw [refill_source hend₁, hsource₁, hsource]
      obtain ⟨fed, result, last, rest', hsettles, rfl, hlast⟩ := ih hs₁ hend₂ hsource₂
      subst hsource
      exact ⟨_, result, last, rest', hsettles.behind hstep hend₁ hsource₁,
        (List.append_assoc _ _ _).symm, hlast⟩

/-- However far a walk has been pursued, it can be brought to its end. -/
theorem Pursues.settles {b' : Buffer σ} {w : Bytes} (h : t.Pursues s b fed s' b') (hs : s < t.size)
    (hw : b.Expects w) :
    ∃ fed' result last rest, t.Settles s' b' fed' result last ∧ w = fed ++ fed' ++ rest ∧
      (last.atEnd = true → rest = []) := by
  obtain ⟨rest, rfl, hexpects⟩ := h.expects hw
  cases hexpects with
  | ended hend =>
    obtain ⟨result, last, hsettles⟩ := settles_of_atEnd (h.state_lt hs) hend
    exact ⟨[], result, last, [], hsettles, by simp, fun _ => rfl⟩
  | more hend hholds =>
    obtain ⟨fed', result, last, rest', hsettles, rfl, hlast⟩ :=
      settles_of_holdsOut hholds (h.state_lt hs) hend rfl
    exact ⟨fed', result, last, rest', hsettles, (List.append_assoc _ _ _).symm, hlast⟩

end

/-- **A failed refill can be tried again without a trace.** From a state of the tables, on any open
token whose input is not over: refills that fail leave the place in the stream and all that has been
found as they are, and add what the source appended to the bytes at hand, which is nothing for a
reader. A walk that goes on behind failures, wherever they come, has the result and the span of the
walk on a supply that delivers the same bytes without a failure. And however far it has gone, it can
be brought to its end on every supply that holds out. -/
theorem refill_retriable (t : Table) {s : Nat} (hs : s < t.size) {σ : Type} [Supply σ]
    {b : Buffer σ} (hb : b.Sound) (hend : b.atEnd = false) :
    (∀ n lost b', b.Fails n lost b' → b.Unmoved lost b' ∧ t.Pursues s b lost s b') ∧
      (∀ (r r' : Buffer Reader) n lost, r.Fails n lost r' → lost = []) ∧
      (∀ fed result last, t.Settles s b fed result last →
        ∀ (τ : Type) [Supply τ] (source : τ) n q, RunsOut n source (fed ++ q) none →
          (last.atEnd = true → q = []) →
            ∃ k d, t.Drives s (b.mapSource fun _ => source) k d ∧ d.result = result ∧
              d.buffer.span = last.span) ∧
      ∀ w, HoldsOut b.source w → ∀ fed s' b', t.Pursues s b fed s' b' →
        ∃ fed' result last rest, t.Settles s' b' fed' result last ∧ w = fed ++ fed' ++ rest ∧
          (last.atEnd = true → rest = []) := by
  refine ⟨fun n lost b' h => ⟨h.unmoved hb, .of_fails h⟩, fun r r' n lost h => h.lost_of_reader,
    fun fed result last h τ _ source n q hsource hq => ?_, fun w hw fed s' b' h => ?_⟩
  · obtain ⟨hpursues, hsettled⟩ := h
    exact hpursues.drives hb hend (walk_of_step hsettled) hq hsource
  · exact h.settles hs (.more hend hw)

/-- Behind byte 0 the source fails twice, the second time with byte 1 appended, before it says that
the input is over: the walk goes back to the match of one byte, as it does where byte 1 comes
without a failure. -/
theorem refill_retriable_backingOff :
    let source := Feed.mk [⟨[], .error ⟨"lost"⟩⟩, ⟨[1], .error ⟨"lost"⟩⟩] false
    let b : Buffer Feed :=
      { content := #[5, 0], start := 1, cursor := 2, lastMatchEnd := 2, matchedRule := some 7
        source }
    1 < backingOff.size ∧ b.Sound ∧ b.atEnd = false ∧ HoldsOut source [1] ∧
      (∃ b', b.Fails 2 [1] b' ∧ b.Unmoved [1] b') ∧
      (∃ last, backingOff.Settles 1 b [1] (.ok 7) last ∧
        ∃ k d, backingOff.Drives 1 (b.mapSource fun _ => Chunks.mk [[1]]) k d ∧ d.result = .ok 7 ∧
          d.buffer.span = last.span) ∧
      ∃ fed' result last, backingOff.Settles 1 b fed' result last := by
  intro source b
  have hs : 1 < backingOff.size := by decide
  have hb : b.Sound := ⟨by decide, by decide, by decide, nofun⟩
  have hholds : HoldsOut source [1] := .goesOn nofun (.goesOn nofun (.ended rfl))
  obtain ⟨hfails, -, hsettles, hends⟩ := backingOff.refill_retriable hs hb rfl
  have hfailed : b.Fails 2 [1] b.refill.2.refill.2 := .again rfl (.once rfl)
  have hpast : backingOff.step 1 b.refill.2.refill.2 =
      .ok (.ok (.suspended 2), b.refill.2.refill.2.pass 1) :=
    (step_eq hs _).trans (congrArg Except.ok ((walk_eq _ _ _).trans rfl))
  have hback : backingOff.step 2 (b.refill.2.refill.2.pass 1).refill.2 =
      .ok ((Except.ok 7 : Except ScanError Nat).map .matched,
        (b.refill.2.refill.2.pass 1).refill.2.rewind) :=
    (step_eq (by decide) _).trans (congrArg Except.ok ((walk_eq _ _ _).trans rfl))
  have hsettled : backingOff.Settles 1 b [1] (.ok 7) _ :=
    ⟨.refilled rfl (.refilled rfl (.walked hpast (.refilled rfl .here))), hback⟩
  obtain ⟨k, d, hdrives, hresult, hspan⟩ := hsettles [1] _ _ hsettled Chunks ⟨[[1]]⟩ 2 []
    (.more rfl (.ended rfl)) fun _ => rfl
  obtain ⟨fed', result, last, rest, hsettles', -⟩ := hends [1] hholds [] 1 b .here
  exact ⟨hs, hb, rfl, hholds, ⟨_, hfailed, (hfails 2 [1] _ hfailed).1⟩,
    ⟨_, hsettled, k, d, hdrives, hresult, hspan⟩, fed', result, last, hsettles'⟩

end Table

end CombLexer
