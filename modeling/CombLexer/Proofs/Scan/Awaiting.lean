/-
Scanning a supply that runs out.

`Buffer.Awaits` says what is still to come behind the bytes at hand, and whether
it ends with the input or with a failure. A walk looks at the bytes at hand
only, so up to the next refill it makes no difference how the rest comes: it may
as well be one piece, with a text `q` behind it where the supply would fail
(`Buffer.lend`). So what is known of a search on a supply that delivers a text
is known of one that runs out, as long as it does not fail; and where it fails
all bytes of the token are at hand (`Awaits.drives`, `Awaits.attempts`).
`Shows.returns` says it of a call of the scanner: its answer is that of the
reading of all that comes with `q` behind it, or the failure.
-/
import CombLexer.Proofs.Scan.Conservation
import CombLexer.Proofs.Scan.Shift
import CombLexer.Proofs.Source.RunningOut

namespace CombLexer

variable {σ : Type}

namespace Buffer

/-- What is still to come behind the bytes at hand, in how many answers, and the failure that it
ends with, if it does. -/
inductive Awaits [Supply σ] (b : Buffer σ) : Nat → Bytes → Option SourceError → Prop
  | ended (h : b.atEnd = true) : Awaits b 0 [] none
  | more {n : Nat} {rest : Bytes} {fault? : Option SourceError} (h : b.atEnd = false)
      (hrest : RunsOut n b.source rest fault?) : Awaits b n rest fault?

/-- The buffer with a text to come in one piece. -/
def lend (b : Buffer σ) (rest : Bytes) : Buffer Chunks := b.mapSource fun _ => ⟨[rest]⟩

/-- The token begins at an offset, and the bytes at hand are all that it can have. -/
structure Holds (b : Buffer σ) (offset : Nat) (w : Bytes) : Prop where
  startOffset : b.startOffset = offset
  content : b.content.toList = w

/-- Whatever a source reports, what it appends goes behind the bytes at hand. -/
theorem accept_snd (b : Buffer σ) (d : Delivery) (source : σ) :
    ∃ atEnd,
      (b.accept d source).2 = { b with content := b.content ++ d.appended, source, atEnd } := by
  unfold accept
  cases d.report with
  | error e => exact ⟨b.atEnd, rfl⟩
  | ok k =>
    by_cases hk : k = 0
    · exact ⟨true, by simp [hk]⟩
    · exact ⟨b.atEnd, by simp [hk]⟩

theorem Holds.of_sameToken {b b' b'' : Buffer σ} {rest rest' q : Bytes}
    (h : b''.Holds b'.startOffset (b'.text ++ rest'))
    (hsame : SameToken (b.lend (rest ++ q)) (rest ++ q) (b'.lend (rest' ++ q)) (rest' ++ q)) :
    b''.Holds b.startOffset (b.text ++ rest) := by
  have hoffset : b'.startOffset = b.startOffset := hsame.startOffset
  have hinput : b'.text ++ (rest' ++ q) = b.text ++ (rest ++ q) := hsame.input
  rw [← List.append_assoc, ← List.append_assoc] at hinput
  exact ⟨h.startOffset.trans hoffset, h.content.trans (List.append_cancel_right hinput)⟩

theorem Sound.lend {b : Buffer σ} (h : b.Sound) {rest : Bytes} : (b.lend rest).Sound :=
  h.mapSource _

theorem Sound.of_lend {b : Buffer σ} {rest : Bytes} (h : (b.lend rest).Sound) : b.Sound :=
  h.mapSource fun _ => b.source

theorem walk_lend (t : Table) (s : Nat) (b : Buffer σ) (rest : Bytes) :
    t.walk s (b.lend rest) = ((t.walk s b).1, (t.walk s b).2.lend rest) :=
  mapSource_walk _ b t s

theorem Owes.unique [Supply σ] {b : Buffer σ} {rest rest' : Bytes} (h : b.Owes rest)
    (h' : b.Owes rest') : rest' = rest := by
  cases h with
  | ended hend => exact h'.eq_nil hend
  | more hend hrest =>
    cases h' with
    | ended hend' => rw [hend] at hend'; cases hend'
    | more _ hrest' => exact hrest.unique hrest'

section
variable [Supply σ] {b b' : Buffer σ} {n : Nat} {rest q : Bytes} {fault? : Option SourceError}

theorem Awaits.congr (h : b.Awaits n rest fault?) (hend : b'.atEnd = b.atEnd)
    (hsource : b'.source = b.source) : b'.Awaits n rest fault? := by
  cases h with
  | ended h => exact .ended (hend.trans h)
  | more h hrest => exact .more (hend.trans h) (hsource ▸ hrest)

/-- Where a supply fails a text may come instead; behind the end of the input nothing does. -/
theorem Awaits.owes (h : b.Awaits n rest fault?) (hq : fault? = none → q = []) :
    (b.lend (rest ++ q)).Owes (rest ++ q) := by
  cases h with
  | ended h =>
    rw [hq rfl]
    exact .ended h
  | more h => exact .more h (Chunks.delivers_one _)

theorem Awaits.stands (h : b.Awaits n rest fault?) (hcursor : b.cursor ≤ b.content.size)
    (hq : fault? = none → q = []) :
    (b.lend (rest ++ q)).Stands b.cursorOffset (b.ahead ++ (rest ++ q)) :=
  ⟨hcursor, rfl, rest ++ q, h.owes hq, rfl⟩

/-! ## Refills -/

theorem refill_of_more (hend : b.atEnd = false) :
    b.refill = b.compact.accept (Supply.refill b.source).1 (Supply.refill b.source).2 :=
  if_neg (by simp [hend])

/-- Whatever it comes to, a refill drops the bytes before the token and takes in what the source
appended. -/
theorem refill_snd (hend : b.atEnd = false) :
    ∃ atEnd, b.refill.2 =
      { b.compact with
        content := b.compact.content ++ (Supply.refill b.source).1.appended
        source := (Supply.refill b.source).2, atEnd } := by
  rw [refill_of_more hend]
  exact accept_snd _ _ _

theorem refill_source (hend : b.atEnd = false) :
    b.refill.2.source = (Supply.refill b.source).2 := by
  obtain ⟨atEnd, hrefill⟩ := refill_snd hend
  rw [hrefill]

/-- Only a report of 0 is the end of the input. -/
theorem refill_atEnd_iff (hend : b.atEnd = false) :
    b.refill.2.atEnd = true ↔ (Supply.refill b.source).1.report = .ok 0 := by
  have hcompact : b.compact.atEnd = false := by rw [compact_eq]; exact hend
  rw [refill_of_more hend]
  unfold accept
  cases (Supply.refill b.source).1.report with
  | error e => simp [hcompact]
  | ok n => by_cases hn : n = 0 <;> simp [hn, hcompact]

/-- While the input is not over, a refill fails only with its source. -/
theorem refill_error {e : ScanError} (hend : b.atEnd = false) (h : b.refill = (.error e, b')) :
    ∃ e', e = .source e' ∧ (Supply.refill b.source).1.report = .error e' := by
  rw [refill_of_more hend] at h
  unfold accept at h
  cases hreport : (Supply.refill b.source).1.report with
  | error e' =>
    rw [hreport] at h
    cases h
    exact ⟨e', rfl, rfl⟩
  | ok n =>
    rw [hreport] at h
    cases h

theorem refill_startOffset (b : Buffer σ) : b.refill.2.startOffset = b.startOffset := by
  cases hend : b.atEnd with
  | true => rw [refill, if_pos hend]
  | false =>
    obtain ⟨atEnd, hrefill⟩ := refill_snd hend
    rw [hrefill]
    exact compact_startOffset b

theorem refill_walked (b : Buffer σ) : b.refill.2.walked = b.walked := by
  cases hend : b.atEnd with
  | true => rw [refill, if_pos hend]
  | false =>
    obtain ⟨atEnd, hrefill⟩ := refill_snd hend
    rw [hrefill]
    exact compact_walked b

/-- Wherever the cursor stands behind the start of a token, a refill leaves it there. -/
theorem refill_cursorOffset (h : b.start ≤ b.cursor) :
    b.refill.2.cursorOffset = b.cursorOffset := by
  cases hend : b.atEnd with
  | true => rw [refill, if_pos hend]
  | false =>
    obtain ⟨atEnd, hrefill⟩ := refill_snd hend
    rw [hrefill, compact_eq]
    simp only [cursorOffset]
    omega

theorem refill_text (hb : b.Sound) (hend : b.atEnd = false) :
    b.refill.2.text = b.text ++ (Supply.refill b.source).1.appended := by
  obtain ⟨atEnd, hrefill⟩ := refill_snd hend
  have hgrow := grow_text hb.compact (Supply.refill b.source).1.appended (Supply.refill b.source).2
  rw [compact_text] at hgrow
  rw [hrefill]
  exact hgrow

/-- A refill keeps the walk, with what it takes in no longer to come. -/
theorem sameWalk_refill (hb : b.Sound) (hend : b.atEnd = false) {rest' : Bytes}
    (hrest : rest = (Supply.refill b.source).1.appended ++ rest')
    (howes : (b.refill.2.lend (rest' ++ q)).Owes (rest' ++ q)) :
    SameWalk (b.lend (rest ++ q)) (rest ++ q) (b.refill.2.lend (rest' ++ q)) (rest' ++ q) := by
  have htext : (b.refill.2.lend (rest' ++ q)).text = _ := refill_text hb hend
  obtain ⟨atEnd, hrefill⟩ := refill_snd hend
  have hbest : b.refill.2.best = b.best := hrefill ▸ compact_best b
  refine ⟨⟨hb.refill.lend, howes, b.refill_startOffset, ?_, ?_⟩, b.refill_walked, hbest⟩
  · show _ = b.text ++ (rest ++ q)
    rw [htext, hrest, List.append_assoc, List.append_assoc]
  · show b.text.length ≤ _
    rw [htext, List.length_append]
    exact Nat.le_add_right _ _

/-- A refill takes in what comes next and keeps the walk, or it takes in the last of the bytes and
fails. -/
theorem Awaits.refill (h : b.Awaits n rest fault?) (hb : b.Sound) (hend : b.atEnd = false)
    (hq : fault? = none → q = []) :
    (∃ n' b' rest', n = n' + 1 ∧ b.refill = (.ok (), b') ∧ b'.Awaits n' rest' fault? ∧
        SameWalk (b.lend (rest ++ q)) (rest ++ q) (b'.lend (rest' ++ q)) (rest' ++ q)) ∨
      ∃ e b', n = 1 ∧ fault? = some e ∧ b.refill = (.error (.source e), b') ∧
        b'.Holds b.startOffset (b.text ++ rest) := by
  have hcompact : b.compact.atEnd = false := by rw [compact_eq]; exact hend
  have htext := refill_text hb hend
  have hrefill := refill_of_more hend
  unfold accept at hrefill
  cases h with
  | ended h => rw [hend] at h; cases h
  | more _ hrest =>
    cases hrest with
    | ended hover =>
      simp only [hover, if_true] at hrefill
      have hawaits : b.refill.2.Awaits 0 [] none := by rw [hrefill]; exact .ended rfl
      exact .inl ⟨0, b.refill.2, [], rfl, by rw [hrefill], hawaits,
        sameWalk_refill hb hend (List.append_nil _).symm (hawaits.owes hq)⟩
    | @failed _ e hfailed =>
      simp only [hfailed] at hrefill
      rw [hrefill, text] at htext
      refine .inr ⟨e, b.refill.2, rfl, rfl, by rw [hrefill], ?_, ?_⟩
      · rw [hrefill]
        exact compact_startOffset b
      · have hstart : b.compact.start = 0 := by rw [compact_eq]
        rw [hrefill, ← htext]
        simp only [hstart, List.drop_zero]
    | @more _ k n rest _ hmore hrest =>
      simp only [hmore, Nat.succ_ne_zero, if_false] at hrefill
      have hawaits : b.refill.2.Awaits n rest fault? := by rw [hrefill]; exact .more hcompact hrest
      exact .inl ⟨n, b.refill.2, rest, rfl, by rw [hrefill], hawaits,
        sameWalk_refill hb hend rfl (hawaits.owes hq)⟩

/-! ## Searches -/

/-- Waiting for a byte keeps the walk and ends with a byte at hand or with the input over, or all
bytes of the token are at hand and the supply fails. -/
theorem Awaits.fills (h : b.Awaits n rest fault?) (hb : b.Sound) (hq : fault? = none → q = []) :
    ∃ k n', k + n' = n ∧
      ((∃ b' rest', b.Fills k (.ok (), b') ∧ b'.Awaits n' rest' fault? ∧
          SameWalk (b.lend (rest ++ q)) (rest ++ q) (b'.lend (rest' ++ q)) (rest' ++ q) ∧
          (b'.peek = none → b'.atEnd = true)) ∨
        ∃ e b', fault? = some e ∧ b.Fills k (.error (.source e), b') ∧
          b'.Holds b.startOffset (b.text ++ rest)) := by
  induction n using Nat.strongRecOn generalizing b rest with
  | _ n ih =>
    by_cases hbare : b.peek = none ∧ b.atEnd = false
    · rcases h.refill hb hbare.2 hq with
        ⟨n', b', rest', rfl, hr, hawaits, hsame⟩ | ⟨e, b', rfl, hfault, hr, hholds⟩
      · have hsound : b'.Sound := hsame.sound.of_lend
        obtain ⟨k, m, rfl, hfills⟩ := ih n' (Nat.lt_succ_self n') hawaits hsound
        refine ⟨k + 1, m, by omega, ?_⟩
        rcases hfills with
          ⟨b₂, rest₂, hfill, hawaits₂, hsame₂, hover⟩ | ⟨e, b₂, hfault, hfill, hholds⟩
        · exact .inl ⟨b₂, rest₂, .again hbare hr hfill, hawaits₂, hsame.trans hsame₂, hover⟩
        · exact .inr ⟨e, b₂, hfault, .again hbare hr hfill, hholds.of_sameToken hsame.toSameToken⟩
      · exact ⟨1, 0, rfl, .inr ⟨e, b', hfault, .failed hbare hr, hholds⟩⟩
    · refine ⟨0, n, Nat.zero_add n, .inl ⟨b, rest, .ready hbare, h,
        .refl hb.lend (h.owes hq), fun hpeek => ?_⟩⟩
      cases hend : b.atEnd with
      | true => rfl
      | false => exact absurd ⟨hpeek, hend⟩ hbare

/-- A walk over the bytes at hand is settled as it is with all bytes that come and `q` behind them,
or it is suspended and leaves the rest of that search to do. -/
theorem Awaits.walk (h : b.Awaits n rest fault?) (hb : b.Sound) (hq : fault? = none → q = [])
    (t : Table) (s : Nat) :
    ∃ b', b'.Awaits n rest fault? ∧
      SameToken (b.lend (rest ++ q)) (rest ++ q) (b'.lend (rest ++ q)) (rest ++ q) ∧
      ((∃ result, t.walk s b = (result.map .matched, b') ∧
          b'.EndsWith b.startOffset result (goal t s b (rest ++ q))) ∨
        ∃ s', t.walk s b = (.ok (.suspended s'), b') ∧ b'.atEnd = false ∧
          goal t s' b' (rest ++ q) = goal t s b (rest ++ q)) := by
  obtain ⟨hsource, hatEnd⟩ := t.walk_source s b
  have hlend := walk_lend t s b (rest ++ q)
  refine ⟨(t.walk s b).2, h.congr hatEnd hsource, ?_⟩
  rcases walk_cases t s hb.lend (h.owes hq) with
    ⟨result, b₁, hwalk, htoken, hends⟩ | ⟨s', b₁, hwalk, htoken, hend, hgoal⟩
  · rw [hlend, Prod.mk.injEq] at hwalk
    obtain ⟨hresult, rfl⟩ := hwalk
    exact ⟨htoken, .inl ⟨result, Prod.ext hresult rfl, hends⟩⟩
  · rw [hlend, Prod.mk.injEq] at hwalk
    obtain ⟨hresult, rfl⟩ := hwalk
    exact ⟨htoken, .inr ⟨s', Prod.ext hresult rfl, hend, hgoal⟩⟩

/-- A walk with its refills ends as it does with all bytes that come and `q` behind them, or all
bytes of the token are at hand and the supply fails. -/
theorem Awaits.drives (h : b.Awaits n rest fault?) (hb : b.Sound) (hq : fault? = none → q = [])
    (t : Table) (s : Nat) :
    ∃ k n' d, k + n' = n ∧ t.Drives s b k d ∧
      ((∃ rest', d.buffer.Awaits n' rest' fault? ∧
          SameToken (b.lend (rest ++ q)) (rest ++ q) (d.buffer.lend (rest' ++ q)) (rest' ++ q) ∧
          d.buffer.EndsWith b.startOffset d.result (goal t s b (rest ++ q))) ∨
        ∃ e, fault? = some e ∧ d.result = .error (.source e) ∧
          d.buffer.Holds b.startOffset (b.text ++ rest)) := by
  induction n using Nat.strongRecOn generalizing s b rest with
  | _ n ih =>
    obtain ⟨b', hawaits, htoken, ⟨result, hw, hends⟩ | ⟨s', hw, hend, hgoal⟩⟩ := h.walk hb hq t s
    · exact ⟨0, n, _, Nat.zero_add n, .settled hw, .inl ⟨rest, hawaits, htoken, hends⟩⟩
    · have hsound : b'.Sound := htoken.sound.of_lend
      rcases hawaits.refill hsound hend hq with
        ⟨n', b'', rest', rfl, hr, hawaits', hsame⟩ | ⟨e, b'', rfl, hfault, hr, hholds⟩
      · have hsound' : b''.Sound := hsame.sound.of_lend
        obtain ⟨k, m, d, rfl, hdrives, hcomes⟩ := ih n' (Nat.lt_succ_self n') hawaits' hsound' s'
        refine ⟨k + 1, m, _, by omega, .again hw hr hdrives, ?_⟩
        have hkept := htoken.trans hsame.toSameToken
        rcases hcomes with ⟨rest₂, hawaits₂, htoken₂, hends⟩ | ⟨e, hfault, hresult, hholds⟩
        · refine .inl ⟨rest₂, hawaits₂, hkept.trans htoken₂, ?_⟩
          have hoffset : b''.startOffset = b.startOffset := hkept.startOffset
          have hgoal' : goal t s' b'' (rest' ++ q) = goal t s' b' (rest ++ q) :=
            hsame.goal_eq hsound.lend t s'
          rw [hoffset, hgoal', hgoal] at hends
          exact hends
        · exact .inr ⟨e, hfault, hresult, hholds.of_sameToken hkept⟩
      · exact ⟨1, 0, _, rfl, .failed hw hr, .inr ⟨e, hfault, rfl, hholds.of_sameToken htoken⟩⟩

end

end Buffer

open Buffer

/-- The walk with its buffer on another source, which has a text to come. -/
def Drive.lend (d : Drive σ) (rest : Bytes) : Drive Chunks :=
  { d with buffer := d.buffer.lend rest }

/-- The search with its buffer on another source, which has a text to come. -/
def Attempt.lend (a : Attempt σ) (rest : Bytes) : Attempt Chunks :=
  { a with buffer := a.buffer.lend rest }

theorem Drive.toAttempt_lend (d : Drive σ) (rest : Bytes) :
    d.toAttempt.lend rest = (d.lend rest).toAttempt := by
  obtain ⟨stops, _ | _, buffer⟩ := d <;> rfl

/-- A search ends as it does with all bytes that come and `q` behind them, or all bytes of the token
are at hand and the supply fails. -/
theorem Buffer.Awaits.attempts [Supply σ] {b : Buffer σ} {n : Nat} {rest q : Bytes}
    {fault? : Option SourceError} (h : b.Awaits n rest fault?) (hcursor : b.cursor ≤ b.content.size)
    (hq : fault? = none → q = []) (t : Table) (s : Nat) :
    ∃ k n' a, k + n' = n ∧ t.Attempts s b k a ∧
      ((∃ rest', a.buffer.Awaits n' rest' fault? ∧
          Attempted t s b.cursorOffset (b.ahead ++ (rest ++ q)) (a.lend (rest' ++ q))) ∨
        ∃ e, fault? = some e ∧ a.result = .error (.source e) ∧
          a.buffer.Holds b.cursorOffset (b.ahead ++ rest)) := by
  have hopen : b.openToken.Sound := .of_openToken hcursor
  have hawaits : b.openToken.Awaits n rest fault? := h.congr rfl rfl
  obtain ⟨k, m, rfl, ⟨b₁, rest₁, hfill, hawaits₁, hsame, hover⟩ | ⟨e, b₁, hfault, hfill, hholds⟩⟩ :=
    hawaits.fills hopen hq
  · cases hpeek : b₁.peek with
    | none =>
      obtain ⟨hdone, hattempted⟩ : b₁.isDone = true ∧ _ :=
        attempted_of_over (b := b.lend (rest ++ q)) hopen.lend rfl rfl hsame hpeek (hover hpeek)
      exact ⟨k, m, _, rfl, .ended hfill hdone, .inl ⟨rest₁, hawaits₁, hattempted⟩⟩
    | some c =>
      have hsound : b₁.Sound := hsame.sound.of_lend
      obtain ⟨i, j, d, rfl, hdrives, hcomes⟩ := hawaits₁.drives hsound hq t s
      rcases hcomes with ⟨rest₂, hawaits₂, htoken, hends⟩ | ⟨e, hfault, hresult, hholds⟩
      · have hattempted := attempted_of_walked (b := b.lend (rest ++ q)) (d := d.lend (rest₂ ++ q))
          hopen.lend rfl rfl hsame hpeek htoken hends
        refine ⟨k + i, j, _, Nat.add_assoc k i j, .walked hfill (isDone_of_peek hpeek) hdrives,
          .inl ⟨rest₂, ?_, ?_⟩⟩
        · rw [Drive.toAttempt_buffer]
          exact hawaits₂
        · rw [Drive.toAttempt_lend]
          exact hattempted
      · refine ⟨k + i, j, _, Nat.add_assoc k i j, .walked hfill (isDone_of_peek hpeek) hdrives,
          .inr ⟨e, hfault, Drive.toAttempt_result hresult, ?_⟩⟩
        rw [Drive.toAttempt_buffer]
        exact hholds.of_sameToken hsame.toSameToken
  · exact ⟨k, m, _, rfl, .failed hfill, .inr ⟨e, hfault, rfl, hholds⟩⟩

/-! ## Calls -/

namespace Scanner

/-- The scanner with its buffer on another source, which has a text to come. -/
def lend (sc : Scanner σ) (rest : Bytes) : Scanner Chunks :=
  { sc with buffer := sc.buffer.lend rest }

theorem conclude_lend (sc : Scanner σ) (a : Attempt σ) (rest rest' : Bytes) :
    (sc.lend rest).conclude (a.lend rest') =
      ((sc.conclude a).1, (sc.conclude a).2.lend rest') := by
  obtain ⟨result, notes, buffer⟩ := a
  cases result with
  | ok token => rfl
  | error e =>
    by_cases hgoes : continues sc.config e = true
    · have hgoes' : continues (sc.lend rest).config e = true := hgoes
      simp only [conclude, Attempt.lend, if_pos hgoes, if_pos hgoes']
      rfl
    · have hgoes' : ¬ continues (sc.lend rest).config e = true := hgoes
      simp only [conclude, Attempt.lend, if_neg hgoes, if_neg hgoes']
      rfl

section
variable [Supply σ] {sc : Scanner σ} {t : Table} {config : Config} {r : Reading} {n : Nat}
  {rest q : Bytes} {fault? : Option SourceError}

theorem Shows.ahead_eq (h : (sc.lend (rest ++ q)).Shows t config r)
    (ha : sc.buffer.Awaits n rest fault?) (hq : fault? = none → q = []) :
    sc.buffer.ahead ++ (rest ++ q) = r.ahead := by
  obtain ⟨-, -, rest', howes, hinput⟩ := h.stands
  rw [howes.unique (ha.owes hq)]
  exact hinput

/-- A search that the scanner makes is taken in as the reading takes it in, or the supply fails. -/
theorem Shows.searches (h : (sc.lend (rest ++ q)).Shows t config r)
    (ha : sc.buffer.Awaits n rest fault?) (hq : fault? = none → q = [])
    (hskip : r.skipFirst = false) (hfin : r.finished = false) :
    ∃ k n' a, k + n' = n ∧ sc.table.Attempts sc.config.initialState sc.buffer k a ∧
      ((∃ rest', (sc.conclude a).2.buffer.Awaits n' rest' fault? ∧
          Follows ((sc.conclude a).1, (sc.conclude a).2.lend (rest' ++ q)) t config
            (r.scan t config)) ∨
        ∃ e w, fault? = some e ∧ (sc.conclude a).1 = .error (.source e) ∧
          (sc.conclude a).2.finished = true ∧ (sc.conclude a).2.buffer.Holds r.offset w ∧
          w ++ q = r.ahead) := by
  have hahead := h.ahead_eq ha hq
  obtain ⟨k, m, a, hn, hattempts, hcomes⟩ :=
    ha.attempts h.stands.cursor_le hq sc.table sc.config.initialState
  refine ⟨k, m, a, hn, hattempts, ?_⟩
  rw [conclude_buffer]
  have htable : sc.table = t := h.table
  have hconfig : sc.config = config := h.config
  have hoffset : sc.buffer.cursorOffset = r.offset := h.stands.cursorOffset
  rcases hcomes with ⟨rest', hawaits, hattempted⟩ | ⟨e, hfault, hresult, hholds⟩
  · refine .inl ⟨rest', hawaits, ?_⟩
    rw [htable, hconfig, hoffset, hahead] at hattempted
    rw [← conclude_lend sc a (rest ++ q) (rest' ++ q)]
    exact h.conclude hskip hfin hattempted
  · refine .inr ⟨e, _, hfault, ?_, ?_, hoffset ▸ hholds, ?_⟩
    · rw [conclude_fst, hresult]
    · simp [Scanner.conclude, hresult, continues]
    · rw [List.append_assoc, hahead]

/-- **A call on a supply that runs out.** It has an answer, which is that of the reading of all
bytes that come with `q` behind them; or the supply fails, and then the scanner is finished and
holds all bytes from where the next token was looked for. -/
theorem Shows.returns (h : (sc.lend (rest ++ q)).Shows t config r)
    (ha : sc.buffer.Awaits n rest fault?) (hq : fault? = none → q = [])
    (hfin : r.finished = false) :
    ∃ k n' step, k + n' = n ∧ sc.Returns k step ∧
      ((∃ rest', step.2.buffer.Awaits n' rest' fault? ∧
          Follows (step.1, step.2.lend (rest' ++ q)) t config (r.next t config)) ∨
        ∃ e w, fault? = some e ∧ step.1 = .error (.source e) ∧ step.2.finished = true ∧
          step.2.buffer.Holds r.resumed.offset w ∧ w ++ q = r.resumed.ahead) := by
  have hfin' : sc.finished = false := h.finished.trans hfin
  rw [Reading.next_of_not_finished hfin]
  cases hskip : r.skipFirst with
  | false =>
    rw [Reading.resumed_of_not_skipFirst hskip]
    obtain ⟨k, m, a, hn, hattempts, hcomes⟩ := h.searches ha hq hskip hfin
    exact ⟨k, m, _, hn, .searched hfin' (h.skipFirst.trans hskip) hattempts, hcomes⟩
  | true =>
    -- The byte that failed is at hand, so passing over it asks for nothing.
    have hpeek : sc.buffer.peek.isSome := (h.failed hskip).2
    have hbyte := skipByte_of_peek hpeek
    have hnoAsk : sc.buffer.asksToSkip = 0 := by
      obtain ⟨c, hc⟩ := Option.isSome_iff_exists.1 hpeek
      exact if_neg fun hbare => Nat.ne_of_lt (advance_cursor hc).1 hbare.1
    obtain ⟨b, hb, hstands⟩ := skipByte_spec h.stands
    obtain rfl : ((sc.buffer.pass 1).openToken).lend (rest ++ q) = b := by
      have hlent := skipByte_of_peek (b := (sc.lend (rest ++ q)).buffer) hpeek
      exact congrArg Prod.snd (hlent.symm.trans hb)
    have hresumed : ((sc.resumeOn (sc.buffer.pass 1).openToken).lend (rest ++ q)).Shows t config
        r.resumed := by
      unfold Reading.resumed
      rw [if_pos hskip]
      exact ⟨h.table, h.config, rfl, h.finished, hstands, nofun⟩
    have hawaits : (sc.resumeOn (sc.buffer.pass 1).openToken).buffer.Awaits n rest fault? :=
      ha.congr rfl rfl
    obtain ⟨k, m, a, hn, hattempts, hcomes⟩ :=
      hresumed.searches hawaits hq r.resumed_skipFirst (r.resumed_finished.trans hfin)
    have hreturns := Returns.resumed hfin' (h.skipFirst.trans hskip) hbyte hattempts
    rw [hnoAsk, Nat.zero_add] at hreturns
    exact ⟨k, m, _, hn, hreturns, hcomes⟩

end

end Scanner

/-! ## All answers -/

/-- Where an answer ends in the stream: a token behind its bytes, and a failure behind the byte that
is passed over. -/
def stopOf : Except ScanError Token → Nat
  | .ok token => token.span.stop
  | .error (.noMatch k) => k + 1
  | .error _ => 0

/-- Where answers from an offset on end in the stream. -/
def endOf (offset : Nat) (answers : List (Except ScanError Token)) : Nat :=
  answers.getLast?.elim offset stopOf

@[simp] theorem endOf_nil (offset : Nat) : endOf offset [] = offset := rfl

theorem endOf_cons (offset : Nat) (answer : Except ScanError Token)
    (answers : List (Except ScanError Token)) :
    endOf offset (answer :: answers) = endOf (stopOf answer) answers := by
  unfold endOf
  rw [List.getLast?_cons]
  cases answers.getLast? <;> rfl

namespace Scanner

/-- All answers of a scanner on a supply that runs out, with `n` refills at most: they are those
that are expected, or the first of them and then the failure. In that case the scanner holds all
bytes from the end of the last of them on, which are those of `w` before `q`. -/
inductive ComesTo [Supply σ] (sc : Scanner σ) (n : Nat) (fault? : Option SourceError) (w q : Bytes)
    (offset : Nat) (expected : List (Except ScanError Token)) : Prop
  | whole {k : Nat} {last : Scanner σ} (hle : k ≤ n) (hends : sc.Ends k expected last)
      (hfin : last.finished = true)
  | failed {k : Nat} {e : SourceError} {results : List (Except ScanError Token)} {last : Scanner σ}
      {p : Bytes} (hle : k ≤ n) (hfault : fault? = some e)
      (hgives : sc.Gives k (results ++ [.error (.source e)]) last) (hfin : last.finished = true)
      (hbegins : results <+: expected) (hholds : last.buffer.Holds (endOf offset results) p)
      (hrest : p ++ q = w.drop (endOf offset results))

section
variable [Supply σ] {sc sc' : Scanner σ} {t : Table} {config : Config} {r : Reading}
  {i n offset : Nat} {w rest q : Bytes} {fault? : Option SourceError} {answer : Except ScanError Token}
  {expected : List (Except ScanError Token)}

theorem ComesTo.cons (h : sc.Returns i (answer.map some, sc'))
    (hrest : sc'.ComesTo n fault? w q (stopOf answer) expected) :
    sc.ComesTo (i + n) fault? w q offset (answer :: expected) := by
  cases hrest with
  | whole hle hends hfin => exact .whole (Nat.add_le_add_left hle i) (.cons h hends) hfin
  | failed hle hfault hgives hfin hbegins hholds hrest =>
    rw [← endOf_cons offset] at hholds hrest
    exact .failed (Nat.add_le_add_left hle i) hfault (.cons h hgives) hfin
      ((List.prefix_cons_inj answer).2 hbegins) hholds hrest

/-- **All answers on a supply that runs out** are those of the reading of all bytes that come with
`q` behind them, up to a failure of the supply. -/
theorem Shows.comesTo (h : (sc.lend (rest ++ q)).Shows t config r)
    (ha : sc.buffer.Awaits n rest fault?) (hq : fault? = none → q = []) (hfin : r.finished = false)
    (hon : r.On w) : sc.ComesTo n fault? w q r.resumed.offset (r.results t config) := by
  -- Every answer but the last uses up a byte of the text.
  induction hleft : r.left using Nat.strongRecOn generalizing sc r n rest with
  | _ left ih =>
    subst hleft
    obtain ⟨k, m, ⟨result, sc'⟩, rfl, hreturns, hcomes⟩ := h.returns ha hq hfin
    rcases hcomes with ⟨rest', hawaits, hfollows⟩ | ⟨e, p, hfault, hresult, hfin', hholds, hp⟩
    · obtain ⟨hresult, -, hshows⟩ := hfollows
      have hon' := hon.next t config
      have hspec := r.next_spec t config
      have hless : (r.next t config).1 ≠ .ok none → (r.next t config).2.left < r.left :=
        r.left_next_lt
      have hfin₀ : r.resumed.finished = false := r.resumed_finished.trans hfin
      rcases hnext : r.next t config with ⟨answer, r'⟩
      rw [hnext] at hresult hshows hon' hless hspec
      have hfirst : (r.next t config).1 = answer := by rw [hnext]
      cases hspec with
      | finished hfin' => rw [hfin] at hfin'; cases hfin'
      | ended =>
        rw [Reading.results_of_over hfirst]
        cases hresult
        exact .whole (Nat.le_add_right k m) hreturns.ends hshows.finished
      | token _ _ hm =>
        rw [Reading.results_of_token hfirst, hnext]
        cases hresult
        refine .cons hreturns ?_
        have hrest := ih _ (hless nofun) hshows hawaits hfin₀ hon' rfl
        rw [Reading.resumed_of_not_skipFirst (r := r.resumed.pass _) r.resumed_skipFirst,
          Reading.pass_offset (Table.length_le_of_longest? hm)] at hrest
        exact hrest
      | skipped _ hw =>
        rw [Reading.results_of_error hfirst, hnext]
        cases hresult
        refine .cons hreturns ?_
        have hrest := ih _ (hless nofun) hshows hawaits hfin₀ hon' rfl
        rw [Reading.resumed_of_skipFirst r.resumed_skipFirst,
          Reading.pass_offset (List.length_pos_iff.2 hw)] at hrest
        exact hrest
      | aborted =>
        rw [Reading.results_of_error hfirst, hnext, Reading.results_of_finished rfl]
        cases hresult
        have hfin' : sc'.finished = true := hshows.finished
        exact .cons hreturns (.whole (Nat.zero_le m) (Returns.finished hfin').ends hfin')
    · cases hresult
      have hgives : sc.Gives k ([] ++ [.error (.source e)]) sc' := .cons hreturns .nil
      refine .failed (Nat.le_add_right k m) hfault hgives hfin' List.nil_prefix hholds ?_
      rw [hp, endOf_nil, hon.resumed.ahead]

/-- All answers of a new scanner on a supply that runs out. -/
theorem comesTo_ofSource {source : σ} (h : RunsOut n source w fault?) (hq : fault? = none → q = [])
    (t : Table) (config : Config) :
    ComesTo { table := t, buffer := .ofSource source, config } n fault? (w ++ q) q 0
      ((Reading.ofText (w ++ q)).results t config) := by
  have hawaits : (Buffer.ofSource source).Awaits n w fault? := .more rfl h
  have hshows : Shows (lend { table := t, buffer := .ofSource source, config } (w ++ q)) t config
      (.ofText (w ++ q)) := shows_new (hawaits.stands (Nat.le_refl 0) hq)
  exact Shows.comesTo hshows hawaits hq rfl (Reading.on_ofText _)

end

theorem comesTo_ofBytes (t : Table) (config : Config) (w : Bytes) :
    ComesTo { table := t, buffer := .ofBytes w, config } 0 none w [] 0
      ((Reading.ofText w).results t config) := by
  have hawaits : (Buffer.ofBytes w).Awaits 0 [] none := .ended rfl
  have hstands := hawaits.stands (q := []) (Nat.zero_le _) fun _ => rfl
  have hahead : (Buffer.ofBytes w).ahead ++ ([] ++ []) = w := List.append_nil w
  rw [hahead] at hstands
  exact Shows.comesTo (shows_new hstands) hawaits (fun _ => rfl) rfl (Reading.on_ofText w)

end Scanner

end CombLexer
