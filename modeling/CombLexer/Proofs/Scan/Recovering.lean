/-
What is lost when a failed scan is taken up again.

`Scanner.resync` passes over the byte at the cursor. A walk that fails because
no rule matches takes the cursor back to the start of the token first, and
before a token the cursor is at its start anyway. But where the source fails in
the middle of a walk the cursor stays behind the bytes that the walk has read,
and they go with the byte that is passed over. `Scanner.FailsAt` tells the four
ways for a call to fail apart, and `resync_one_byte_iff` says that the third is
the one where more than a byte is lost, in every session of requests.
-/
import CombLexer.Proofs.Scan.Awaiting
import CombLexer.Proofs.Scan.Exhaustion

namespace CombLexer

variable {σ : Type}

/-! ## The positions stay in order -/

section
variable [Supply σ]

theorem Buffer.Fills.sound {b : Buffer σ} {n : Nat} {step : Except ScanError Unit × Buffer σ}
    (h : b.Fills n step) (hb : b.Sound) : step.2.Sound := by
  induction h with
  | ready hnot => exact hb
  | failed hbare hr => exact hb.of_refill hr
  | again hbare hr hrest ih => exact ih (hb.of_refill hr)

theorem Table.Drives.sound {t : Table} {s n : Nat} {b : Buffer σ} {d : Drive σ}
    (h : t.Drives s b n d) (hb : b.Sound) : d.buffer.Sound := by
  induction h with
  | settled hw => exact hb.of_walk hw
  | failed hw hr => exact (hb.of_walk hw).of_refill hr
  | again hw hr hrest ih => exact ih ((hb.of_walk hw).of_refill hr)

theorem Table.Attempts.sound {t : Table} {s n : Nat} {b : Buffer σ} {a : Attempt σ}
    (h : t.Attempts s b n a) (hb : b.Sound) : a.buffer.Sound := by
  have hopen : b.openToken.Sound := .of_openToken hb.cursor_le
  cases h with
  | failed hf => exact hf.sound hopen
  | ended hf hdone => exact hf.sound hopen
  | walked hf hdone hd =>
    rw [Drive.toAttempt_buffer]
    exact hd.sound (hf.sound hopen)

namespace Scanner

theorem Returns.sound {sc : Scanner σ} {n : Nat}
    {step : Except ScanError (Option Token) × Scanner σ} (h : sc.Returns n step)
    (hb : sc.buffer.Sound) : step.2.buffer.Sound := by
  cases h with
  | finished => exact hb
  | searched _ _ ha =>
    rw [conclude_buffer]
    exact ha.sound hb
  | stopped _ _ hs => exact hb.of_skipByte hs
  | resumed _ _ hs ha =>
    rw [conclude_buffer]
    exact ha.sound (hb.of_skipByte hs)

theorem Answers.sound {sc sc' : Scanner σ} {c : Call} {reply : Reply}
    (h : sc.Answers c reply sc') (hb : sc.buffer.Sound) : sc'.buffer.Sound := by
  cases h with
  | next h => exact h.sound hb
  | nextWithBytes h => exact h.sound hb
  | resync => exact hb.skipByte

theorem Collects.sound {sc last : Scanner σ} {result : Except ScanError (List (Token × Bytes))}
    (h : sc.Collects result last) (hb : sc.buffer.Sound) : last.buffer.Sound := by
  induction h with
  | ended h => exact h.sound hb
  | failed h => exact h.sound hb
  | token h _ ih => exact ih (h.sound hb)

theorem Gives.sound {sc last : Scanner σ} {n : Nat} {answers : List (Except ScanError Token)}
    (h : sc.Gives n answers last) (hb : sc.buffer.Sound) : last.buffer.Sound := by
  induction h with
  | nil => exact hb
  | cons hnext _ ih => exact ih (hnext.sound hb)

theorem Ends.sound {sc last : Scanner σ} {n : Nat} {answers : List (Except ScanError Token)}
    (h : sc.Ends n answers last) (hb : sc.buffer.Sound) : last.buffer.Sound := by
  obtain ⟨_, _, _, -, hgives, hover⟩ := h
  exact hover.sound (hgives.sound hb)

/-- Whatever a scanner is asked for, the positions of its buffer stay in order. -/
theorem Session.sound {sc last : Scanner σ} {requests : List Request} {errors : List ScanError}
    (h : sc.Session requests errors last) (hb : sc.buffer.Sound) : last.buffer.Sound := by
  induction h with
  | nil => exact hb
  | call h _ ih => exact ih (h.sound hb)
  | collect h _ ih => exact ih (h.sound hb)
  | results h _ ih => exact ih (h.sound hb)

end Scanner

end

/-! ## How far a token has been walked -/

namespace Buffer

section
variable [Supply σ] {b b' : Buffer σ} {e : ScanError}

theorem Fills.walked {n : Nat} {step : Except ScanError Unit × Buffer σ} (h : b.Fills n step) :
    step.2.walked = b.walked := by
  induction h with
  | ready hnot => rfl
  | @failed b b' e hbare hr =>
    have hwalked := b.refill_walked
    rwa [hr] at hwalked
  | @again b b' n step hbare hr hrest ih =>
    have hwalked := b.refill_walked
    rw [hr] at hwalked
    exact ih.trans hwalked

theorem Fills.error {n : Nat} {step : Except ScanError Unit × Buffer σ} (h : b.Fills n step)
    (he : step.1 = .error e) : ∃ e', e = .source e' := by
  induction h with
  | ready hnot => cases he
  | failed hbare hr =>
    cases he
    obtain ⟨e', heq, -⟩ := refill_error hbare.2 hr
    exact ⟨e', heq⟩
  | again hbare hr hrest ih => exact ih he

/-- Behind waiting there is a byte at hand, or the input is over. -/
theorem Fills.ready_or_over {n : Nat} {step : Except ScanError Unit × Buffer σ}
    (h : b.Fills n step) (hok : step.1 = .ok ()) :
    ¬ (step.2.peek = none ∧ step.2.atEnd = false) := by
  induction h with
  | ready hnot => exact hnot
  | failed hbare hr => cases hok
  | again hbare hr hrest ih => exact ih hok

/-! ## Passing over a byte -/

theorem refillIfBare_walked (b : Buffer σ) : b.refillIfBare.2.walked = b.walked := by
  unfold refillIfBare
  split
  · exact b.refill_walked
  · rfl

theorem refillIfBare_cursorOffset (h : b.start ≤ b.cursor) :
    b.refillIfBare.2.cursorOffset = b.cursorOffset := by
  unfold refillIfBare
  split
  · exact refill_cursorOffset h
  · rfl

/-- Where passing over a byte fails, the source has failed and nothing of a token is walked. -/
theorem skipByte_error (h : b.skipByte = (.error e, b')) :
    (∃ e', e = .source e') ∧ b'.walked = 0 := by
  have hwalked := b.openToken.refillIfBare_walked
  rw [openToken_walked] at hwalked
  rw [skipByte_eq] at h
  rcases hbare : b.openToken.refillIfBare with ⟨e₁ | _, b₁⟩ <;> rw [hbare] at h hwalked
  · cases h
    refine ⟨?_, hwalked⟩
    unfold refillIfBare at hbare
    split at hbare
    · next hmore =>
      obtain ⟨e', heq, -⟩ := refill_error hmore.2 hbare
      exact ⟨e', heq⟩
    · cases hbare
  · by_cases hover : b₁.cursor = b₁.content.size
    · simp only [if_pos hover] at h
      cases h
    · simp only [if_neg hover] at h
      cases h

/-- Where a byte is passed over, it is the one at the cursor. -/
theorem skipByte_position (h : b.skipByte = (.ok true, b')) :
    b'.startOffset = b.cursorOffset + 1 ∧ b'.cursorOffset = b.cursorOffset + 1 := by
  have hcursor : b.openToken.refillIfBare.2.cursorOffset = b.cursorOffset :=
    refillIfBare_cursorOffset (Nat.le_refl _)
  rw [skipByte_eq] at h
  rcases hbare : b.openToken.refillIfBare with ⟨e₁ | _, b₁⟩ <;> rw [hbare] at h hcursor
  · cases h
  · by_cases hover : b₁.cursor = b₁.content.size
    · simp only [if_pos hover] at h
      cases h
    · simp only [if_neg hover, Prod.mk.injEq, true_and] at h
      have hstep : b₁.discarded + (b₁.cursor + 1) = b.cursorOffset + 1 := congrArg (· + 1) hcursor
      subst h
      exact ⟨hstep, hstep⟩

end

end Buffer

open Buffer

/-! ## Walks that fail -/

theorem Buffer.settle_error {b b' : Buffer σ} {e : ScanError} (hb : b.Sound)
    (h : b.settle = (.error e, b')) : (∃ offset, e = .noMatch offset) ∧ b'.walked = 0 := by
  unfold settle at h
  cases hrule : b.matchedRule with
  | some rule =>
    rw [hrule] at h
    cases h
  | none =>
    rw [hrule] at h
    cases h
    refine ⟨⟨_, rfl⟩, ?_⟩
    show b.lastMatchEnd - b.start = 0
    rw [hb.unmatched hrule, Nat.sub_self]

namespace Table

variable {t : Table} {s s' : Nat} {b b' : Buffer σ} {e : ScanError}

/-- A walk that fails has found no rule, and is taken back to the start of its token. -/
theorem walk_error (hb : b.Sound) (h : t.walk s b = (.error e, b')) :
    (∃ offset, e = .noMatch offset) ∧ b'.walked = 0 := by
  fun_induction Table.walk t s b with
  | case1 s b c hc s' hs ih => exact ih (hb.advance.enter _) h
  | case2 s b c hc hs => exact settle_error hb h
  | case3 s b hc hend s' hs => exact settle_error (hb.enter _) h
  | case4 s b hc hend hs => exact settle_error hb h
  | case5 s b hc hend => cases h

/-- A walk that is suspended has passed all bytes at hand. -/
theorem walk_suspended_walked (hb : b.Sound) (h : t.walk s b = (.ok (.suspended s'), b')) :
    b'.walked = b.walked + b.ahead.length := by
  have hend : b.atEnd = false := by
    have hatEnd := (t.walk_source s b).2
    rw [h] at hatEnd
    exact hatEnd.symm.trans (atEnd_of_suspended h)
  rw [walk_eq, hend, if_neg (by decide)] at h
  cases hafter : t.after? s b.ahead with
  | none =>
    rw [hafter] at h
    exact absurd (congrArg Prod.fst h) (settle_ne_suspended _)
  | some s₁ =>
    rw [hafter] at h
    cases h
    exact pass_record_walked hb _ _

/-- A walk with its refills fails because no rule matches, back at the start of the token, or
because the source fails, behind all bytes that were at hand. -/
theorem Drives.error [Supply σ] {n : Nat} {d : Drive σ} (h : t.Drives s b n d) (hb : b.Sound)
    (hr : d.result = .error e) :
    ((∃ offset, e = .noMatch offset) ∧ d.buffer.walked = 0) ∨
      (∃ e', e = .source e') ∧ b.walked + b.ahead.length ≤ d.buffer.walked := by
  induction h with
  | @settled s b b' result hw =>
    subst hr
    exact .inl (walk_error hb hw)
  | @failed s s' b b' b'' e' hw hrefill =>
    cases hr
    have hwalked := b'.refill_walked
    rw [hrefill, walk_suspended_walked hb hw] at hwalked
    obtain ⟨e', heq, -⟩ := refill_error (atEnd_of_suspended hw) hrefill
    exact .inr ⟨⟨e', heq⟩, Nat.le_of_eq hwalked.symm⟩
  | @again s s' n b b' b'' d hw hrefill hrest ih =>
    have hsound := (hb.of_walk hw).of_refill hrefill
    have hwalked := b'.refill_walked
    rw [hrefill, walk_suspended_walked hb hw] at hwalked
    refine (ih hsound hr).imp id fun ⟨hsource, hle⟩ => ⟨hsource, ?_⟩
    exact Nat.le_trans (Nat.le_of_eq hwalked.symm) (Nat.le_trans (Nat.le_add_right _ _) hle)

end Table

/-! ## Calls that fail -/

/-- What a call was at when it failed. -/
inductive Stage where
  /-- Passing over the byte that no rule matched in the call before. -/
  | skipping
  /-- Waiting for the first byte of the token. -/
  | waiting
  /-- Waiting for more of the token, in the middle of a walk. -/
  | walking
  /-- At the end of a walk that has found no rule. -/
  | unmatched
  deriving DecidableEq, Repr

namespace Scanner

/-- The buffer from which the next call searches for a token. -/
inductive SearchesFrom [Supply σ] (sc : Scanner σ) : Buffer σ → Prop
  | here (hskip : sc.skipFirst = false) : SearchesFrom sc sc.buffer
  | behind {found : Bool} {b : Buffer σ} (hskip : sc.skipFirst = true)
      (hb : sc.buffer.skipByte = (.ok found, b)) : SearchesFrom sc b

/-- The next call fails in a stage with an error, and leaves this buffer. -/
inductive FailsAt [Supply σ] (sc : Scanner σ) : Stage → ScanError → Buffer σ → Prop
  | skipping {e : SourceError} {b : Buffer σ} (hskip : sc.skipFirst = true)
      (hb : sc.buffer.skipByte = (.error (.source e), b)) : FailsAt sc .skipping (.source e) b
  | waiting {e : SourceError} {b b' : Buffer σ} {n : Nat} (hfrom : sc.SearchesFrom b)
      (hf : b.openToken.Fills n (.error (.source e), b')) : FailsAt sc .waiting (.source e) b'
  | walking {e : SourceError} {b b' : Buffer σ} {n k : Nat} {d : Drive σ}
      (hfrom : sc.SearchesFrom b) (hf : b.openToken.Fills n (.ok (), b'))
      (hdone : b'.isDone = false) (hd : sc.table.Drives sc.config.initialState b' k d)
      (hr : d.result = .error (.source e)) : FailsAt sc .walking (.source e) d.buffer
  | unmatched {offset : Nat} {b b' : Buffer σ} {n k : Nat} {d : Drive σ}
      (hfrom : sc.SearchesFrom b) (hf : b.openToken.Fills n (.ok (), b'))
      (hdone : b'.isDone = false) (hd : sc.table.Drives sc.config.initialState b' k d)
      (hr : d.result = .error (.noMatch offset)) :
      FailsAt sc .unmatched (.noMatch offset) d.buffer

section
variable [Supply σ] {sc last : Scanner σ} {stage : Stage} {e : ScanError}

theorem SearchesFrom.sound {b : Buffer σ} (h : sc.SearchesFrom b) (hb : sc.buffer.Sound) :
    b.Sound := by
  cases h with
  | here => exact hb
  | behind _ hs => exact hb.of_skipByte hs

theorem SearchesFrom.failsAt {b : Buffer σ} (h : sc.SearchesFrom b) (hb : sc.buffer.Sound)
    {n : Nat} {a : Attempt σ} (ha : sc.table.Attempts sc.config.initialState b n a)
    (he : a.result = .error e) : ∃ stage, sc.FailsAt stage e a.buffer := by
  have hopen : b.openToken.Sound := .of_openToken (h.sound hb).cursor_le
  cases ha with
  | failed hf =>
    cases he
    obtain ⟨e', rfl⟩ := hf.error rfl
    exact ⟨.waiting, .waiting h hf⟩
  | ended => cases he
  | @walked b' n k d hf hdone hd =>
    rw [Drive.toAttempt_buffer]
    have hr : d.result = .error e := by
      cases hresult : d.result with
      | ok rule => simp [Drive.toAttempt, hresult] at he
      | error e' =>
        rw [Drive.toAttempt_result hresult] at he
        cases he
        rfl
    rcases hd.error (hf.sound hopen) hr with ⟨⟨offset, rfl⟩, -⟩ | ⟨⟨e', rfl⟩, -⟩
    · exact ⟨.unmatched, .unmatched h hf hdone hd hr⟩
    · exact ⟨.walking, .walking h hf hdone hd hr⟩

/-- Every call that fails does so in one of the stages. -/
theorem Returns.failsAt {n : Nat} {step : Except ScanError (Option Token) × Scanner σ}
    (h : sc.Returns n step) (hb : sc.buffer.Sound) (he : step.1 = .error e) :
    ∃ stage, sc.FailsAt stage e step.2.buffer := by
  cases h with
  | finished => cases he
  | searched _ hskip ha =>
    rw [conclude_fst] at he
    rw [conclude_buffer]
    exact SearchesFrom.failsAt (.here hskip) hb ha he
  | stopped _ hskip hs =>
    cases he
    obtain ⟨⟨e', rfl⟩, -⟩ := skipByte_error hs
    exact ⟨.skipping, .skipping hskip hs⟩
  | resumed _ hskip hs ha =>
    rw [conclude_fst] at he
    rw [conclude_buffer]
    exact SearchesFrom.failsAt (.behind hskip hs) hb ha he

theorem ahead_ne_nil_of_fills {b b' : Buffer σ} {n : Nat} (hf : b.Fills n (.ok (), b'))
    (hb : b.Sound) (hdone : b'.isDone = false) : b'.ahead ≠ [] := by
  have hsound : b'.Sound := hf.sound hb
  cases hpeek : b'.peek with
  | some c => exact peek_isSome_iff.1 (by rw [hpeek]; rfl)
  | none =>
    have hready := hf.ready_or_over rfl
    have hend : b'.atEnd = true := by
      cases hend : b'.atEnd with
      | true => rfl
      | false => exact absurd ⟨hpeek, hend⟩ hready
    have hcursor := (peek_eq_none_iff hsound.cursor_le).1 hpeek
    simp [isDone, hend, hcursor] at hdone

/-- Bytes of the token are behind the cursor exactly if the call failed in the middle of a walk. -/
theorem FailsAt.walked_eq_zero_iff {b : Buffer σ} (h : sc.FailsAt stage e b)
    (hb : sc.buffer.Sound) : b.walked = 0 ↔ stage ≠ .walking := by
  cases h with
  | skipping _ hs => exact iff_of_true (skipByte_error hs).2 nofun
  | waiting _ hf => exact iff_of_true (hf.walked.trans (openToken_walked _)) nofun
  | @walking e b b' n k d hfrom hf hdone hd hr =>
    have hopen : b.openToken.Sound := .of_openToken (hfrom.sound hb).cursor_le
    have hahead := List.length_pos_iff.2 (ahead_ne_nil_of_fills hf hopen hdone)
    refine iff_of_false (fun hzero => ?_) (fun hne => hne rfl)
    rcases hd.error (hf.sound hopen) hr with ⟨⟨offset, heq⟩, -⟩ | ⟨-, hle⟩
    · cases heq
    · omega
  | @unmatched offset b b' n k d hfrom hf hdone hd hr =>
    have hopen : b.openToken.Sound := .of_openToken (hfrom.sound hb).cursor_le
    refine iff_of_true ?_ nofun
    rcases hd.error (hf.sound hopen) hr with ⟨-, hzero⟩ | ⟨⟨e', heq⟩, -⟩
    · exact hzero
    · cases heq

end

theorem Answers.skipByte_eq [Supply σ] {sc sc' : Scanner σ} {result : Except ScanError Bool}
    (h : sc.Answers .resync (.resync result) sc') : sc.buffer.skipByte = (result, sc'.buffer) := by
  generalize hreply : Reply.resync result = reply at h
  cases h
  cases hreply
  rfl

/-- **What is lost when a failed scan is taken up again.** In every session of requests, on every
supply, a call that fails does so in one of the stages. If `resync` passes over a byte then, the
bytes of the token that have been read so far are gone with it. These are none, so that the scan goes
on one byte behind the start of the failed token, exactly if the call has not failed in the middle
of a walk. -/
theorem resync_one_byte_iff (t : Table) (config : Config) (hstate : config.initialState < t.size)
    {σ : Type} [Supply σ] {b : Buffer σ} (hb : b.Sound) :
    ∃ sc, Scanner.new t b config = .ok sc ∧
      ∀ requests errors sc', sc.Session requests errors sc' →
        ∀ n e last, sc'.Returns n (.error e, last) →
          (∃ stage, sc'.FailsAt stage e last.buffer) ∧
          ∀ stage, sc'.FailsAt stage e last.buffer →
            ∀ after, last.Answers .resync (.resync (.ok true)) after →
              after.buffer.startOffset =
                last.buffer.startOffset + last.buffer.lexeme.length + 1 ∧
              after.buffer.cursorOffset = after.buffer.startOffset ∧
              (after.buffer.startOffset = last.buffer.startOffset + 1 ↔ stage ≠ .walking) := by
  refine ⟨_, new_eq hstate b, fun requests errors sc' hsession n e last hreturns => ?_⟩
  have hsound : sc'.buffer.Sound := hsession.sound hb
  have hlast : last.buffer.Sound := hreturns.sound hsound
  refine ⟨hreturns.failsAt hsound rfl, fun stage hfails after hanswers => ?_⟩
  have hiff := hfails.walked_eq_zero_iff hsound
  have hlexeme : last.buffer.lexeme.length = last.buffer.walked := by
    rw [lexeme_eq_take, List.length_take, Nat.min_eq_left hlast.walked_le]
  obtain ⟨hstart, hcursor⟩ := skipByte_position hanswers.skipByte_eq
  rw [hlast.cursorOffset_eq] at hstart hcursor
  refine ⟨by rw [hstart, hlexeme], hcursor.trans hstart.symm, ?_⟩
  rw [← hiff, hstart]
  omega

/-- Where the source fails before it has delivered anything, `resync` passes over the first byte
that comes and over no more. -/
theorem resync_one_byte_iff_waiting :
    let source := Feed.mk [⟨[], .error ⟨"lost"⟩⟩, .counted [0]] false
    0 < Table.backingOff.size ∧ (Buffer.ofSource source).Sound ∧
      ∃ sc last after, Scanner.new Table.backingOff (.ofSource source) {} = .ok sc ∧
        sc.Returns 1 (.error (.source ⟨"lost"⟩), last) ∧
        sc.FailsAt .waiting (.source ⟨"lost"⟩) last.buffer ∧
        last.Answers .resync (.resync (.ok true)) after ∧
        after.buffer.startOffset = last.buffer.startOffset + 1 := by
  intro source
  have hstate : 0 < Table.backingOff.size := by decide
  have hb : (Buffer.ofSource source).Sound := sound_ofSource source
  obtain ⟨sc, hnew, hall⟩ := resync_one_byte_iff Table.backingOff {} hstate hb
  cases hnew
  let failed : Buffer Feed := (Buffer.ofSource source).openToken.refill.2
  let sc : Scanner Feed := { table := Table.backingOff, buffer := .ofSource source, config := {} }
  let last : Scanner Feed := { sc with buffer := failed, finished := true }
  have hfill : sc.buffer.openToken.Fills 1 (.error (.source ⟨"lost"⟩), failed) :=
    .failed ⟨rfl, rfl⟩ rfl
  have hconclude : sc.conclude ⟨.error (.source ⟨"lost"⟩), [], failed⟩ =
      (.error (.source ⟨"lost"⟩), last) := rfl
  have hreturns : sc.Returns 1 (.error (.source ⟨"lost"⟩), last) :=
    hconclude ▸ .searched rfl rfl (.failed hfill)
  have hfails : sc.FailsAt .waiting (.source ⟨"lost"⟩) last.buffer := .waiting (.here rfl) hfill
  have hanswers : last.Answers .resync (.resync (.ok true)) _ := .resync
  obtain ⟨-, hstages⟩ := hall [] [] sc .nil 1 _ last hreturns
  obtain ⟨-, -, hiff⟩ := hstages .waiting hfails _ hanswers
  exact ⟨hstate, hb, sc, last, _, new_eq hstate _, hreturns, hfails, hanswers, hiff.2 nofun⟩

/-- Where the source fails behind the first byte of a token, that byte is gone with the one that
`resync` passes over, though it was part of no token: the scan goes on at 2 instead of 1. -/
theorem resync_loses_walked_byte :
    ∃ sc last after, Scanner.new Table.backingOff
        (.ofSource (Feed.mk [.counted [0], ⟨[], .error ⟨"lost"⟩⟩, .counted [0]] false)) {} =
          .ok sc ∧
      sc.next = (.error (.source ⟨"lost"⟩), last) ∧ last.buffer.startOffset = 0 ∧
      last.resync = (.ok true, after) ∧ after.buffer.startOffset = 2 ∧
      after.buffer.cursorOffset = 2 := by
  have hfill : (Buffer.ofSource (Feed.mk [.counted [0], ⟨[], .error ⟨"lost"⟩⟩, .counted [0]]
        false)).openToken.Fills 1
      (.ok (), { content := #[0], source := ⟨[⟨[], .error ⟨"lost"⟩⟩, .counted [0]], false⟩ }) :=
    .again (by decide) rfl (.ready (by decide))
  have hwalk : Table.backingOff.walk 0
      { content := #[0], source := Feed.mk [⟨[], .error ⟨"lost"⟩⟩, .counted [0]] false } =
      (.ok (.suspended 1),
        { content := #[0], cursor := 1, lastMatchEnd := 1, matchedRule := some 7
          source := ⟨[⟨[], .error ⟨"lost"⟩⟩, .counted [0]], false⟩ }) :=
    (Table.walk_eq _ _ _).trans rfl
  have hreturns : Returns
      { table := Table.backingOff, buffer := .ofSource _, config := {} } 2
      (conclude { table := Table.backingOff, buffer := .ofSource _, config := {} } _) :=
    .searched rfl rfl (.walked hfill rfl (.failed hwalk rfl))
  exact ⟨_, _, _, new_eq (by decide) _, returns_iff.1 ⟨2, hreturns⟩, rfl, rfl, rfl, rfl⟩

end Scanner

end CombLexer
