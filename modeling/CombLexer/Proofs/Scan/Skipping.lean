/-
Passing over a byte.

A supply is honest if each report counts what was appended and a report of 0 is
the last word (`Honest`). What it appends is then a stream, and a buffer that was
fed by it stands somewhere in that stream (`Follows`), whatever was done to it
(`Follows.run`). `Skips` says what passing over a byte comes to there: the answer
is whether the stream has a byte at the cursor, at hand or still to come, unless
the one refill that is asked for fails. One refill is enough because an honest
report other than 0 has brought a byte.
-/
import CombLexer.Proofs.Scan.EndOfInput
import CombLexer.Proofs.Scan.Recovering

namespace CombLexer

variable {σ : Type}

/-! ## Honest supplies -/

/-- What has become of a supply that was asked so many times. -/
def Supply.after [Supply σ] : Nat → σ → σ
  | 0, s => s
  | n + 1, s => after n (Supply.refill s).2

/-- All that it has appended by then. -/
def Supply.drawn [Supply σ] : Nat → σ → Bytes
  | 0, _ => []
  | n + 1, s => (Supply.refill s).1.appended ++ drawn n (Supply.refill s).2

open Supply

/-- Reports count what was appended, and nothing comes behind a report of 0. What is appended to a
failure is not counted. -/
structure Honest [Supply σ] (s : σ) : Prop where
  counts : ∀ n k, (refill (after n s)).1.report = .ok k → (refill (after n s)).1.appended.length = k
  ends : ∀ n, (refill (after n s)).1.report = .ok 0 → ∀ m, drawn m (after (n + 1) s) = []

section
variable [Supply σ] {s : σ}

theorem after_add (m n : Nat) (s : σ) : after (m + n) s = after n (after m s) := by
  induction m generalizing s with
  | zero => rw [Nat.zero_add]; rfl
  | succ m ih => rw [Nat.succ_add]; exact ih _

theorem drawn_add (m n : Nat) (s : σ) : drawn (m + n) s = drawn m s ++ drawn n (after m s) := by
  induction m generalizing s with
  | zero => rw [Nat.zero_add]; rfl
  | succ m ih =>
    rw [Nat.succ_add]
    exact (congrArg (_ ++ ·) (ih _)).trans (List.append_assoc ..).symm

theorem after_succ (n : Nat) (s : σ) : after (n + 1) s = (refill (after n s)).2 :=
  after_add n 1 s

/-- What is left of an honest supply is honest. -/
theorem Honest.after (h : Honest s) (m : Nat) : Honest (after m s) := by
  constructor
  · intro n k hk
    rw [← after_add] at hk ⊢
    exact h.counts (m + n) k hk
  · intro n hover j
    rw [← after_add] at hover ⊢
    exact h.ends (m + n) hover j

theorem Honest.length_appended (h : Honest s) {k : Nat} (hk : (refill s).1.report = .ok k) :
    (refill s).1.appended.length = k :=
  h.counts 0 k hk

theorem Honest.drawn_of_over (h : Honest s) (hover : (refill s).1.report = .ok 0) (m : Nat) :
    drawn m (refill s).2 = [] :=
  h.ends 0 hover m

theorem drawn_of_nothing (h : refill s = (.nothing, s)) (m : Nat) : drawn m s = [] := by
  induction m with
  | zero => rfl
  | succ m ih =>
    show (refill s).1.appended ++ drawn m (refill s).2 = []
    rw [h]
    exact ih

/-- A kind of supply that keeps to the end it has reported is honest where its reports count, now
and later. -/
theorem honest_of_staysOver (counted : σ → Prop) (hover : StaysOver σ)
    (hcounts : ∀ s k, counted s → (refill s).1.report = .ok k → (refill s).1.appended.length = k)
    (hstep : ∀ s, counted s → counted (refill s).2) (h : counted s) : Honest s := by
  have hafter (n : Nat) : counted (after n s) := by
    induction n with
    | zero => exact h
    | succ n ih => exact after_succ n s ▸ hstep _ ih
  refine ⟨fun n k hk => hcounts _ k (hafter n) hk, fun n hzero => ?_⟩
  rw [after_succ]
  exact drawn_of_nothing (hover _ hzero)

end

theorem Exhausted.honest (s : Exhausted) : Honest s :=
  honest_of_staysOver (fun _ => True) Exhausted.staysOver
    (fun _ _ _ hk => Except.ok.inj hk) (fun _ _ => trivial) trivial

theorem Chunks.honest (s : Chunks) : Honest s := by
  refine honest_of_staysOver (fun _ => True) Chunks.staysOver (fun s k _ hk => ?_)
    (fun _ _ => trivial) trivial
  have hk : (deliver s.pieces).1.report = .ok k := hk
  show (deliver s.pieces).1.appended.length = k
  generalize s.pieces = pieces at hk ⊢
  fun_induction deliver pieces with
  | case1 => exact Except.ok.inj hk
  | case2 rest ih => exact ih hk
  | case3 piece rest hne => exact Except.ok.inj hk

theorem Reader.honest (r : Reader) : Honest r := by
  refine honest_of_staysOver (fun _ => True) Reader.staysOver (fun r k _ hk => ?_)
    (fun _ _ => trivial) trivial
  have hk : (deliver r).1.report = .ok k := hk
  show (deliver r).1.appended.length = k
  unfold deliver at hk ⊢
  by_cases hdone : r.done = true
  · rw [if_pos hdone] at hk ⊢
    exact Except.ok.inj hk
  · rw [if_neg hdone] at hk ⊢
    rcases hread : read r.chunkSize r.script with ⟨e | bytes, script⟩
    · rw [hread] at hk
      cases hk
    · rw [hread] at hk
      exact Except.ok.inj hk

/-- A script of deliveries is honest if the reports in it count. -/
theorem Feed.honest (f : Feed)
    (h : ∀ d ∈ f.script, ∀ k, d.report = .ok k → d.appended.length = k) : Honest f := by
  have hdeliver (f : Feed) : (deliver f).1 = .nothing ∧ (deliver f).2.script = f.script ∨
      ∃ d rest, f.script = d :: rest ∧ (deliver f).1 = d ∧ (deliver f).2.script = rest := by
    unfold deliver
    by_cases hdone : f.done = true
    · exact .inl (by simp [hdone])
    · rw [if_neg hdone]
      cases hscript : f.script with
      | nil => exact .inl ⟨rfl, rfl⟩
      | cons d rest => exact .inr ⟨d, rest, rfl, rfl, rfl⟩
  refine honest_of_staysOver
    (fun f => ∀ d ∈ f.script, ∀ k, d.report = .ok k → d.appended.length = k)
    Feed.staysOver (fun f k h hk => ?_) (fun f h => ?_) h
  · show (deliver f).1.appended.length = k
    have hk : (deliver f).1.report = .ok k := hk
    rcases hdeliver f with ⟨hnone, -⟩ | ⟨d, rest, hscript, hd, -⟩
    · rw [hnone] at hk ⊢
      exact Except.ok.inj hk
    · rw [hd] at hk ⊢
      exact h d (hscript ▸ List.mem_cons_self) k hk
  · show ∀ d ∈ (deliver f).2.script, _
    rcases hdeliver f with ⟨-, hsame⟩ | ⟨d, rest, hscript, -, hrest⟩
    · rw [hsame]
      exact h
    · rw [hrest]
      exact fun d' hd' => h d' (hscript ▸ List.mem_cons_of_mem _ hd')

/-! ## A buffer in the stream -/

namespace Buffer

open Supply (after drawn)

variable [Supply σ] {b b' : Buffer σ}

/-- Doing one thing to a buffer asks its source once at most, and only a report of 0 is the end. -/
inductive Asks (b b' : Buffer σ) : Prop
  | never (hsource : b'.source = b.source) (hatEnd : b'.atEnd = b.atEnd)
  | once (hend : b.atEnd = false) (hsource : b'.source = (Supply.refill b.source).2)
      (hatEnd : b'.atEnd = true ↔ (Supply.refill b.source).1.report = .ok 0)

theorem asks_refill (b : Buffer σ) : b.Asks b.refill.2 := by
  cases hend : b.atEnd with
  | true =>
    rw [refill_of_atEnd hend]
    exact .never rfl rfl
  | false => exact .once hend (refill_source hend) (refill_atEnd_iff hend)

/-- Once a byte has been asked for, passing over it leaves the source alone. -/
theorem skipByte_source (b : Buffer σ) :
    b.skipByte.2.source = b.openToken.refillIfBare.2.source ∧
      b.skipByte.2.atEnd = b.openToken.refillIfBare.2.atEnd := by
  rw [skipByte_eq]
  rcases b.openToken.refillIfBare with ⟨_ | _, b'⟩
  · exact ⟨rfl, rfl⟩
  · by_cases hover : b'.cursor = b'.content.size
    · simp only [if_pos hover, and_self]
    · simp only [if_neg hover]
      exact ⟨rfl, rfl⟩

theorem asks_skipByte (b : Buffer σ) : b.Asks b.skipByte.2 := by
  obtain ⟨hsource, hatEnd⟩ := b.skipByte_source
  unfold refillIfBare at hsource hatEnd
  split at hsource
  · next hbare =>
    rw [if_pos hbare] at hatEnd
    refine .once hbare.2 (hsource.trans (refill_source hbare.2)) ?_
    rw [hatEnd]
    exact refill_atEnd_iff hbare.2
  · next hbare =>
    rw [if_neg hbare] at hatEnd
    exact .never hsource hatEnd

theorem asks_apply (b : Buffer σ) (op : Op) : b.Asks (b.apply op) := by
  cases op with
  | advance => exact .never b.advance_source b.advance_atEnd
  | markMatch rule => exact .never rfl rfl
  | openToken => exact .never rfl rfl
  | clear => exact .never rfl rfl
  | refill => exact b.asks_refill
  | skipByte => exact b.asks_skipByte
  | step t s =>
    show b.Asks (b.stepped t s)
    rw [stepped_eq]
    split
    · exact .never (t.walk_source s b).1 (t.walk_source s b).2
    · exact .never rfl rfl

/-- The source of a buffer has been asked so many times, and if it is at its end it has nothing more
to give. -/
structure Follows (s : σ) (n : Nat) (b : Buffer σ) : Prop where
  source : b.source = after n s
  dry : b.atEnd = true → ∀ m, drawn m (after n s) = []

theorem Follows.asks {s : σ} {n : Nat} (h : b.Follows s n) (hs : Honest s) (hasks : b.Asks b') :
    ∃ n', b'.Follows s n' := by
  cases hasks with
  | never hsource hatEnd => exact ⟨n, hsource.trans h.source, fun hend => h.dry (hatEnd ▸ hend)⟩
  | once hend hsource hatEnd =>
    rw [h.source] at hsource hatEnd
    exact ⟨n + 1, hsource.trans (after_succ n s).symm, fun hend' => hs.ends n (hatEnd.1 hend')⟩

theorem Follows.run {s : σ} {n : Nat} (h : b.Follows s n) (hs : Honest s) (ops : List Op) :
    ∃ n', (b.run ops).Follows s n' := by
  induction ops generalizing b n with
  | nil => exact ⟨n, h⟩
  | cons op ops ih =>
    obtain ⟨n', h'⟩ := h.asks hs (b.asks_apply op)
    exact ih h'

/-! ## The ways to pass over a byte -/

/-- Where no byte is at hand, a refill at a new token leaves nothing but what it brings. -/
def fetched (b : Buffer σ) : Buffer σ where
  content := (Supply.refill b.source).1.appended.toArray
  atEnd := match (Supply.refill b.source).1.report with
    | .ok n => n == 0
    | .error _ => false
  discarded := b.cursorOffset
  source := (Supply.refill b.source).2

/-- How a byte is passed over, on any supply: there is one at hand; the input is known to be over;
or a refill fails, brings nothing or brings something. -/
inductive Passes (b : Buffer σ) : Except ScanError Bool × Buffer σ → Prop
  | ready (h : b.cursor < b.content.size) :
      Passes b (.ok true, { b with cursor := b.cursor + 1 }.openToken)
  | closed (hcursor : b.cursor = b.content.size) (hend : b.atEnd = true) :
      Passes b (.ok false, b.openToken)
  | failed {e : SourceError} (hcursor : b.cursor = b.content.size) (hend : b.atEnd = false)
      (h : (Supply.refill b.source).1.report = .error e) :
      Passes b (.error (.source e), b.fetched)
  | ended {n : Nat} (hcursor : b.cursor = b.content.size) (hend : b.atEnd = false)
      (h : (Supply.refill b.source).1.report = .ok n)
      (hnone : (Supply.refill b.source).1.appended = []) : Passes b (.ok false, b.fetched)
  | brought {n : Nat} (hcursor : b.cursor = b.content.size) (hend : b.atEnd = false)
      (h : (Supply.refill b.source).1.report = .ok n)
      (hsome : (Supply.refill b.source).1.appended ≠ []) :
      Passes b (.ok true, { b.fetched with cursor := 1 }.openToken)

theorem refillIfBare_openToken (hcursor : b.cursor = b.content.size) (hend : b.atEnd = false) :
    b.openToken.refillIfBare =
      (((Supply.refill b.source).1.report.map fun _ => ()).mapError .source, b.fetched) := by
  have hcompact : b.openToken.compact =
      { content := #[], discarded := b.cursorOffset, source := b.source } := by
    rw [compact_eq]
    simp [openToken, cursorOffset, hcursor, hend]
  have hasked : b.openToken.refillIfBare = b.openToken.refill := if_pos ⟨hcursor, hend⟩
  rw [hasked, refill_of_more (b := b.openToken) hend, hcompact]
  unfold fetched accept
  simp only [openToken]
  cases (Supply.refill b.source).1.report with
  | error e => simp [Except.map, Except.mapError]
  | ok n => by_cases hn : n = 0 <;> simp [hn, Except.map, Except.mapError]

theorem passes_skipByte (hb : b.cursor ≤ b.content.size) : b.Passes b.skipByte := by
  rw [skipByte_eq]
  rcases Nat.lt_or_eq_of_le hb with hlt | hcursor
  · have hasked : b.openToken.refillIfBare = (.ok (), b.openToken) :=
      if_neg fun hbare => Nat.ne_of_lt hlt hbare.1
    have hstep := Passes.ready hlt
    rw [hasked]
    simp only [if_neg (show ¬ b.openToken.cursor = b.openToken.content.size from Nat.ne_of_lt hlt)]
    exact hstep
  · cases hend : b.atEnd with
    | true =>
      have hasked : b.openToken.refillIfBare = (.ok (), b.openToken) :=
        if_neg fun hbare => Bool.noConfusion (hend.symm.trans hbare.2)
      rw [hasked]
      simp only [if_pos (show b.openToken.cursor = b.openToken.content.size from hcursor)]
      exact .closed hcursor hend
    | false =>
      rw [refillIfBare_openToken hcursor hend]
      cases hreport : (Supply.refill b.source).1.report with
      | error e => exact .failed hcursor hend hreport
      | ok n =>
        show b.Passes (if b.fetched.cursor = b.fetched.content.size then _ else _)
        by_cases hnone : (Supply.refill b.source).1.appended = []
        · have hsize : b.fetched.cursor = b.fetched.content.size := by simp [fetched, hnone]
          rw [if_pos hsize]
          exact .ended hcursor hend hreport hnone
        · have hsize : b.fetched.cursor ≠ b.fetched.content.size := fun hsize =>
            hnone (List.eq_nil_of_length_eq_zero hsize.symm)
          rw [if_neg hsize]
          exact .brought hcursor hend hreport hnone

section
variable {step : Except ScanError Bool × Buffer σ} (h : b.Passes step)
include h

theorem Passes.fresh : step.2.start = step.2.cursor ∧ step.2.lastMatchEnd = step.2.cursor := by
  cases h <;> exact ⟨rfl, rfl⟩

theorem Passes.unmatched : step.2.matchedRule = none := by
  cases h <;> rfl

/-- The cursor goes on by one byte or keeps its place in the stream. -/
theorem Passes.cursorOffset_eq :
    step.2.cursorOffset = b.cursorOffset + if step.1 = .ok true then 1 else 0 := by
  cases h with
  | ready => rfl
  | closed => rfl
  | failed => rfl
  | ended => rfl
  | brought => rfl

end

/-! ## Whether there is a byte -/

/-- The stream goes on at the cursor with a byte that is at hand or still to come. -/
def Continues (b : Buffer σ) : Prop := b.cursor < b.content.size ∨ ∃ m, drawn m b.source ≠ []

/-- The refill that is needed to pass over a byte, if one is, does not fail. -/
def Hears (b : Buffer σ) : Prop :=
  b.cursor = b.content.size → b.atEnd = false → ∃ n, (Supply.refill b.source).1.report = .ok n

theorem not_continues (hcursor : b.cursor = b.content.size) (hdry : ∀ m, drawn m b.source = []) :
    ¬ b.Continues := by
  rintro (hlt | ⟨m, hm⟩)
  · exact Nat.ne_of_lt hlt hcursor
  · exact hm (hdry m)

/-- Passing over a byte finds one, or the end of the stream, or fails with the refill it needs. -/
theorem Passes.answer {step : Except ScanError Bool × Buffer σ} (h : b.Passes step)
    (hs : Honest b.source) (hover : b.atEnd = true → ∀ m, drawn m b.source = []) :
    (step.1 = .ok true ∧ b.Continues ∧ b.Hears) ∨
      (step.1 = .ok false ∧ ¬ b.Continues ∧ b.Hears ∧ step.2.isDone = true) ∨
      ∃ cause, step.1 = .error (.source cause) ∧ b.cursor = b.content.size ∧ b.atEnd = false ∧
        (Supply.refill b.source).1.report = .error cause := by
  cases h with
  | ready hlt =>
    exact .inl ⟨rfl, .inl hlt, fun hcursor => absurd hcursor (Nat.ne_of_lt hlt)⟩
  | closed hcursor hend =>
    refine .inr (.inl ⟨rfl, not_continues hcursor (hover hend), fun _ hmore => ?_, ?_⟩)
    · rw [hend] at hmore
      cases hmore
    · show (b.atEnd && b.cursor == b.content.size) = true
      simp [hcursor, hend]
  | failed hcursor hend h => exact .inr (.inr ⟨_, rfl, hcursor, hend, h⟩)
  | ended hcursor hend h hnone =>
    -- A report that counts says 0 here, and that is the last word.
    have hzero := hs.length_appended h
    rw [hnone] at hzero
    subst hzero
    have hdry (m : Nat) : drawn m b.source = [] := by
      cases m with
      | zero => rfl
      | succ m =>
        show (Supply.refill b.source).1.appended ++ drawn m (Supply.refill b.source).2 = []
        rw [hnone, hs.drawn_of_over h]
        rfl
    refine .inr (.inl ⟨rfl, not_continues hcursor hdry, fun _ _ => ⟨_, h⟩, ?_⟩)
    simp [isDone, fetched, h, hnone]
  | brought hcursor hend h hsome =>
    refine .inl ⟨rfl, .inr ⟨1, ?_⟩, fun _ _ => ⟨_, h⟩⟩
    exact fun hnone => hsome (List.append_eq_nil_iff.1 hnone).1

theorem Hears.not_failed (h : b.Hears) (hcursor : b.cursor = b.content.size)
    (hend : b.atEnd = false) (cause : SourceError) :
    (Supply.refill b.source).1.report ≠ .error cause := by
  intro hcause
  obtain ⟨n, hn⟩ := h hcursor hend
  rw [hcause] at hn
  cases hn

/-- The answer says whether there is a byte, unless the refill that is needed fails. -/
theorem Passes.verdict {step : Except ScanError Bool × Buffer σ} (h : b.Passes step)
    (hs : Honest b.source) (hover : b.atEnd = true → ∀ m, drawn m b.source = []) :
    (step.1 = .ok true ↔ b.Continues ∧ b.Hears) ∧
      (step.1 = .ok false ↔ ¬ b.Continues ∧ b.Hears) ∧
      (∀ e, step.1 = .error e ↔ b.cursor = b.content.size ∧ b.atEnd = false ∧
        ∃ cause, (Supply.refill b.source).1.report = .error cause ∧ e = .source cause) ∧
      (step.1 = .ok false → step.2.isDone = true) := by
  have hheard (hhears : b.Hears) (e : ScanError) : ¬ (b.cursor = b.content.size ∧
      b.atEnd = false ∧ ∃ cause, (Supply.refill b.source).1.report = .error cause ∧
        e = .source cause) := by
    intro hfails
    obtain ⟨hcursor, hend, cause, hcause, -⟩ := hfails
    exact hhears.not_failed hcursor hend cause hcause
  rcases h.answer hs hover with ⟨hans, hmore, hhears⟩ | ⟨hans, hmore, hhears, hdone⟩ |
    ⟨cause, hans, hcursor, hend, hcause⟩
  · simp [hans, hmore, hhears, hheard hhears]
  · simp [hans, hmore, hhears, hheard hhears, hdone]
  · have hdeaf : ¬ b.Hears := fun hhears => hhears.not_failed hcursor hend cause hcause
    refine ⟨by simp [hans, hdeaf], by simp [hans, hdeaf], fun e => ?_, by simp [hans]⟩
    simp [hans, hcause, hcursor, hend, eq_comm]

end Buffer

/-! ## Counting refills -/

/-- A supply that counts how often it is asked. -/
structure Counter (σ : Type) where
  source : σ
  asked : Nat

instance [Supply σ] : Supply (Counter σ) where
  refill c := ((Supply.refill c.source).1, ⟨(Supply.refill c.source).2, c.asked + 1⟩)

namespace Buffer

open Supply (after drawn)

variable [Supply σ] {b b' : Buffer σ}

/-- The buffer on a counter of its source that has not been asked yet. -/
def counting (b : Buffer σ) : Buffer (Counter σ) := b.mapSource (⟨·, 0⟩)

/-- A counter makes no difference to what passing over a byte comes to. -/
theorem counting_skipByte (b : Buffer σ) :
    b.skipByte = (b.counting.skipByte.1, b.counting.skipByte.2.mapSource Counter.source) :=
  mapSource_skipByte (f := Counter.source) (fun _ => rfl) b.counting

theorem counting_asked (b : Buffer σ) : b.counting.skipByte.2.source.asked =
    if b.cursor = b.content.size ∧ b.atEnd = false then 1 else 0 := by
  have hasked : b.counting.openToken.refillIfBare =
      if b.cursor = b.content.size ∧ b.atEnd = false then b.counting.openToken.refill
      else (.ok (), b.counting.openToken) := rfl
  rw [(skipByte_source b.counting).1, hasked]
  split
  · next hbare => rw [refill_source (b := b.counting.openToken) hbare.2]; rfl
  · rfl

/-- What passing over a byte comes to, where `more` says whether the stream has a byte at the
cursor. -/
structure Skips (b : Buffer σ) (more : Prop) : Prop where
  passed_iff : b.skipByte.1 = .ok true ↔ more ∧ b.Hears
  over_iff : b.skipByte.1 = .ok false ↔ ¬ more ∧ b.Hears
  /-- It fails with the refill that it needs, and never otherwise. -/
  failed_iff : ∀ e, b.skipByte.1 = .error e ↔ b.cursor = b.content.size ∧ b.atEnd = false ∧
    ∃ cause, (Supply.refill b.source).1.report = .error cause ∧ e = .source cause
  moved : b.skipByte.1 = .ok true → b.skipByte.2.cursorOffset = b.cursorOffset + 1
  stays : b.skipByte.1 ≠ .ok true → b.skipByte.2.cursorOffset = b.cursorOffset
  isDone : b.skipByte.1 = .ok false → b.skipByte.2.isDone = true
  /-- A new token begins at the cursor. -/
  start_eq : b.skipByte.2.start = b.skipByte.2.cursor
  lastMatchEnd_eq : b.skipByte.2.lastMatchEnd = b.skipByte.2.cursor
  unmatched : b.skipByte.2.matchedRule = none
  /-- The source is asked once if no byte is at hand and the end is not known, and not otherwise. -/
  asked : b.counting.skipByte.2.source.asked =
    if b.cursor = b.content.size ∧ b.atEnd = false then 1 else 0
  /-- Counting makes no difference. -/
  counting : b.skipByte = (b.counting.skipByte.1, b.counting.skipByte.2.mapSource Counter.source)

theorem skips_of_honest (hb : b.Sound) (hs : Honest b.source)
    (hover : b.atEnd = true → ∀ m, drawn m b.source = []) : b.Skips b.Continues := by
  have hpass := passes_skipByte hb.cursor_le
  have hmoved (h : b.skipByte.1 = .ok true) : b.skipByte.2.cursorOffset = b.cursorOffset + 1 := by
    rw [hpass.cursorOffset_eq, if_pos h]
  have hstays (h : b.skipByte.1 ≠ .ok true) : b.skipByte.2.cursorOffset = b.cursorOffset := by
    rw [hpass.cursorOffset_eq, if_neg h]
    rfl
  obtain ⟨hpassed, hended, hfailed, hdone⟩ := hpass.verdict hs hover
  exact ⟨hpassed, hended, hfailed, hmoved, hstays, hdone, hpass.fresh.1, hpass.fresh.2,
    hpass.unmatched, b.counting_asked, b.counting_skipByte⟩

/-! ## Every buffer that can be reached -/

/-- At a buffer that holds the last of what its source has appended, the stream goes on exactly if
the source appends more than the cursor has passed. -/
theorem continues_iff {initial : Bytes} {s : σ} {n : Nat} (hb : b.Sound) (hfollows : b.Follows s n)
    (hwindow : b.Window (initial ++ drawn n s)) :
    b.Continues ↔ ∃ m, b.cursorOffset < (initial ++ drawn m s).length := by
  have hlength := hwindow.length_eq
  have hcursor := hb.cursor_le
  unfold Continues cursorOffset
  rw [hfollows.source]
  constructor
  · rintro (hlt | ⟨m, hm⟩)
    · refine ⟨n, ?_⟩
      omega
    · refine ⟨n + m, ?_⟩
      have hpos : 0 < (drawn m (after n s)).length := List.length_pos_iff.2 hm
      rw [drawn_add, ← List.append_assoc, List.length_append]
      omega
  · rintro ⟨m, hm⟩
    by_cases hlt : b.cursor < b.content.size
    · exact .inl hlt
    · -- Everything appended by the first `n` requests lies before the cursor.
      refine .inr ⟨m - n, fun hnone => ?_⟩
      rcases Nat.le_total n m with hle | hle
      · rw [← Nat.add_sub_cancel' hle, drawn_add, hnone, List.append_nil] at hm
        omega
      · have hsplit : drawn n s = drawn m s ++ drawn (n - m) (after m s) := by
          rw [← drawn_add, Nat.add_sub_cancel' hle]
        rw [hsplit, ← List.append_assoc, List.length_append] at hlength
        omega

/-- What a recorder has taken down is what its source has appended. -/
theorem after_recorder (n : Nat) (r : Recorder σ) :
    after n r = ⟨after n r.source, r.taken ++ drawn n r.source⟩ := by
  induction n generalizing r with
  | zero => exact congrArg (Recorder.mk r.source) (List.append_nil _).symm
  | succ n ih =>
    refine (ih _).trans (congrArg (Recorder.mk _) ?_)
    exact List.append_assoc ..

theorem drawn_recorder (n : Nat) (r : Recorder σ) : drawn n r = drawn n r.source := by
  induction n generalizing r with
  | zero => rfl
  | succ n ih => exact congrArg (_ ++ ·) (ih _)

theorem honest_recorder {s : σ} (hs : Honest s) : Honest (⟨s, []⟩ : Recorder σ) := by
  constructor
  · intro n k hk
    rw [after_recorder] at hk ⊢
    exact hs.counts n k hk
  · intro n hzero m
    rw [after_recorder] at hzero ⊢
    rw [drawn_recorder]
    exact hs.ends n hzero m

/-- Whatever is done to a buffer, it holds the last of what its source has appended. -/
theorem Follows.of_run {initial : Bytes} (hb : b.Sound) (hwindow : b.Window initial)
    (hs : Honest b.source) (hover : b.atEnd = true → ∀ m, drawn m b.source = []) (ops : List Op) :
    ∃ n, (b.run ops).Follows b.source n ∧ (b.run ops).Window (initial ++ drawn n b.source) := by
  have hstart : b.recording.Follows (⟨b.source, []⟩ : Recorder σ) 0 :=
    ⟨rfl, fun hend m => (drawn_recorder m _).trans (hover hend m)⟩
  obtain ⟨n, hfollows⟩ := hstart.run (honest_recorder hs) ops
  obtain ⟨hsource, hends⟩ := hfollows
  rw [after_recorder] at hsource hends
  have hforget : b.run ops = (b.recording.run ops).forget :=
    mapSource_run (f := Recorder.source) (fun _ => rfl) b.recording ops
  have hrun := ((recorded_recording hb hwindow).run ops).window
  rw [hsource] at hrun
  refine ⟨n, ⟨?_, fun hend m => ?_⟩, hforget ▸ hrun.mapSource _⟩
  · rw [hforget]
    exact congrArg Recorder.source hsource
  · rw [hforget] at hend
    exact (drawn_recorder m _).symm.trans (hends hend m)

theorem skips_run {initial : Bytes} (hb : b.Sound) (hwindow : b.Window initial)
    (hs : Honest b.source) (hover : b.atEnd = true → ∀ m, drawn m b.source = []) (ops : List Op) :
    (b.run ops).Skips
      (∃ m, (b.run ops).cursorOffset < (initial ++ drawn m b.source).length) := by
  obtain ⟨n, hfollows, hfed⟩ := Follows.of_run hb hwindow hs hover ops
  have hsound : (b.run ops).Sound := (conserves_of_window hb hwindow ops).2.toSound
  rw [← continues_iff hsound hfollows hfed]
  refine skips_of_honest hsound ?_ fun hend m => ?_
  · rw [hfollows.source]
    exact hs.after n
  · rw [hfollows.source]
    exact hfollows.dry hend m

/-- **Passing over a byte moves by one byte or knows that the input is over**, whatever has been
done to the buffer before: on an honest supply, on a buffer that holds its input and on a reader. -/
theorem skipByte_knows (ops : List Op) :
    (∀ (σ : Type) [Supply σ] (source : σ), Honest source →
      ((ofSource source).run ops).Skips
        (∃ m, ((ofSource source).run ops).cursorOffset < (drawn m source).length)) ∧
    (∀ bytes : Bytes, ((ofBytes bytes).run ops).Skips
      (((ofBytes bytes).run ops).cursorOffset < bytes.length)) ∧
    ∀ (script : List Read) (chunkSize : Nat), ((ofScript script chunkSize).run ops).Skips
      (∃ m, ((ofScript script chunkSize).run ops).cursorOffset
        < (drawn m (Reader.ofScript script chunkSize)).length) := by
  have key : ∀ (σ : Type) [Supply σ] (source : σ), Honest source →
      ((ofSource source).run ops).Skips
        (∃ m, ((ofSource source).run ops).cursorOffset < (drawn m source).length) := by
    intro σ _ source hs
    have hwindow : (ofSource source).Window [] := ⟨Nat.le_refl 0, rfl⟩
    exact skips_run (sound_ofSource source) hwindow hs nofun ops
  refine ⟨key, fun bytes => ?_, fun script chunkSize => key Reader _ (Reader.honest _)⟩
  have hdry (m : Nat) : drawn m Exhausted.exhausted = [] := drawn_of_nothing rfl m
  have hwindow : (ofBytes bytes).Window bytes := ⟨Nat.zero_le _, rfl⟩
  have hskips := skips_run (sound_ofBytes bytes) hwindow (Exhausted.honest _) (fun _ => hdry) ops
  have hlength (m : Nat) : (bytes ++ drawn m (ofBytes bytes).source).length = bytes.length := by
    rw [show drawn m (ofBytes bytes).source = [] from hdry m, List.append_nil]
  simpa [hlength] using hskips

/-- Gives a byte, fails, gives another byte, and is at its end. -/
def faltering : Feed := ⟨[.counted [7], ⟨[], .error ⟨"lost"⟩⟩, .counted [8]], false⟩

theorem skipByte_knows_faltering :
    Honest faltering ∧
      ((ofSource faltering).run [.skipByte]).skipByte.1 = .error (.source ⟨"lost"⟩) ∧
      ((ofSource faltering).run [.skipByte]).skipByte.2.cursorOffset = 1 ∧
      ((ofSource faltering).run [.skipByte, .skipByte]).skipByte.1 = .ok true ∧
      ((ofSource faltering).run [.skipByte, .skipByte]).skipByte.2.cursorOffset = 2 ∧
      ((ofSource faltering).run [.skipByte, .skipByte, .skipByte]).skipByte.2.isDone = true := by
  have honest : Honest faltering := by
    refine Feed.honest _ fun d hd k hk => ?_
    simp only [faltering, List.mem_cons, List.not_mem_nil, or_false] at hd
    obtain rfl | rfl | rfl := hd <;> cases hk <;> rfl
  have key (ops : List Op) := (skipByte_knows ops).1 Feed faltering honest
  have hfailed : ((ofSource faltering).run [.skipByte]).skipByte.1 = .error (.source ⟨"lost"⟩) :=
    ((key _).failed_iff _).2 ⟨rfl, rfl, _, rfl, rfl⟩
  have hpassed : ((ofSource faltering).run [.skipByte, .skipByte]).skipByte.1 = .ok true :=
    (key _).passed_iff.2 ⟨⟨3, by decide⟩, fun _ _ => ⟨1, rfl⟩⟩
  refine ⟨honest, hfailed, (key _).stays ?_, hpassed, (key _).moved hpassed, (key _).isDone rfl⟩
  rw [hfailed]
  exact nofun

end Buffer

end CombLexer
