/-
The end of the input is final.

Once a refill has reported 0, nothing that is done to a buffer asks its source
again: the outcome is the same whatever the source would answer, and the source
is left as it is (`Does.final`). The buffer stays at the end of its input, takes
in no byte, and refuses every refill (`Buffer.Final`). This rests on two facts:
a walk at the end of the input is always settled (`walk_of_atEnd`), and waiting
for a byte and passing over one test for the end first. The kinds of source keep
to it on their own as well: none of them goes on behind a report of 0
(`StaysOver`).
-/
import CombLexer.Proofs.Scan.Conservation
import CombLexer.Proofs.Scan.Exhaustion

namespace CombLexer

variable {σ : Type}

/-! ## Sources -/

/-- A kind of supply that has nothing to give behind a report of 0, and stays as it is then. -/
def StaysOver (σ : Type) [Supply σ] : Prop :=
  ∀ s : σ, (Supply.refill s).1.report = .ok 0 →
    Supply.refill (Supply.refill s).2 = (.nothing, (Supply.refill s).2)

theorem Exhausted.staysOver : StaysOver Exhausted := fun _ _ => rfl

theorem Chunks.deliver_of_over {pieces : List Bytes} (h : (deliver pieces).1.report = .ok 0) :
    (deliver pieces).2 = [] := by
  fun_induction deliver pieces with
  | case1 => rfl
  | case2 rest ih => exact ih h
  | case3 piece rest hne =>
    have hlen : piece.length = 0 := Except.ok.inj h
    exact absurd (List.eq_nil_of_length_eq_zero hlen) hne

theorem Chunks.staysOver : StaysOver Chunks := by
  intro s h
  have hrest : (Supply.refill s).2 = ⟨[]⟩ := congrArg Chunks.mk (deliver_of_over h)
  rw [hrest]
  rfl

theorem Feed.refill_of_done {f : Feed} (h : f.done = true) : Supply.refill f = (.nothing, f) :=
  if_pos h

theorem Feed.staysOver : StaysOver Feed := by
  intro f h
  refine refill_of_done ?_
  have hreport : (deliver f).1.report = .ok 0 := h
  show (deliver f).2.done = true
  unfold deliver at hreport ⊢
  by_cases hdone : f.done = true
  · rw [if_pos hdone]
    exact hdone
  · rw [if_neg hdone] at hreport ⊢
    cases hscript : f.script with
    | nil => rfl
    | cons d rest =>
      rw [hscript] at hreport
      have hd : d.report = .ok 0 := hreport
      simp [hd]

theorem Reader.refill_of_done {r : Reader} (h : r.done = true) : Supply.refill r = (.nothing, r) :=
  if_pos h

theorem Reader.staysOver : StaysOver Reader := by
  intro r h
  refine refill_of_done ?_
  have hreport : (deliver r).1.report = .ok 0 := h
  show (deliver r).2.done = true
  unfold deliver at hreport ⊢
  by_cases hdone : r.done = true
  · rw [if_pos hdone]
    exact hdone
  · rw [if_neg hdone] at hreport ⊢
    rcases hread : read r.chunkSize r.script with ⟨e | bytes, script⟩
    · rw [hread] at hreport
      cases hreport
    · rw [hread] at hreport
      have hlen : bytes.length = 0 := Except.ok.inj hreport
      simp [List.eq_nil_of_length_eq_zero hlen]

/-! ## Buffers -/

namespace Buffer

variable {b b' b'' : Buffer σ}

/-- What has become of a buffer at the end of its input: it is still there, on the source as it was,
and holds the same bytes or none. -/
structure Final (b b' : Buffer σ) : Prop where
  atEnd : b'.atEnd = true
  source : b'.source = b.source
  content : b'.content = b.content ∨ b'.content = #[]

theorem Final.refl (h : b.atEnd = true) : b.Final b := ⟨h, rfl, .inl rfl⟩

theorem Final.trans (h : b.Final b') (h' : b'.Final b'') : b.Final b'' := by
  refine ⟨h'.atEnd, h'.source.trans h.source, ?_⟩
  rcases h'.content with hsame | hnone
  · rw [hsame]
    exact h.content
  · exact .inr hnone

/-- What keeps the source, the end and the bytes of a buffer. -/
theorem Final.of_eq (h : b.atEnd = true) (hatEnd : b'.atEnd = b.atEnd)
    (hsource : b'.source = b.source) (hcontent : b'.content = b.content) : b.Final b' :=
  ⟨hatEnd.trans h, hsource, .inl hcontent⟩

theorem refill_of_atEnd [Supply σ] (h : b.atEnd = true) :
    b.refill = (.error (.exhausted b.cursorOffset), b) :=
  if_pos h

theorem skipByte_of_atEnd (h : b.atEnd = true) :
    ∃ found b', b.Final b' ∧ ∀ [Supply σ], b.skipByte = (.ok found, b') := by
  have hbare [Supply σ] : b.openToken.refillIfBare = (.ok (), b.openToken) :=
    if_neg fun hbare => by simp [openToken, h] at hbare
  by_cases hover : b.openToken.cursor = b.openToken.content.size
  · refine ⟨false, b.openToken, .of_eq h rfl rfl rfl, ?_⟩
    intro
    rw [skipByte_eq, hbare]
    exact if_pos hover
  · refine ⟨true, (b.pass 1).openToken, .of_eq h rfl rfl rfl, ?_⟩
    intro
    rw [skipByte_eq, hbare]
    exact if_neg hover

theorem asksToSkip_of_atEnd (h : b.atEnd = true) : b.asksToSkip = 0 :=
  if_neg fun hbare => by simp [h] at hbare

theorem settle_eq (b : Buffer σ) :
    ∃ result : Except ScanError Nat, b.settle = (result.map .matched, b.rewind) := by
  unfold settle
  cases b.matchedRule with
  | some rule => exact ⟨.ok rule, rfl⟩
  | none => exact ⟨.error (.noMatch b.startOffset), rfl⟩

/-- At the end of the input a walk is settled, and reads no more than is at hand. -/
theorem walk_of_atEnd (t : Table) (s : Nat) (h : b.atEnd = true) :
    ∃ (result : Except ScanError Nat) (b' : Buffer σ),
      t.walk s b = (result.map .matched, b') ∧ b.Final b' := by
  obtain ⟨result, hsettle⟩ := (b.record (t.longest? s b.ahead)).settle_eq
  refine ⟨result, _, (t.walk_eq s b).trans ((if_pos h).trans hsettle), ?_⟩
  have hcontent : (b.record (t.longest? s b.ahead)).content = b.content := by
    cases t.longest? s b.ahead <;> rfl
  exact .of_eq h (record_atEnd b _) (record_source b _) hcontent

theorem final_walk (t : Table) (s : Nat) (h : b.atEnd = true) : b.Final (t.walk s b).2 := by
  obtain ⟨result, b', hwalk, hfinal⟩ := walk_of_atEnd t s h
  rw [hwalk]
  exact hfinal

/-- Whatever is done to a buffer at the end of its input, the source makes no difference. -/
theorem apply_of_atEnd (op : Op) (h : b.atEnd = true) :
    ∃ b', b.Final b' ∧ ∀ [Supply σ], b.apply op = b' := by
  cases op with
  | advance =>
    have hcontent : b.advance.content = b.content := by
      unfold advance
      split <;> rfl
    exact ⟨_, .of_eq h b.advance_atEnd b.advance_source hcontent, fun [_] => rfl⟩
  | markMatch rule => exact ⟨b.markMatch rule, .of_eq h rfl rfl rfl, fun [_] => rfl⟩
  | openToken => exact ⟨b.openToken, .of_eq h rfl rfl rfl, fun [_] => rfl⟩
  | clear => exact ⟨b.clear, ⟨h, rfl, .inr rfl⟩, fun [_] => rfl⟩
  | refill => exact ⟨b, .refl h, fun [_] => congrArg Prod.snd (refill_of_atEnd h)⟩
  | skipByte =>
    obtain ⟨found, b', hfinal, hskip⟩ := skipByte_of_atEnd h
    exact ⟨b', hfinal, fun [_] => congrArg Prod.snd hskip⟩
  | step t s =>
    refine ⟨b.stepped t s, ?_, fun [_] => rfl⟩
    rw [stepped_eq]
    split
    · exact final_walk t s h
    · exact .refl h

end Buffer

open Buffer

theorem Table.drives_of_atEnd (t : Table) (s : Nat) {b : Buffer σ} (h : b.atEnd = true) :
    ∃ d, b.Final d.buffer ∧ ∀ [Supply σ], t.Drives s b 0 d := by
  obtain ⟨result, b', hwalk, hfinal⟩ := walk_of_atEnd t s h
  exact ⟨⟨[], result, b'⟩, hfinal, .settled hwalk⟩

theorem Table.attempts_of_atEnd (t : Table) (s : Nat) {b : Buffer σ} (h : b.atEnd = true) :
    ∃ a, b.Final a.buffer ∧ ∀ [Supply σ], t.Attempts s b 0 a := by
  have hopen : b.Final b.openToken := .of_eq h rfl rfl rfl
  have hready [Supply σ] : b.openToken.Fills 0 (.ok (), b.openToken) :=
    .ready fun hbare => by simp [openToken, h] at hbare
  cases hdone : b.openToken.isDone with
  | true => exact ⟨_, hopen, .ended hready hdone⟩
  | false =>
    obtain ⟨d, hfinal, hdrive⟩ := t.drives_of_atEnd s hopen.atEnd
    refine ⟨d.toAttempt, ?_, .walked hready hdone hdrive⟩
    rw [Drive.toAttempt_buffer]
    exact hopen.trans hfinal

/-! ## Scanners -/

namespace Scanner

variable {sc last : Scanner σ}

theorem returns_of_atEnd (h : sc.buffer.atEnd = true) :
    ∃ step, sc.buffer.Final step.2.buffer ∧ ∀ [Supply σ], sc.Returns 0 step := by
  by_cases hfin : sc.finished = true
  · exact ⟨(.ok none, sc), .refl h, .finished hfin⟩
  · rw [Bool.not_eq_true] at hfin
    by_cases hskip : sc.skipFirst = true
    · obtain ⟨found, b, hfinal, hb⟩ := skipByte_of_atEnd h
      obtain ⟨a, hfinal', ha⟩ := sc.table.attempts_of_atEnd sc.config.initialState hfinal.atEnd
      refine ⟨(sc.resumeOn b).conclude a, ?_, fun [_] => ?_⟩
      · rw [conclude_buffer]
        exact hfinal.trans hfinal'
      · have hreturns := Returns.resumed hfin hskip hb ha
        rwa [asksToSkip_of_atEnd h] at hreturns
    · rw [Bool.not_eq_true] at hskip
      obtain ⟨a, hfinal, ha⟩ := sc.table.attempts_of_atEnd sc.config.initialState h
      refine ⟨sc.conclude a, ?_, .searched hfin hskip ha⟩
      rw [conclude_buffer]
      exact hfinal

section
variable [Supply σ]

theorem Returns.final {n : Nat} {step : Except ScanError (Option Token) × Scanner σ}
    (h : sc.Returns n step) (hend : sc.buffer.atEnd = true) :
    sc.buffer.Final step.2.buffer ∧ ∀ ask : Supply σ, @Returns σ ask sc 0 step := by
  obtain ⟨step', hfinal, hall⟩ := returns_of_atEnd hend
  obtain ⟨-, rfl⟩ := hall.unique h
  exact ⟨hfinal, fun ask => hall⟩

theorem Answers.final {c : Call} {reply : Reply} (h : sc.Answers c reply last)
    (hend : sc.buffer.atEnd = true) :
    sc.buffer.Final last.buffer ∧ ∀ ask : Supply σ, @Answers σ ask sc c reply last := by
  cases h with
  | next h =>
    obtain ⟨hfinal, hall⟩ := h.final hend
    exact ⟨hfinal, fun ask => .next (hall ask)⟩
  | nextWithBytes h =>
    obtain ⟨hfinal, hall⟩ := h.final hend
    exact ⟨hfinal, fun ask => .nextWithBytes (hall ask)⟩
  | resync =>
    obtain ⟨found, b, hfinal, hskip⟩ := skipByte_of_atEnd hend
    rw [hskip]
    refine ⟨hfinal, fun ask => ?_⟩
    have hanswers := @Answers.resync σ ask sc
    rwa [hskip] at hanswers

theorem Collects.final {result : Except ScanError (List (Token × Bytes))}
    (h : sc.Collects result last) (hend : sc.buffer.atEnd = true) :
    sc.buffer.Final last.buffer ∧ ∀ ask : Supply σ, @Collects σ ask sc result last := by
  induction h with
  | ended h =>
    obtain ⟨hfinal, hall⟩ := h.final hend
    exact ⟨hfinal, fun ask => .ended (hall ask)⟩
  | failed h =>
    obtain ⟨hfinal, hall⟩ := h.final hend
    exact ⟨hfinal, fun ask => .failed (hall ask)⟩
  | token h _ ih =>
    obtain ⟨hfinal, hall⟩ := h.final hend
    obtain ⟨hrest, hrestAll⟩ := ih hfinal.atEnd
    exact ⟨hfinal.trans hrest, fun ask => .token (hall ask) (hrestAll ask)⟩

theorem Gives.final {n : Nat} {answers : List (Except ScanError Token)}
    (h : sc.Gives n answers last) (hend : sc.buffer.atEnd = true) :
    sc.buffer.Final last.buffer ∧ ∀ ask : Supply σ, @Gives σ ask sc 0 answers last := by
  induction h with
  | nil => exact ⟨.refl hend, fun _ => .nil⟩
  | cons h _ ih =>
    obtain ⟨hfinal, hall⟩ := h.final hend
    obtain ⟨hrest, hrestAll⟩ := ih hfinal.atEnd
    exact ⟨hfinal.trans hrest, fun ask => .cons (hall ask) (hrestAll ask)⟩

theorem Ends.final {n : Nat} {answers : List (Except ScanError Token)}
    (h : sc.Ends n answers last) (hend : sc.buffer.atEnd = true) :
    sc.buffer.Final last.buffer ∧ ∀ ask : Supply σ, @Ends σ ask sc 0 answers last := by
  obtain ⟨k, m, sc', -, hgives, hover⟩ := h
  obtain ⟨hfinal, hall⟩ := hgives.final hend
  obtain ⟨hlast, hoverAll⟩ := hover.final hfinal.atEnd
  exact ⟨hfinal.trans hlast, fun ask => ⟨0, 0, sc', rfl, hall ask, hoverAll ask⟩⟩

theorem Session.final {requests : List Request} {errors : List ScanError}
    (h : sc.Session requests errors last) (hend : sc.buffer.atEnd = true) :
    sc.buffer.Final last.buffer ∧ ∀ ask : Supply σ, @Session σ ask sc requests errors last := by
  induction h with
  | nil => exact ⟨.refl hend, fun _ => .nil⟩
  | call h _ ih =>
    obtain ⟨hfinal, hall⟩ := h.final hend
    obtain ⟨hrest, hrestAll⟩ := ih hfinal.atEnd
    exact ⟨hfinal.trans hrest, fun ask => .call (hall ask) (hrestAll ask)⟩
  | collect h _ ih =>
    obtain ⟨hfinal, hall⟩ := h.final hend
    obtain ⟨hrest, hrestAll⟩ := ih hfinal.atEnd
    exact ⟨hfinal.trans hrest, fun ask => .collect (hall ask) (hrestAll ask)⟩
  | results h _ ih =>
    obtain ⟨hfinal, hall⟩ := h.final hend
    obtain ⟨hrest, hrestAll⟩ := ih hfinal.atEnd
    exact ⟨hfinal.trans hrest, fun ask => .results (hall ask) (hrestAll ask)⟩

end

section
variable [Source σ]

/-- The scanner behind a session of requests. -/
def behind : List Request → Scanner σ → Scanner σ
  | [], sc => sc
  | request :: requests, sc => behind requests (sc.serve request).2

theorem final_next (h : sc.buffer.atEnd = true) : sc.buffer.Final sc.next.2.buffer := by
  obtain ⟨n, hreturns⟩ := sc.returns_next
  exact (hreturns.final h).1

theorem final_take {α : Type} (view : Token → Scanner σ → α) (count : Nat)
    (h : sc.buffer.atEnd = true) : sc.buffer.Final (sc.take view count).2.buffer := by
  induction count generalizing sc with
  | zero => exact .refl h
  | succ count ih =>
    have hnext := final_next h
    have hrest := hnext.trans (ih hnext.atEnd)
    cases hr : sc.next.1 with
    | error e => rwa [take_succ_of_error hr]
    | ok token? =>
      cases token? with
      | none => rwa [take_succ_of_over hr]
      | some token => rwa [take_succ_of_token hr]

theorem final_collectOnto (found : Array (Token × Bytes)) (count : Nat) (sc : Scanner σ)
    (h : sc.buffer.atEnd = true) : sc.buffer.Final (sc.collectOnto found count).2.buffer := by
  have hnext {sc : Scanner σ} {step} (hr : sc.nextWithBytes = step) (h : sc.buffer.atEnd = true) :
      sc.buffer.Final step.2.buffer := hr ▸ final_next h
  fun_induction collectOnto found count sc with
  | case1 found sc => exact .refl h
  | case2 found count sc sc' hr => exact hnext hr h
  | case3 found count sc e sc' hr => exact hnext hr h
  | case4 found count sc token sc' hr ih => exact (hnext hr h).trans (ih (hnext hr h).atEnd)

theorem final_serve (request : Request) (h : sc.buffer.atEnd = true) :
    sc.buffer.Final (sc.serve request).2.buffer := by
  cases request with
  | call c => exact ((sc.answers_call c).final h).1
  | collect => exact final_collectOnto _ _ sc h
  | results =>
    show sc.buffer.Final sc.results.2.buffer
    rw [results, all_eq_take]
    exact final_take _ _ h

theorem final_behind (requests : List Request) (h : sc.buffer.atEnd = true) :
    sc.buffer.Final (sc.behind requests).buffer := by
  induction requests generalizing sc with
  | nil => exact .refl h
  | cons request requests ih =>
    have hserve := final_serve request h
    exact hserve.trans (ih hserve.atEnd)

end

end Scanner

/-! ## All that can be done -/

/-- What can be done with a buffer: an operation, a walk with its refills, or a session of requests
to a scanner on it, in any state. -/
inductive Act where
  | op (op : Op)
  | drive (t : Table) (s : Nat)
  | session (t : Table) (config : Config) (skipFirst finished : Bool) (requests : List Request)

/-- An act comes to an end, and leaves this buffer. -/
inductive Does [Supply σ] : Buffer σ → Act → Buffer σ → Prop
  | op {b : Buffer σ} {op : Op} : Does b (.op op) (b.apply op)
  | drive {b : Buffer σ} {t : Table} {s n : Nat} {d : Drive σ} (h : t.Drives s b n d) :
      Does b (.drive t s) d.buffer
  | session {b : Buffer σ} {t : Table} {config : Config} {skipFirst finished : Bool}
      {requests : List Request} {errors : List ScanError} {last : Scanner σ}
      (h : Scanner.Session { table := t, buffer := b, config, skipFirst, finished }
        requests errors last) :
      Does b (.session t config skipFirst finished requests) last.buffer

/-- One act after another comes to an end. -/
inductive DoesAll [Supply σ] : Buffer σ → List Act → Buffer σ → Prop
  | nil {b : Buffer σ} : DoesAll b [] b
  | cons {b b' b'' : Buffer σ} {act : Act} {acts : List Act} (h : Does b act b')
      (hrest : DoesAll b' acts b'') : DoesAll b (act :: acts) b''

theorem Does.final [Supply σ] {b b' : Buffer σ} {act : Act} (h : Does b act b')
    (hend : b.atEnd = true) : b.Final b' ∧ ∀ ask : Supply σ, @Does σ ask b act b' := by
  cases h with
  | @op op =>
    obtain ⟨b', hfinal, happly⟩ := apply_of_atEnd op hend
    rw [happly]
    exact ⟨hfinal, fun ask => @happly ask ▸ @Does.op σ ask b op⟩
  | drive h =>
    obtain ⟨d, hfinal, hdrive⟩ := Table.drives_of_atEnd _ _ hend
    obtain ⟨-, rfl⟩ := hdrive.unique h
    exact ⟨hfinal, fun ask => .drive hdrive⟩
  | session h =>
    obtain ⟨hfinal, hall⟩ := h.final hend
    exact ⟨hfinal, fun ask => .session (hall ask)⟩

theorem DoesAll.final [Supply σ] {b b' : Buffer σ} {acts : List Act} (h : DoesAll b acts b')
    (hend : b.atEnd = true) : b.Final b' ∧ ∀ ask : Supply σ, @DoesAll σ ask b acts b' := by
  induction h with
  | nil => exact ⟨.refl hend, fun _ => .nil⟩
  | cons h _ ih =>
    obtain ⟨hfinal, hall⟩ := h.final hend
    obtain ⟨hrest, hrestAll⟩ := ih hfinal.atEnd
    exact ⟨hfinal.trans hrest, fun ask => .cons (hall ask) (hrestAll ask)⟩

/-- **The end of the input is final.** When a refill reports 0, the buffer is at the end of its
input, and stays there whatever is done to it: the source is left as it is, and the outcome is the
same whatever it would answer; no byte comes to those at hand; and every refill fails with the
offset of the cursor and changes nothing. A scanner of the program keeps to that, and each kind of
source has nothing more to give either. -/
theorem end_of_input_is_final :
    (∀ (σ : Type) [Supply σ] (b : Buffer σ), b.atEnd = false →
        (Supply.refill b.source).1.report = .ok 0 →
          ∃ b₀, b.refill = (.ok (), b₀) ∧ b₀.atEnd = true ∧
            b₀.source = (Supply.refill b.source).2 ∧
            ∀ acts b', DoesAll b₀ acts b' →
              b₀.Final b' ∧
                ∀ ask : Supply σ, @DoesAll σ ask b₀ acts b' ∧
                  @Buffer.refill σ ask b' = (.error (.exhausted b'.cursorOffset), b')) ∧
      (∀ (σ : Type) [Source σ] (sc : Scanner σ), sc.buffer.atEnd = true →
        ∀ requests, sc.buffer.Final (sc.behind requests).buffer) ∧
      StaysOver Exhausted ∧ StaysOver Chunks ∧ StaysOver Feed ∧ StaysOver Reader := by
  refine ⟨fun σ _ b hend hover => ?_, fun σ _ sc h requests => Scanner.final_behind requests h,
    Exhausted.staysOver, Chunks.staysOver, Feed.staysOver, Reader.staysOver⟩
  have hrefill : b.refill = (.ok (),
      (b.compact.accept (Supply.refill b.source).1 (Supply.refill b.source).2).2) := by
    rw [refill, if_neg (by simp [hend])]
    simp only [accept, hover]
  have hatEnd : (b.compact.accept (Supply.refill b.source).1
      (Supply.refill b.source).2).2.atEnd = true := by
    rw [accept, hover]
    rfl
  refine ⟨_, hrefill, hatEnd, accept_source _ _ _, fun acts b' h => ?_⟩
  obtain ⟨hfinal, hall⟩ := h.final hatEnd
  exact ⟨hfinal, fun ask => ⟨hall ask, refill_of_atEnd hfinal.atEnd⟩⟩

/-- A report of 0 that comes with a byte, and a byte behind it that nobody asks for. -/
theorem end_of_input_is_final_overfull :
    let b := Buffer.ofSource (Feed.mk [⟨[0], .ok 0⟩, .counted [1]] false)
    let acts := [.op .advance, .drive Table.backingOff 0, .op .skipByte, .op .refill,
      .session Table.backingOff { recovery := .resync } true true [.call .next, .call .resync]]
    b.atEnd = false ∧ (Supply.refill b.source).1.report = .ok 0 ∧
      ∃ b₀ b', b.refill = (.ok (), b₀) ∧ DoesAll b₀ acts b' ∧ b'.content = #[0] ∧
        b'.source = ⟨[.counted [1]], true⟩ ∧
        ∀ ask : Supply Feed, @Buffer.refill Feed ask b' = (.error (.exhausted 1), b') := by
  intro b acts
  have hover : (Supply.refill b.source).1.report = .ok 0 := rfl
  obtain ⟨b₀, hrefill, -, -, hall⟩ := end_of_input_is_final.1 Feed b rfl hover
  cases hrefill
  have hwalk : Table.backingOff.walk 0
      { content := #[0], cursor := 1, atEnd := true, source := Feed.mk [.counted [1]] true } =
      ((Except.error (.noMatch 0) : Except ScanError Nat).map .matched,
        { content := #[0], atEnd := true, source := Feed.mk [.counted [1]] true }) :=
    (Table.walk_eq _ _ _).trans rfl
  have hbegun : Does { content := #[0], atEnd := true, source := Feed.mk [.counted [1]] true }
      (.op .advance) _ := .op
  have hcalls : Scanner.Session
      { table := Table.backingOff
        buffer := { content := #[0], start := 1, cursor := 1, lastMatchEnd := 1, atEnd := true
                    source := Feed.mk [.counted [1]] true }
        config := { recovery := .resync }
        skipFirst := true
        finished := true }
      [.call .next, .call .resync] _ _ := .call (.next (.finished rfl)) (.call .resync .nil)
  have hdone : DoesAll _ acts _ :=
    .cons hbegun (.cons (.drive (.settled hwalk)) (.cons .op (.cons .op
      (.cons (.session hcalls) .nil))))
  exact ⟨rfl, hover, _, _, rfl, hdone, rfl, rfl, fun ask => ((hall _ _ hdone).2 ask).2⟩

end CombLexer
