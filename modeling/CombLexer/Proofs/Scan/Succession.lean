/-
How the answers to calls follow one another.

A call leaves the scanner ready for more only behind a token, and behind bytes
that no rule matches if those are recovered from (`Returns.leaves`). Behind every
other answer the scanner is finished, and a finished scanner answers that the
stream is over and does not move (`Returns.iff_of_finished`). So the answers of
every run of calls are a `Succession`: tokens, and failures that are recovered
from, up to one answer that closes the scan, and then only the end of the stream.

`Scanner.collect` is one such run, cut at the first answer that is not a token
(`collects_iff_gathers`). The program makes a bounded number of calls for it,
which is enough because each token uses up a byte of what is left
(`Buffer.Left`, `Returns.left`).
-/
import CombLexer.Proofs.Scan.Interruption
import CombLexer.Proofs.Scan.Recovering
import CombLexer.Proofs.Scan.Skipping

namespace CombLexer

variable {σ α : Type}

/-- An answer behind which a scan that recovers in this way is over. -/
inductive Closes (recovery : Recovery) : Except ScanError (Option α) → Prop
  | ended : Closes recovery (.ok none)
  | unmatched (hrec : recovery = .abort) (offset : Nat) : Closes recovery (.error (.noMatch offset))
  | failed (e : SourceError) : Closes recovery (.error (.source e))

/-- The answers that can follow one another. -/
inductive Succession (recovery : Recovery) : List (Except ScanError (Option α)) → Prop
  | nil : Succession recovery []
  | token {answers : List (Except ScanError (Option α))} (a : α)
      (hrest : Succession recovery answers) : Succession recovery (.ok (some a) :: answers)
  | skipped {answers : List (Except ScanError (Option α))} (hrec : recovery = .resync)
      (offset : Nat) (hrest : Succession recovery answers) :
      Succession recovery (.error (.noMatch offset) :: answers)
  | closed {answer : Except ScanError (Option α)} (h : Closes recovery answer) (n : Nat) :
      Succession recovery (answer :: List.replicate n (.ok none))

/-- A scan that does not recover comes to one error at most. -/
theorem Succession.errors_le_one {recovery : Recovery}
    {answers : List (Except ScanError (Option α))} (h : Succession recovery answers)
    (hrec : recovery = .abort) : (answers.filterMap error?).length ≤ 1 := by
  induction h with
  | nil => exact Nat.zero_le 1
  | token a hrest ih => exact ih
  | skipped hrec' => rw [hrec] at hrec'; cases hrec'
  | @closed answer h n =>
    have hover :
        (List.replicate n (.ok none : Except ScanError (Option α))).filterMap error? = [] := by
      simp [List.filterMap_replicate, error?]
    rw [List.filterMap_cons, hover]
    cases error? answer <;> simp

namespace Scanner

/-! ## What a call leaves -/

/-- What is to come behind an answer: another search, at once or behind a byte that is passed over,
or nothing. -/
inductive Leaves (recovery : Recovery) : Except ScanError (Option α) → Scanner σ → Prop
  | token {sc : Scanner σ} (a : α) (hskip : sc.skipFirst = false) (hfin : sc.finished = false) :
      Leaves recovery (.ok (some a)) sc
  | skipped {sc : Scanner σ} (hrec : recovery = .resync) (offset : Nat)
      (hskip : sc.skipFirst = true) (hfin : sc.finished = false) :
      Leaves recovery (.error (.noMatch offset)) sc
  | closed {sc : Scanner σ} {answer : Except ScanError (Option α)} (h : Closes recovery answer)
      (hfin : sc.finished = true) : Leaves recovery answer sc

theorem conclude_config (sc : Scanner σ) (a : Attempt σ) :
    (sc.conclude a).2.config = sc.config := by
  unfold conclude
  cases a.result with
  | ok token => rfl
  | error e => by_cases hgoes : continues sc.config e = true <;> simp [hgoes]

theorem leaves_conclude {sc : Scanner σ} {a : Attempt σ} (hskip : sc.skipFirst = false)
    (hfin : sc.finished = false) (ha : WithinInput a.result) :
    Leaves sc.config.recovery (sc.conclude a).1 (sc.conclude a).2 := by
  cases hr : a.result with
  | ok token? =>
    rw [conclude_of_ok hr]
    cases token? with
    | none => exact .closed .ended rfl
    | some token => exact .token token hskip rfl
  | error e =>
    cases e with
    | exhausted offset => exact absurd hr (ha offset)
    | noMatch offset =>
      rw [conclude_of_noMatch hr]
      cases hrec : sc.config.recovery with
      | abort => exact .closed (.unmatched rfl offset) (by simp)
      | resync => exact .skipped rfl offset (by simp) (by simp [hfin])
    | source e =>
      simp only [conclude, hr, continues]
      exact .closed (.failed e) rfl

section
variable [Supply σ] {sc sc' last : Scanner σ} {n : Nat}

theorem Returns.config {step : Except ScanError (Option Token) × Scanner σ}
    (h : sc.Returns n step) : step.2.config = sc.config := by
  cases h with
  | finished => rfl
  | searched => exact conclude_config _ _
  | stopped => rfl
  | resumed => exact conclude_config _ _

theorem Answers.config {c : Call} {reply : Reply} (h : sc.Answers c reply sc') :
    sc'.config = sc.config := by
  cases h with
  | next h => exact h.config
  | nextWithBytes h => exact h.config
  | resync => rfl

theorem Collects.config {result : Except ScanError (List (Token × Bytes))}
    (h : sc.Collects result last) : last.config = sc.config := by
  induction h with
  | ended h => exact h.config
  | failed h => exact h.config
  | token h _ ih => exact ih.trans h.config

theorem Gives.config {answers : List (Except ScanError Token)} (h : sc.Gives n answers last) :
    last.config = sc.config := by
  induction h with
  | nil => rfl
  | cons h _ ih => exact ih.trans h.config

/-- Whatever a scanner is asked for, its setup stays as it is. -/
theorem Session.config {requests : List Request} {errors : List ScanError}
    (h : sc.Session requests errors last) : last.config = sc.config := by
  induction h with
  | nil => rfl
  | call h _ ih => exact ih.trans h.config
  | collect h _ ih => exact ih.trans h.config
  | results h _ ih =>
    obtain ⟨_, _, _, -, hgives, hover⟩ := h
    exact ih.trans (hover.config.trans hgives.config)

theorem Returns.leaves {step : Except ScanError (Option Token) × Scanner σ}
    (h : sc.Returns n step) : Leaves sc.config.recovery step.1 step.2 := by
  cases h with
  | finished hfin => exact .closed .ended hfin
  | searched hfin hskip ha => exact leaves_conclude hskip hfin ha.withinInput
  | stopped hfin hskip hb =>
    obtain ⟨⟨e, rfl⟩, -⟩ := Buffer.skipByte_error hb
    exact .closed (.failed e) rfl
  | @resumed n found b a hfin hskip hb ha =>
    exact @leaves_conclude _ (sc.resumeOn b) a rfl hfin ha.withinInput

end

/-! ## Runs of calls -/

/-- The answer of a call, a token with its bytes as the scanner behind it has them. -/
def answerOf (step : Except ScanError (Option Token) × Scanner σ) :
    Except ScanError (Option (Token × Bytes)) :=
  step.1.map fun token? => token?.map fun token => (token, step.2.lexeme)

theorem nextWithBytes_eq [Source σ] (sc : Scanner σ) :
    sc.nextWithBytes = (answerOf sc.next, sc.next.2) := rfl

section
variable {result : Except ScanError (Option Token)} {sc : Scanner σ}

theorem answerOf_eq_over : answerOf (result, sc) = .ok none ↔ result = .ok none := by
  cases result <;> simp [answerOf, Except.map]

theorem answerOf_eq_error {e : ScanError} :
    answerOf (result, sc) = .error e ↔ result = .error e := by
  cases result <;> simp [answerOf, Except.map]

theorem answerOf_eq_token {a : Token × Bytes} :
    answerOf (result, sc) = .ok (some a) ↔
      ∃ token, result = .ok (some token) ∧ (token, sc.lexeme) = a := by
  cases result <;> simp [answerOf, Except.map]

end

/-- Calls come to these answers one after another, in so many refills together. -/
inductive Calls [Supply σ] :
    Scanner σ → Nat → List (Except ScanError (Option (Token × Bytes))) → Scanner σ → Prop
  | nil {sc : Scanner σ} : Calls sc 0 [] sc
  | cons {sc last : Scanner σ} {n k : Nat}
      {step : Except ScanError (Option Token) × Scanner σ}
      {answers : List (Except ScanError (Option (Token × Bytes)))} (h : sc.Returns n step)
      (hrest : Calls step.2 k answers last) : Calls sc (n + k) (answerOf step :: answers) last

/-- Calls come to tokens, with these bytes, and then to the end of the stream or to an error. -/
inductive Gathers [Supply σ] (sc : Scanner σ) :
    Except ScanError (List (Token × Bytes)) → Scanner σ → Prop
  | ended (found : List (Token × Bytes)) {n : Nat} {last : Scanner σ}
      (h : sc.Calls n (found.map (fun a => .ok (some a)) ++ [.ok none]) last) :
      Gathers sc (.ok found) last
  | failed (found : List (Token × Bytes)) {n : Nat} {e : ScanError} {last : Scanner σ}
      (h : sc.Calls n (found.map (fun a => .ok (some a)) ++ [.error e]) last) :
      Gathers sc (.error e) last

theorem Leaves.answerOf {recovery : Recovery}
    {step : Except ScanError (Option Token) × Scanner σ} (h : Leaves recovery step.1 step.2) :
    Leaves recovery (answerOf step) step.2 := by
  obtain ⟨result, sc'⟩ := step
  cases h with
  | token a hskip hfin => exact .token _ hskip hfin
  | skipped hrec offset hskip hfin => exact .skipped hrec offset hskip hfin
  | closed h hfin =>
    cases h with
    | ended => exact .closed .ended hfin
    | unmatched hrec offset => exact .closed (.unmatched hrec offset) hfin
    | failed e => exact .closed (.failed e) hfin

theorem Leaves.succession {recovery : Recovery} {answer : Except ScanError (Option α)}
    {answers : List (Except ScanError (Option α))} {sc : Scanner σ}
    (h : Leaves recovery answer sc) (hrest : Succession recovery answers)
    (hover : sc.finished = true → answers = List.replicate answers.length (.ok none)) :
    Succession recovery (answer :: answers) := by
  cases h with
  | token a => exact .token a hrest
  | skipped hrec offset => exact .skipped hrec offset hrest
  | closed hcloses hfin =>
    rw [hover hfin]
    exact .closed hcloses _

section
variable [Supply σ] {sc sc' last : Scanner σ} {n : Nat}
  {answers before after : List (Except ScanError (Option (Token × Bytes)))}
  {answer : Except ScanError (Option (Token × Bytes))}

theorem Calls.config (h : sc.Calls n answers last) : last.config = sc.config := by
  induction h with
  | nil => rfl
  | cons h hrest ih => exact ih.trans h.config

theorem Calls.one {step : Except ScanError (Option Token) × Scanner σ} (h : sc.Returns n step) :
    sc.Calls n [answerOf step] step.2 :=
  .cons h .nil

theorem calls_append_iff :
    sc.Calls n (before ++ after) last ↔
      ∃ i j mid, n = i + j ∧ sc.Calls i before mid ∧ mid.Calls j after last := by
  constructor
  · intro h
    induction before generalizing sc n with
    | nil => exact ⟨0, n, sc, (Nat.zero_add n).symm, .nil, h⟩
    | cons answer before ih =>
      cases h with
      | cons hnext hrest =>
        obtain ⟨i, j, mid, rfl, hbefore, hafter⟩ := ih hrest
        exact ⟨_, j, mid, (Nat.add_assoc _ i j).symm, .cons hnext hbefore, hafter⟩
  · rintro ⟨i, j, mid, rfl, hbefore, hafter⟩
    induction hbefore with
    | nil => rwa [Nat.zero_add]
    | cons hnext hrest ih =>
      rw [Nat.add_assoc]
      exact .cons hnext (ih hafter)

/-- What a finished scanner answers to calls. -/
theorem calls_of_finished (hfin : sc.finished = true) :
    sc.Calls n answers last ↔
      n = 0 ∧ answers = List.replicate answers.length (.ok none) ∧ last = sc := by
  constructor
  · intro h
    induction h with
    | nil => exact ⟨rfl, rfl, rfl⟩
    | cons hnext hrest ih =>
      obtain ⟨rfl, rfl⟩ := (Returns.iff_of_finished hfin _ _).1 hnext
      obtain ⟨rfl, hanswers, rfl⟩ := ih hfin
      refine ⟨rfl, ?_, rfl⟩
      rw [List.length_cons, List.replicate_succ, ← hanswers]
      rfl
  · rintro ⟨rfl, hanswers, rfl⟩
    rw [hanswers]
    induction answers.length with
    | zero => exact .nil
    | succ k ih => exact .cons (.finished hfin) ih

/-- Behind the answer of its last call a scanner is ready for more, or not. -/
theorem Calls.leaves (h : sc.Calls n (before ++ [answer]) last) :
    Leaves sc.config.recovery answer last := by
  obtain ⟨i, j, mid, -, hbefore, hlast⟩ := calls_append_iff.1 h
  rw [← hbefore.config]
  cases hlast with
  | cons hnext hrest =>
    cases hrest
    exact hnext.leaves.answerOf

theorem Calls.finished (h : sc.Calls n (before ++ [answer]) last)
    (hcloses : Closes sc.config.recovery answer) : last.finished = true := by
  cases h.leaves with
  | token => cases hcloses
  | skipped hrec => cases hcloses with | unmatched hrec' => rw [hrec] at hrec'; cases hrec'
  | closed _ hfin => exact hfin

/-- Behind an answer that closes the scan there is only the end of the stream, without a refill and
on the scanner as it is. -/
theorem Calls.closed (h : sc.Calls n (before ++ answer :: after) last)
    (hcloses : Closes sc.config.recovery answer) :
    sc.Calls n (before ++ [answer]) last ∧ last.finished = true ∧
      after = List.replicate after.length (.ok none) := by
  rw [List.append_cons] at h
  obtain ⟨i, j, mid, rfl, hbefore, hafter⟩ := calls_append_iff.1 h
  have hfin := hbefore.finished hcloses
  obtain ⟨rfl, hover, rfl⟩ := (calls_of_finished hfin).1 hafter
  exact ⟨hbefore, hfin, hover⟩

theorem Calls.succession (h : sc.Calls n answers last) :
    Succession sc.config.recovery answers := by
  induction h with
  | nil => exact .nil
  | @cons sc last n k step answers hnext hrest ih =>
    rw [hnext.config] at ih
    exact hnext.leaves.answerOf.succession ih fun hfin => ((calls_of_finished hfin).1 hrest).2.1

/-! ## Collecting -/

theorem calls_cons_iff :
    sc.Calls n (answer :: answers) last ↔
      ∃ i j step, n = i + j ∧ sc.Returns i step ∧ answerOf step = answer ∧
        step.2.Calls j answers last := by
  constructor
  · intro h
    cases h with
    | cons hnext hrest => exact ⟨_, _, _, rfl, hnext, rfl, hrest⟩
  · rintro ⟨i, j, step, rfl, hnext, rfl, hrest⟩
    exact .cons hnext hrest

theorem calls_one_iff :
    sc.Calls n [answer] last ↔ ∃ result, sc.Returns n (result, last) ∧
      answerOf (result, last) = answer := by
  rw [calls_cons_iff]
  constructor
  · rintro ⟨i, j, ⟨result, sc'⟩, rfl, hnext, hanswer, hrest⟩
    cases hrest
    exact ⟨result, hnext, hanswer⟩
  · rintro ⟨result, hnext, hanswer⟩
    exact ⟨n, 0, _, rfl, hnext, hanswer, .nil⟩

/-- Tokens that calls come to are collected in front of what is collected behind them. -/
theorem Calls.collects {found : List (Token × Bytes)}
    {result : Except ScanError (List (Token × Bytes))}
    (h : sc.Calls n (found.map fun a => .ok (some a)) sc') (hrest : sc'.Collects result last) :
    sc.Collects (result.map (found ++ ·)) last := by
  induction found generalizing sc n with
  | nil =>
    cases h
    cases result <;> exact hrest
  | cons a found ih =>
    obtain ⟨i, j, ⟨answer, sc₁⟩, rfl, hnext, hanswer, hcalls⟩ := calls_cons_iff.1 h
    obtain ⟨token, rfl, rfl⟩ := answerOf_eq_token.1 hanswer
    have hcollects := Collects.token hnext (ih hcalls)
    cases result <;> exact hcollects

/-- Collecting is a run of calls up to the first answer that is not a token. -/
theorem collects_iff_gathers {result : Except ScanError (List (Token × Bytes))} :
    sc.Collects result last ↔ sc.Gathers result last := by
  constructor
  · intro h
    induction h with
    | ended h => exact .ended [] (.one h)
    | failed h => exact .failed [] (.one h)
    | token h hrest ih =>
      cases ih with
      | ended found hcalls => exact .ended (_ :: found) (.cons h hcalls)
      | failed found hcalls => exact .failed (_ :: found) (.cons h hcalls)
  · intro h
    cases h with
    | ended found h =>
      obtain ⟨i, j, mid, rfl, htokens, hlast⟩ := calls_append_iff.1 h
      obtain ⟨answer, hnext, hanswer⟩ := calls_one_iff.1 hlast
      obtain rfl := answerOf_eq_over.1 hanswer
      simpa [Except.map] using htokens.collects (.ended hnext)
    | failed found h =>
      obtain ⟨i, j, mid, rfl, htokens, hlast⟩ := calls_append_iff.1 h
      obtain ⟨answer, hnext, hanswer⟩ := calls_one_iff.1 hlast
      obtain rfl := answerOf_eq_error.1 hanswer
      exact htokens.collects (.failed hnext)

theorem Collects.unique {result result' : Except ScanError (List (Token × Bytes))}
    {last' : Scanner σ} (h : sc.Collects result last) (h' : sc.Collects result' last') :
    result' = result ∧ last' = last := by
  induction h generalizing result' with
  | ended h =>
    cases h' with
    | ended h' => cases (h.unique h').2; exact ⟨rfl, rfl⟩
    | failed h' => cases (h.unique h').2
    | token h' => cases (h.unique h').2
  | failed h =>
    cases h' with
    | ended h' => cases (h.unique h').2
    | failed h' => cases (h.unique h').2; exact ⟨rfl, rfl⟩
    | token h' => cases (h.unique h').2
  | token h hrest ih =>
    cases h' with
    | ended h' => cases (h.unique h').2
    | failed h' => cases (h.unique h').2
    | token h' hrest' =>
      cases (h.unique h').2
      obtain ⟨rfl, rfl⟩ := ih hrest'
      exact ⟨rfl, rfl⟩

end

end Scanner

/-! ## What is left -/

namespace Buffer

/-- So many bytes are at hand behind the cursor or still to come, at most. -/
structure Left [Supply σ] (b : Buffer σ) (size : Nat) : Prop where
  cursor_le : b.cursor ≤ b.content.size
  awaits : ∃ n rest fault?, b.Awaits n rest fault? ∧ b.unread + rest.length ≤ size

theorem left_of_source [Source σ] {b : Buffer σ} (hb : b.cursor ≤ b.content.size) :
    b.Left (b.unread + Source.capacity b.source) := by
  cases hend : b.atEnd with
  | true => exact ⟨hb, 0, [], none, .ended hend, Nat.le_add_right _ _⟩
  | false =>
    obtain ⟨n, rest, fault?, hrest⟩ := Source.runsOut b.source
    exact ⟨hb, n, rest, fault?, .more hend hrest, Nat.add_le_add_left hrest.length_le_capacity _⟩

section
variable [Supply σ] {b b' : Buffer σ} {size : Nat}

theorem Left.of_unread_le (h : b.Left size) (hcursor : b'.cursor ≤ b'.content.size)
    (hend : b'.atEnd = b.atEnd) (hsource : b'.source = b.source) (hle : b'.unread ≤ b.unread) :
    b'.Left size := by
  obtain ⟨n, rest, fault?, hawaits, hsize⟩ := h.awaits
  exact ⟨hcursor, n, rest, fault?, hawaits.congr hend hsource, by omega⟩

/-- What a refill at a new token brings was still to come before. -/
theorem Left.fetched {k : Nat} (h : b.Left size) (hend : b.atEnd = false)
    (hreport : (Supply.refill b.source).1.report = .ok k) : b.fetched.Left size := by
  obtain ⟨n, rest, fault?, hawaits, hsize⟩ := h.awaits
  refine ⟨Nat.zero_le _, ?_⟩
  have hunread : b.fetched.unread = (Supply.refill b.source).1.appended.length := by
    simp [Buffer.fetched, unread]
  rw [hunread]
  cases hawaits with
  | ended hover => rw [hend] at hover; cases hover
  | more _ hrest =>
    cases hrest with
    | ended hover =>
      refine ⟨0, [], none, .ended (by simp [Buffer.fetched, hover]), ?_⟩
      rw [List.length_nil]
      omega
    | failed hfailed => rw [hreport] at hfailed; cases hfailed
    | @more _ k n rest _ hmore hrest =>
      refine ⟨n, rest, fault?, .more (by simp [Buffer.fetched, hmore]) hrest, ?_⟩
      rw [List.length_append] at hsize
      omega

/-- Passing over a byte leaves no more than there was. -/
theorem Left.skipByte {found : Bool} (h : b.Left size) (hskip : b.skipByte = (.ok found, b')) :
    b'.Left size := by
  have hpasses := passes_skipByte h.cursor_le
  rw [hskip] at hpasses
  cases hpasses with
  | ready hlt =>
    refine h.of_unread_le hlt rfl rfl ?_
    exact Nat.sub_le_sub_left (Nat.le_succ _) _
  | closed => exact h.of_unread_le h.cursor_le rfl rfl (Nat.le_refl _)
  | ended hcursor hend hreport => exact h.fetched hend hreport
  | brought hcursor hend hreport hsome =>
    refine (h.fetched hend hreport).of_unread_le ?_ rfl rfl (Nat.sub_le_sub_left (Nat.le_succ 0) _)
    exact List.length_pos_iff.2 hsome

/-- A search that finds a token uses up a byte of what is left. -/
theorem Left.attempts {t : Table} {s n : Nat} {a : Attempt σ} {token : Token} (h : b.Left size)
    (ha : t.Attempts s b n a) (hr : a.result = .ok (some token)) :
    ∃ left < size, a.buffer.Left left := by
  obtain ⟨hcursor, m, rest, fault?, hawaits, hsize⟩ := h
  obtain ⟨k, n', a', -, hattempts, ⟨rest', hawaits', hattempted⟩ | ⟨e, -, hfailed, -⟩⟩ :=
    hawaits.attempts (q := []) hcursor (fun _ => rfl) t s
  · obtain ⟨-, rfl⟩ := ha.unique hattempts
    have hresult : (a'.lend (rest' ++ [])).result = .ok (some token) := hr
    cases hattempted with
    | ended _ hended => rw [hresult] at hended; cases hended
    | @token m hw hm _ hstands =>
      obtain ⟨hcursor', -, rest'', howes, hinput⟩ := hstands
      obtain rfl := howes.unique (hawaits'.owes fun _ => rfl)
      have hpos := Table.length_pos_of_longest? hw hm
      have hlength : (a'.lend rest').buffer.unread + rest'.length =
          b.unread + rest.length - m.length := by
        have hlength := congrArg List.length hinput
        simpa [ahead_length] using hlength
      have hkept : (a'.lend rest').buffer.unread = a'.buffer.unread := rfl
      have hmore : 0 < b.unread + rest.length := by
        have hmore := List.length_pos_iff.2 hw
        simpa [ahead_length] using hmore
      exact ⟨a'.buffer.unread + rest'.length, by omega, hcursor', n', rest', fault?, hawaits',
        Nat.le_refl _⟩
    | noMatch _ _ hnone => rw [hresult] at hnone; cases hnone
  · obtain ⟨-, rfl⟩ := ha.unique hattempts
    rw [hr] at hfailed
    cases hfailed

end

end Buffer

namespace Scanner

/-- A call that comes to a token uses up a byte of what is left. -/
theorem Returns.left [Supply σ] {sc : Scanner σ} {n size : Nat} {token : Token}
    {step : Except ScanError (Option Token) × Scanner σ} (h : sc.Returns n step)
    (hr : step.1 = .ok (some token)) (hleft : sc.buffer.Left size) :
    ∃ left < size, step.2.buffer.Left left := by
  cases h with
  | finished => cases hr
  | searched _ _ ha =>
    rw [conclude_fst] at hr
    rw [conclude_buffer]
    exact hleft.attempts ha hr
  | stopped => cases hr
  | resumed _ _ hb ha =>
    rw [conclude_fst] at hr
    rw [conclude_buffer]
    exact (hleft.skipByte hb).attempts ha hr

section
variable [Source σ] {sc last : Scanner σ} {size : Nat}

/-- With more calls than there are bytes left, the program collects all tokens up to the end of the
stream or to an error. -/
theorem collects_collectOnto (found : Array (Token × Bytes)) {count : Nat}
    (hleft : sc.buffer.Left size) (hcount : size < count) :
    ∃ result, sc.Collects result (sc.collectOnto found count).2 ∧
      (sc.collectOnto found count).1 = result.map (found.toList ++ ·) := by
  induction count generalizing sc size found with
  | zero => omega
  | succ count ih =>
    obtain ⟨n, hnext⟩ := sc.returns_next
    rw [collectOnto, nextWithBytes_eq]
    rcases heq : sc.next with ⟨e | _ | token, sc'⟩ <;> rw [heq] at hnext
    · exact ⟨_, .failed hnext, rfl⟩
    · exact ⟨_, .ended hnext, by simp [answerOf, Except.map]⟩
    · obtain ⟨left, hlt, hleft'⟩ := hnext.left rfl hleft
      obtain ⟨result, hcollects, hresult⟩ := ih (found.push (token, sc'.lexeme)) hleft' (by omega)
      refine ⟨_, .token hnext hcollects, hresult.trans ?_⟩
      cases result <;> simp [Except.map]

/-- The program collects the tokens of a run of calls. -/
theorem collect_eq_iff (hb : sc.buffer.Sound) {result : Except ScanError (List (Token × Bytes))} :
    sc.collect = (result, last) ↔ sc.Gathers result last := by
  have hleft := Buffer.left_of_source hb.cursor_le
  have hbound : sc.buffer.unread + Source.capacity sc.buffer.source < sc.answerBound := by
    rw [answerBound]
    omega
  obtain ⟨found, hcollects, hfound⟩ :=
    collects_collectOnto #[] hleft hbound
  have hcollect : found = sc.collect.1 := by
    rw [collect, hfound]
    cases found <;> rfl
  rw [hcollect] at hcollects
  rw [← collects_iff_gathers]
  constructor
  · intro heq
    have hcollects' : sc.Collects sc.collect.1 sc.collect.2 := hcollects
    rwa [heq] at hcollects'
  · intro h
    obtain ⟨rfl, rfl⟩ := hcollects.unique h
    rfl

/-- Every number of calls comes to answers. -/
theorem calls_past (k : Nat) :
    ∃ n, sc.Calls n ((List.range k).map fun i => (sc.past i).nextWithBytes.1) (sc.past k) := by
  induction k generalizing sc with
  | zero => exact ⟨0, .nil⟩
  | succ k ih =>
    obtain ⟨n, hnext⟩ := sc.returns_next
    obtain ⟨m, hcalls⟩ := @ih sc.next.2
    have hrun := Calls.cons hnext hcalls
    rw [List.range_succ_eq_map, List.map_cons, List.map_map]
    exact ⟨n + m, hrun⟩

end

/-! ## Every run of calls -/

/-- What is so of all runs of calls of a scanner that is not reopened on the way. -/
structure Orderly [Supply σ] (sc : Scanner σ) : Prop where
  succession : ∀ n answers last, sc.Calls n answers last → Succession sc.config.recovery answers
  one_error : sc.config.recovery = .abort → ∀ n answers last, sc.Calls n answers last →
    (answers.filterMap error?).length ≤ 1
  /-- Behind an answer that closes the scan calls ask for nothing and leave everything as it is. -/
  closed : ∀ n before answer after last, sc.Calls n (before ++ answer :: after) last →
    Closes sc.config.recovery answer →
      sc.Calls n (before ++ [answer]) last ∧ after = List.replicate after.length (.ok none) ∧
        ∀ (ask : Supply σ) k step, @Returns σ ask last k step ↔ k = 0 ∧ step = (.ok none, last)
  /-- A scan that recovers goes on behind the byte that no rule matched. -/
  open_of_noMatch : sc.config.recovery = .resync → ∀ n before offset last,
    sc.Calls n (before ++ [.error (.noMatch offset)]) last →
      last.finished = false ∧ last.skipFirst = true
  collects : ∀ result last, sc.Collects result last ↔ sc.Gathers result last

theorem orderly [Supply σ] (sc : Scanner σ) : sc.Orderly where
  succession _ _ _ h := h.succession
  one_error hrec _ _ _ h := h.succession.errors_le_one hrec
  closed n before answer after last h hcloses := by
    obtain ⟨hcalls, hfin, hover⟩ := h.closed hcloses
    exact ⟨hcalls, hover, fun ask => @Returns.iff_of_finished σ ask last hfin⟩
  open_of_noMatch hrec n before offset last h := by
    cases h.leaves with
    | skipped _ _ hskip hfin => exact ⟨hfin, hskip⟩
    | closed hcloses => cases hcloses with | unmatched hrec' => rw [hrec] at hrec'; cases hrec'
  collects _ _ := collects_iff_gathers

/-- **The shape of every run of calls.** From a state of the tables, on every supply and behind
every session of requests, the answers follow one another in order, and behind one that closes the
scan nothing moves until the scan is reopened. On a source every number of calls comes to answers,
and the tokens that the program collects, or the error that it stops at, are those of such a run,
with the scanner as the last call of the run leaves it. -/
theorem calls_orderly (t : Table) (config : Config) (hstate : config.initialState < t.size) :
    (∀ (σ : Type) [Supply σ] (b : Buffer σ), ∃ sc, Scanner.new t b config = .ok sc ∧
        ∀ requests errors sc', sc.Session requests errors sc' →
          sc'.config = config ∧ sc'.Orderly) ∧
      ∀ (σ : Type) [Source σ] (b : Buffer σ), b.Sound → ∃ sc, Scanner.new t b config = .ok sc ∧
        ∀ requests errors sc', sc.Session requests errors sc' →
          (∀ k, ∃ n, sc'.Calls n ((List.range k).map fun i => (sc'.past i).nextWithBytes.1)
            (sc'.past k)) ∧
          ∀ result last, sc'.collect = (result, last) ↔ sc'.Gathers result last := by
  refine ⟨fun σ _ b => ⟨_, new_eq hstate b, fun requests errors sc' h => ⟨?_, orderly sc'⟩⟩,
    fun σ _ b hb => ⟨_, new_eq hstate b, fun requests errors sc' h => ⟨calls_past, ?_⟩⟩⟩
  · exact h.config
  · intro result last
    exact collect_eq_iff (h.sound hb)

/-- Byte 1 fails, and the call behind it comes to the token of byte 0. Collecting stops at the
failure, with the scan still open. -/
theorem calls_orderly_backingOff :
    0 < Table.backingOff.size ∧ (Buffer.ofBytes [1, 0]).Sound ∧
      ∃ sc, Scanner.new Table.backingOff (.ofBytes [1, 0]) { recovery := .resync } = .ok sc ∧
        sc.Session [] [] sc ∧ sc.Orderly ∧
        (∃ n last,
          sc.Calls n [.error (.noMatch 0), .ok (some (⟨7, ⟨1, 2⟩⟩, [0])), .ok none] last ∧
            last.finished = true) ∧
        ∃ last, sc.collect = (.error (.noMatch 0), last) ∧ last.finished = false := by
  have hstate : 0 < Table.backingOff.size := by decide
  have hb : (Buffer.ofBytes [1, 0]).Sound := Buffer.sound_ofBytes _
  obtain ⟨hall, hsource⟩ := calls_orderly Table.backingOff { recovery := .resync } hstate
  obtain ⟨sc, hnew, horderly⟩ := hall Exhausted (.ofBytes [1, 0])
  obtain ⟨sc', hnew', hcollect⟩ := hsource Exhausted (.ofBytes [1, 0]) hb
  cases hnew
  cases hnew'
  let skipped : Buffer Exhausted :=
    { content := #[1, 0], start := 1, cursor := 1, lastMatchEnd := 1, atEnd := true
      source := .exhausted }
  let matched : Buffer Exhausted :=
    { content := #[1, 0], start := 1, cursor := 2, lastMatchEnd := 2, matchedRule := some 7
      atEnd := true, source := .exhausted }
  let sc : Scanner Exhausted :=
    { table := Table.backingOff, buffer := .ofBytes [1, 0], config := { recovery := .resync } }
  let failed : Scanner Exhausted := { sc with skipFirst := true }
  let found : Scanner Exhausted :=
    { sc with buffer := matched, journal := #[.skipped 0, .token 7 1 2] }
  have hfirst : Table.backingOff.walk 0 (Buffer.ofBytes [1, 0]) =
      ((Except.error (.noMatch 0) : Except ScanError Nat).map .matched, Buffer.ofBytes [1, 0]) :=
    (Table.walk_eq _ _ _).trans rfl
  have hsecond : Table.backingOff.walk 0 skipped =
      ((Except.ok 7 : Except ScanError Nat).map .matched, matched) :=
    (Table.walk_eq _ _ _).trans rfl
  have hattempt : Table.backingOff.Attempts 0 (Buffer.ofBytes [1, 0]) 0 _ :=
    .walked (.ready (by decide)) rfl (.settled hfirst)
  have hready : skipped.openToken.Fills 0 (.ok (), skipped) := .ready (by decide)
  have hattempt' : Table.backingOff.Attempts 0 skipped 0 _ := .walked hready rfl (.settled hsecond)
  have hover : Table.backingOff.Attempts 0 matched 0 _ := .ended (.ready (by decide)) rfl
  have hfailed : sc.Returns 0 (sc.conclude _) := .searched rfl rfl hattempt
  have hfound : failed.Returns _ ((failed.resumeOn skipped).conclude _) :=
    .resumed rfl rfl rfl hattempt'
  have hended : found.Returns 0 (found.conclude _) := .searched rfl rfl hover
  have hgathers : sc.Gathers (.error (.noMatch 0)) _ := .failed [] (.one hfailed)
  exact ⟨hstate, hb, sc, rfl, .nil, (horderly [] [] sc .nil).2,
    ⟨_, _, .cons hfailed (.cons hfound (.one hended)), rfl⟩, _,
    ((hcollect [] [] sc .nil).2 _ _).2 hgathers, rfl⟩

end Scanner

end CombLexer
