/-
Scanning on any supply.

A scanner can work on a supply that never ends, and then a call need not come
to an answer. So what a call answers is a relation here: `Scanner.Returns` says
that the next call comes to an answer after so many refills, and `Gives` and
`Ends` say it of the answers to several calls and of all answers up to the end
of the stream. A call comes to one answer at most, after one number of refills
(`Returns.unique`, `Ends.unique`), and on a source it is the answer of
`Scanner.next` (`returns_iff`).
-/
import CombLexer.Scan.Scanner

namespace CombLexer

variable {σ : Type}

/-! ## Refills -/

namespace Buffer

/-- Waiting for a byte comes to an end after so many refills. -/
inductive Fills [Supply σ] : Buffer σ → Nat → Except ScanError Unit × Buffer σ → Prop
  | ready {b : Buffer σ} (h : ¬ (b.peek = none ∧ b.atEnd = false)) : Fills b 0 (.ok (), b)
  | failed {b b' : Buffer σ} {e : ScanError} (h : b.peek = none ∧ b.atEnd = false)
      (hr : b.refill = (.error e, b')) : Fills b 1 (.error e, b')
  | again {b b' : Buffer σ} {n : Nat} {step : Except ScanError Unit × Buffer σ}
      (h : b.peek = none ∧ b.atEnd = false) (hr : b.refill = (.ok (), b'))
      (hrest : Fills b' n step) : Fills b (n + 1) step

theorem Fills.unique [Supply σ] {b : Buffer σ} {n n' : Nat}
    {step step' : Except ScanError Unit × Buffer σ} (h : b.Fills n step) (h' : b.Fills n' step') :
    n' = n ∧ step' = step := by
  induction h generalizing n' with
  | ready hnot =>
    cases h' with
    | ready => exact ⟨rfl, rfl⟩
    | failed hbare => exact absurd hbare hnot
    | again hbare => exact absurd hbare hnot
  | failed hbare hr =>
    cases h' with
    | ready hnot => exact absurd hbare hnot
    | failed _ hr' => rw [hr] at hr'; cases hr'; exact ⟨rfl, rfl⟩
    | again _ hr' => rw [hr] at hr'; cases hr'
  | again hbare hr _ ih =>
    cases h' with
    | ready hnot => exact absurd hbare hnot
    | failed _ hr' => rw [hr] at hr'; cases hr'
    | again _ hr' hrest =>
      rw [hr] at hr'
      cases hr'
      obtain ⟨rfl, rfl⟩ := ih hrest
      exact ⟨rfl, rfl⟩

theorem fills_fill [Source σ] (b : Buffer σ) : ∃ n, b.Fills n b.fill := by
  fun_induction fill b with
  | case1 b hbare e b' hr => exact ⟨1, .failed hbare hr⟩
  | case2 b hbare b' hr ih =>
    obtain ⟨n, hn⟩ := ih
    exact ⟨n + 1, .again hbare hr hn⟩
  | case3 b hnot => exact ⟨0, .ready hnot⟩

/-- How many refills passing over a byte takes. -/
def asksToSkip (b : Buffer σ) : Nat := if b.cursor = b.content.size ∧ b.atEnd = false then 1 else 0

end Buffer

/-! ## Walks and searches -/

theorem Outcome.map_matched_inj {result result' : Except ScanError Nat}
    (h : result.map matched = result'.map matched) : result = result' := by
  cases result <;> cases result' <;> cases h <;> rfl

/-- A walk with its refills comes to an end after so many of them. -/
inductive Table.Drives [Supply σ] (t : Table) : Nat → Buffer σ → Nat → Drive σ → Prop
  | settled {s : Nat} {b b' : Buffer σ} {result : Except ScanError Nat}
      (hw : t.walk s b = (result.map .matched, b')) : Drives t s b 0 ⟨[], result, b'⟩
  | failed {s s' : Nat} {b b' b'' : Buffer σ} {e : ScanError}
      (hw : t.walk s b = (.ok (.suspended s'), b')) (hr : b'.refill = (.error e, b'')) :
      Drives t s b 1 ⟨[⟨b'.cursorOffset, s'⟩], .error e, b''⟩
  | again {s s' n : Nat} {b b' b'' : Buffer σ} {d : Drive σ}
      (hw : t.walk s b = (.ok (.suspended s'), b')) (hr : b'.refill = (.ok (), b''))
      (hrest : Drives t s' b'' n d) : Drives t s b (n + 1) (d.behind ⟨b'.cursorOffset, s'⟩)

theorem Table.Drives.unique [Supply σ] {t : Table} {s n n' : Nat} {b : Buffer σ} {d d' : Drive σ}
    (h : t.Drives s b n d) (h' : t.Drives s b n' d') : n' = n ∧ d' = d := by
  induction h generalizing n' d' with
  | @settled s b b' result hw =>
    cases h' with
    | settled hw' =>
      rw [hw, Prod.mk.injEq] at hw'
      obtain ⟨hresult, rfl⟩ := hw'
      obtain rfl := Outcome.map_matched_inj hresult
      exact ⟨rfl, rfl⟩
    | failed hw' => rw [hw] at hw'; cases result <;> cases hw'
    | again hw' => rw [hw] at hw'; cases result <;> cases hw'
  | failed hw hr =>
    cases h' with
    | @settled _ _ _ result hw' => rw [hw] at hw'; cases result <;> cases hw'
    | failed hw' hr' =>
      rw [hw] at hw'
      cases hw'
      rw [hr] at hr'
      cases hr'
      exact ⟨rfl, rfl⟩
    | again hw' hr' =>
      rw [hw] at hw'
      cases hw'
      rw [hr] at hr'
      cases hr'
  | again hw hr _ ih =>
    cases h' with
    | @settled _ _ _ result hw' => rw [hw] at hw'; cases result <;> cases hw'
    | failed hw' hr' =>
      rw [hw] at hw'
      cases hw'
      rw [hr] at hr'
      cases hr'
    | again hw' hr' hrest =>
      rw [hw] at hw'
      cases hw'
      rw [hr] at hr'
      cases hr'
      obtain ⟨rfl, rfl⟩ := ih hrest
      exact ⟨rfl, rfl⟩

theorem Table.drives_drive [Source σ] (t : Table) (s : Nat) (b : Buffer σ) :
    ∃ n, t.Drives s b n (t.drive s b) := by
  fun_induction Table.drive t s b with
  | case1 s b e b' hw =>
    have hwalk : t.walk s b = ((Except.error e : Except ScanError Nat).map .matched, b') := hw
    exact ⟨0, .settled hwalk⟩
  | case2 s b rule b' hw =>
    have hwalk : t.walk s b = ((Except.ok rule : Except ScanError Nat).map .matched, b') := hw
    exact ⟨0, .settled hwalk⟩
  | case3 s b s' b' hw stop e b'' hr => exact ⟨1, .failed hw hr⟩
  | case4 s b s' b' hw stop b'' hr ih =>
    obtain ⟨n, hn⟩ := ih
    exact ⟨n + 1, .again hw hr hn⟩

/-- What a search for a token comes to by its walk. -/
def Drive.toAttempt (d : Drive σ) : Attempt σ :=
  let refills := d.stops.map fun stop => Note.refill stop.offset stop.state
  match d.result with
  | .error e => ⟨.error e, refills, d.buffer⟩
  | .ok rule =>
    ⟨.ok (some ⟨rule, d.buffer.span⟩),
      refills ++ [.token rule d.buffer.span.start d.buffer.span.stop], d.buffer⟩

theorem Drive.toAttempt_result {d : Drive σ} {e : ScanError} (h : d.result = .error e) :
    d.toAttempt.result = .error e := by
  simp only [toAttempt, h]

theorem Drive.toAttempt_buffer (d : Drive σ) : d.toAttempt.buffer = d.buffer := by
  unfold toAttempt
  cases d.result <;> rfl

/-- A search for a token comes to an end after so many refills. -/
inductive Table.Attempts [Supply σ] (t : Table) (initialState : Nat) :
    Buffer σ → Nat → Attempt σ → Prop
  | failed {b b' : Buffer σ} {n : Nat} {e : ScanError} (hf : b.openToken.Fills n (.error e, b')) :
      Attempts t initialState b n ⟨.error e, [], b'⟩
  | ended {b b' : Buffer σ} {n : Nat} (hf : b.openToken.Fills n (.ok (), b'))
      (hdone : b'.isDone = true) : Attempts t initialState b n ⟨.ok none, [], b'⟩
  | walked {b b' : Buffer σ} {n k : Nat} {d : Drive σ} (hf : b.openToken.Fills n (.ok (), b'))
      (hdone : b'.isDone = false) (hd : t.Drives initialState b' k d) :
      Attempts t initialState b (n + k) d.toAttempt

theorem Table.Attempts.unique [Supply σ] {t : Table} {s n n' : Nat} {b : Buffer σ}
    {a a' : Attempt σ} (h : t.Attempts s b n a) (h' : t.Attempts s b n' a') :
    n' = n ∧ a' = a := by
  cases h with
  | failed hf =>
    cases h' with
    | failed hf' => obtain ⟨rfl, heq⟩ := hf.unique hf'; cases heq; exact ⟨rfl, rfl⟩
    | ended hf' => cases (hf.unique hf').2
    | walked hf' => cases (hf.unique hf').2
  | ended hf hdone =>
    cases h' with
    | failed hf' => cases (hf.unique hf').2
    | ended hf' => obtain ⟨rfl, heq⟩ := hf.unique hf'; cases heq; exact ⟨rfl, rfl⟩
    | walked hf' hdone' =>
      obtain ⟨rfl, heq⟩ := hf.unique hf'
      cases heq
      rw [hdone] at hdone'
      cases hdone'
  | walked hf hdone hd =>
    cases h' with
    | failed hf' => cases (hf.unique hf').2
    | ended hf' hdone' =>
      obtain ⟨rfl, heq⟩ := hf.unique hf'
      cases heq
      rw [hdone] at hdone'
      cases hdone'
    | walked hf' hdone' hd' =>
      obtain ⟨rfl, heq⟩ := hf.unique hf'
      cases heq
      obtain ⟨rfl, rfl⟩ := hd.unique hd'
      exact ⟨rfl, rfl⟩

theorem Table.attempt_of_walked [Source σ] {t : Table} {s : Nat} {b b' : Buffer σ}
    (hf : b.openToken.fill = (.ok (), b')) (hdone : b'.isDone = false) :
    t.attempt s b = (t.drive s b').toAttempt := by
  unfold Table.attempt
  rw [hf]
  exact if_neg fun hdone' => Bool.noConfusion (hdone'.symm.trans hdone)

theorem Table.attempts_attempt [Source σ] (t : Table) (s : Nat) (b : Buffer σ) :
    ∃ n, t.Attempts s b n (t.attempt s b) := by
  obtain ⟨n, hfill⟩ := b.openToken.fills_fill
  rcases hf : b.openToken.fill with ⟨e | _, b'⟩ <;> rw [hf] at hfill
  · have heq : t.attempt s b = ⟨.error e, [], b'⟩ := by simp only [Table.attempt, hf]
    rw [heq]
    exact ⟨n, .failed hfill⟩
  · cases hdone : b'.isDone with
    | true =>
      have heq : t.attempt s b = ⟨.ok none, [], b'⟩ := by simp [Table.attempt, hf, hdone]
      rw [heq]
      exact ⟨n, .ended hfill hdone⟩
    | false =>
      obtain ⟨k, hdrive⟩ := t.drives_drive s b'
      rw [Table.attempt_of_walked hf hdone]
      exact ⟨n + k, .walked hfill hdone hdrive⟩

/-! ## Calls -/

namespace Scanner

/-- Takes the outcome of a search in. -/
def conclude (sc : Scanner σ) (a : Attempt σ) : Except ScanError (Option Token) × Scanner σ :=
  let sc := { sc with buffer := a.buffer, journal := sc.journal ++ a.notes }
  match a.result with
  | .ok token => (.ok token, { sc with finished := token.isNone })
  | .error e =>
    if continues sc.config e then (.error e, { sc with skipFirst := true })
    else (.error e, { sc with finished := true })

theorem conclude_fst (sc : Scanner σ) (a : Attempt σ) : (sc.conclude a).1 = a.result := by
  unfold conclude
  cases a.result with
  | ok token => rfl
  | error e => simp only [apply_ite Prod.fst, ite_self]

theorem conclude_buffer (sc : Scanner σ) (a : Attempt σ) : (sc.conclude a).2.buffer = a.buffer := by
  unfold conclude
  cases a.result with
  | ok token => rfl
  | error e =>
    by_cases hgoes : continues sc.config e = true
    · simp only [if_pos hgoes]
    · simp only [if_neg hgoes]

theorem conclude_of_ok {sc : Scanner σ} {a : Attempt σ} {token : Option Token}
    (h : a.result = .ok token) :
    sc.conclude a =
      (.ok token, { sc with
        buffer := a.buffer, journal := sc.journal ++ a.notes, finished := token.isNone }) := by
  simp only [conclude, h]

theorem conclude_of_noMatch {sc : Scanner σ} {a : Attempt σ} {offset : Nat}
    (h : a.result = .error (.noMatch offset)) :
    sc.conclude a =
      (.error (.noMatch offset), { sc with
        buffer := a.buffer
        journal := sc.journal ++ a.notes
        skipFirst := sc.skipFirst || sc.config.recovery = .resync
        finished := sc.finished || sc.config.recovery ≠ .resync }) := by
  by_cases hrec : sc.config.recovery = .resync <;>
    simp [conclude, h, continues, hrec]

theorem scanOn_eq [Source σ] (sc : Scanner σ) :
    sc.scanOn = sc.conclude (sc.table.attempt sc.config.initialState sc.buffer) := rfl

/-- The scanner behind the byte that it passes over before the next token. -/
def resumeOn (sc : Scanner σ) (b : Buffer σ) : Scanner σ :=
  { sc with
    buffer := b, skipFirst := false, journal := sc.journal.push (.skipped sc.buffer.startOffset) }

/-- The next call comes to an answer after so many refills. -/
inductive Returns [Supply σ] :
    Scanner σ → Nat → Except ScanError (Option Token) × Scanner σ → Prop
  | finished {sc : Scanner σ} (hfin : sc.finished = true) : Returns sc 0 (.ok none, sc)
  | searched {sc : Scanner σ} {n : Nat} {a : Attempt σ} (hfin : sc.finished = false)
      (hskip : sc.skipFirst = false)
      (ha : sc.table.Attempts sc.config.initialState sc.buffer n a) : Returns sc n (sc.conclude a)
  | stopped {sc : Scanner σ} {e : ScanError} {b : Buffer σ} (hfin : sc.finished = false)
      (hskip : sc.skipFirst = true) (hb : sc.buffer.skipByte = (.error e, b)) :
      Returns sc sc.buffer.asksToSkip
        (.error e, { sc with buffer := b, skipFirst := false, finished := true })
  | resumed {sc : Scanner σ} {n : Nat} {found : Bool} {b : Buffer σ} {a : Attempt σ}
      (hfin : sc.finished = false) (hskip : sc.skipFirst = true)
      (hb : sc.buffer.skipByte = (.ok found, b))
      (ha : sc.table.Attempts sc.config.initialState b n a) :
      Returns sc (sc.buffer.asksToSkip + n) ((sc.resumeOn b).conclude a)

theorem Returns.unique [Supply σ] {sc : Scanner σ} {n n' : Nat}
    {step step' : Except ScanError (Option Token) × Scanner σ} (h : sc.Returns n step)
    (h' : sc.Returns n' step') : n' = n ∧ step' = step := by
  cases h with
  | finished hfin =>
    cases h' with
    | finished => exact ⟨rfl, rfl⟩
    | searched hfin' => rw [hfin] at hfin'; cases hfin'
    | stopped hfin' => rw [hfin] at hfin'; cases hfin'
    | resumed hfin' => rw [hfin] at hfin'; cases hfin'
  | searched hfin hskip ha =>
    cases h' with
    | finished hfin' => rw [hfin] at hfin'; cases hfin'
    | searched _ _ ha' => obtain ⟨rfl, rfl⟩ := ha.unique ha'; exact ⟨rfl, rfl⟩
    | stopped _ hskip' => rw [hskip] at hskip'; cases hskip'
    | resumed _ hskip' => rw [hskip] at hskip'; cases hskip'
  | stopped hfin hskip hb =>
    cases h' with
    | finished hfin' => rw [hfin] at hfin'; cases hfin'
    | searched _ hskip' => rw [hskip] at hskip'; cases hskip'
    | stopped _ _ hb' => rw [hb] at hb'; cases hb'; exact ⟨rfl, rfl⟩
    | resumed _ _ hb' => rw [hb] at hb'; cases hb'
  | resumed hfin hskip hb ha =>
    cases h' with
    | finished hfin' => rw [hfin] at hfin'; cases hfin'
    | searched _ hskip' => rw [hskip] at hskip'; cases hskip'
    | stopped _ _ hb' => rw [hb] at hb'; cases hb'
    | resumed _ _ hb' ha' =>
      rw [hb] at hb'
      cases hb'
      obtain ⟨rfl, rfl⟩ := ha.unique ha'
      exact ⟨rfl, rfl⟩

theorem returns_next [Source σ] (sc : Scanner σ) : ∃ n, sc.Returns n sc.next := by
  have hsearch (sc' : Scanner σ) :
      ∃ n a, sc'.table.Attempts sc'.config.initialState sc'.buffer n a ∧
        sc'.scanOn = sc'.conclude a := by
    obtain ⟨n, ha⟩ := sc'.table.attempts_attempt sc'.config.initialState sc'.buffer
    exact ⟨n, _, ha, sc'.scanOn_eq⟩
  unfold next
  by_cases hfin : sc.finished = true
  · rw [if_pos hfin]
    exact ⟨0, .finished hfin⟩
  · rw [if_neg hfin]
    rw [Bool.not_eq_true] at hfin
    by_cases hskip : sc.skipFirst = true
    · rw [if_pos hskip]
      rcases hb : sc.buffer.skipByte with ⟨e | found, b⟩
      · exact ⟨_, .stopped hfin hskip hb⟩
      · obtain ⟨n, a, ha, heq⟩ := hsearch (sc.resumeOn b)
        have hreturns : sc.Returns _ ((sc.resumeOn b).conclude a) := .resumed hfin hskip hb ha
        rw [← heq] at hreturns
        exact ⟨_, hreturns⟩
    · rw [if_neg hskip]
      obtain ⟨n, a, ha, heq⟩ := hsearch sc
      rw [heq]
      exact ⟨n, .searched hfin (Bool.eq_false_iff.2 hskip) ha⟩

/-- On a source a call comes to the answer of `next`. -/
theorem returns_iff [Source σ] {sc : Scanner σ}
    {step : Except ScanError (Option Token) × Scanner σ} :
    (∃ n, sc.Returns n step) ↔ sc.next = step := by
  obtain ⟨n, hn⟩ := sc.returns_next
  constructor
  · rintro ⟨k, hk⟩
    exact (hk.unique hn).2
  · rintro rfl
    exact ⟨n, hn⟩

/-! ## Many answers -/

/-- Calls give these answers, of which none is the end of the stream, after so many refills. -/
inductive Gives [Supply σ] :
    Scanner σ → Nat → List (Except ScanError Token) → Scanner σ → Prop
  | nil {sc : Scanner σ} : Gives sc 0 [] sc
  | cons {sc sc' last : Scanner σ} {n k : Nat} {answer : Except ScanError Token}
      {answers : List (Except ScanError Token)} (h : sc.Returns n (answer.map some, sc'))
      (hrest : Gives sc' k answers last) : Gives sc (n + k) (answer :: answers) last

/-- These are all answers up to the end of the stream, and that is reached. -/
def Ends [Supply σ] (sc : Scanner σ) (n : Nat) (answers : List (Except ScanError Token))
    (last : Scanner σ) : Prop :=
  ∃ k m sc', n = k + m ∧ sc.Gives k answers sc' ∧ sc'.Returns m (.ok none, last)

section
variable [Supply σ] {sc sc' last : Scanner σ} {n k : Nat} {answer : Except ScanError Token}
  {answers : List (Except ScanError Token)}

theorem Returns.ends (h : sc.Returns n (.ok none, last)) : sc.Ends n [] last :=
  ⟨0, n, sc, (Nat.zero_add n).symm, .nil, h⟩

theorem Ends.cons (h : sc.Returns n (answer.map some, sc')) (hrest : sc'.Ends k answers last) :
    sc.Ends (n + k) (answer :: answers) last := by
  obtain ⟨i, j, sc'', rfl, hgives, hover⟩ := hrest
  exact ⟨n + i, j, sc'', (Nat.add_assoc n i j).symm, .cons h hgives, hover⟩

theorem map_some_inj {answer answer' : Except ScanError Token}
    (h : answer.map some = answer'.map some) : answer = answer' := by
  cases answer <;> cases answer' <;> cases h <;> rfl

theorem map_some_ne_over : answer.map some ≠ .ok none := by
  cases answer <;> nofun

theorem Ends.unique {n' : Nat} {answers' : List (Except ScanError Token)} {last' : Scanner σ}
    (h : sc.Ends n answers last) (h' : sc.Ends n' answers' last') :
    n' = n ∧ answers' = answers ∧ last' = last := by
  obtain ⟨k, m, sc₁, rfl, hgives, hover⟩ := h
  obtain ⟨k', m', sc₁', rfl, hgives', hover'⟩ := h'
  induction hgives generalizing k' answers' with
  | nil =>
    cases hgives' with
    | nil =>
      obtain ⟨rfl, heq⟩ := hover.unique hover'
      cases heq
      exact ⟨rfl, rfl, rfl⟩
    | cons hnext => exact absurd (congrArg Prod.fst (hover.unique hnext).2) map_some_ne_over
  | cons hnext hrest ih =>
    cases hgives' with
    | nil => exact absurd (congrArg Prod.fst (hover'.unique hnext).2) map_some_ne_over
    | cons hnext' hrest' =>
      obtain ⟨rfl, heq⟩ := hnext.unique hnext'
      rw [Prod.mk.injEq] at heq
      obtain ⟨hanswer, rfl⟩ := heq
      obtain rfl := map_some_inj hanswer
      obtain ⟨hcount, rfl, rfl⟩ := ih hover _ hrest'
      exact ⟨by omega, rfl, rfl⟩

end

end Scanner

end CombLexer
