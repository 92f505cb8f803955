/-
What a scanner answers, without a buffer.

A reading is a scan of a text that is all there: an offset, the text from there
on, and the two flags of a scanner. Its steps know neither positions nor
refills, and `Reading.Advanced` lists what one can come to. `Scanner.Shows`
relates a scanner to the reading of what its source delivers, and `Shows.next`
and `Shows.resync` say that every call keeps the relation and gives the answer
of the reading.
-/
import CombLexer.Proofs.Scan.Search

namespace CombLexer

/-- A scan of a text that is all there. -/
structure Reading where
  offset : Nat
  ahead : Bytes
  /-- Whether one byte is passed over before the next token. -/
  skipFirst : Bool := false
  finished : Bool := false

namespace Reading

/-- Passes over the next `n` bytes, or all that are left. -/
def pass (r : Reading) (n : Nat) : Reading :=
  { r with offset := r.offset + (r.ahead.take n).length, ahead := r.ahead.drop n }

/-- Looks for a token: the longest match on the text, with its bytes. -/
def scan (t : Table) (config : Config) (r : Reading) :
    Except ScanError (Option (Token × Bytes)) × Reading :=
  if r.ahead = [] then (.ok none, { r with finished := true })
  else
    match t.longest? config.initialState r.ahead with
    | some m =>
      (.ok (some (⟨m.rule, ⟨r.offset, r.offset + m.length⟩⟩, r.ahead.take m.length)),
        r.pass m.length)
    | none =>
      (.error (.noMatch r.offset),
        if config.recovery = .resync then { r with skipFirst := true }
        else { r with finished := true })

theorem scan_over {t : Table} {config : Config} {r : Reading} (h : r.ahead = []) :
    r.scan t config = (.ok none, { r with finished := true }) :=
  if_pos h

theorem scan_token {t : Table} {config : Config} {r : Reading} {m : Match} (h : r.ahead ≠ [])
    (hm : t.longest? config.initialState r.ahead = some m) :
    r.scan t config =
      (.ok (some (⟨m.rule, ⟨r.offset, r.offset + m.length⟩⟩, r.ahead.take m.length)),
        r.pass m.length) := by
  rw [scan, if_neg h, hm]

theorem scan_noMatch {t : Table} {config : Config} {r : Reading} (h : r.ahead ≠ [])
    (hm : t.longest? config.initialState r.ahead = none) :
    r.scan t config =
      (.error (.noMatch r.offset),
        if config.recovery = .resync then { r with skipFirst := true }
        else { r with finished := true }) := by
  rw [scan, if_neg h, hm]

/-- The reading from which the next token is looked for. -/
def resumed (r : Reading) : Reading :=
  if r.skipFirst then { r.pass 1 with skipFirst := false } else r

/-- The next token with its bytes, nothing at the end of the text, or an error. -/
def next (t : Table) (config : Config) (r : Reading) :
    Except ScanError (Option (Token × Bytes)) × Reading :=
  if r.finished then (.ok none, r) else r.resumed.scan t config

@[simp] theorem resumed_skipFirst (r : Reading) : r.resumed.skipFirst = false := by
  unfold resumed
  split
  · rfl
  · next hskip => exact Bool.eq_false_iff.2 hskip

@[simp] theorem resumed_finished (r : Reading) : r.resumed.finished = r.finished := by
  unfold resumed
  split <;> rfl

theorem resumed_of_not_skipFirst {r : Reading} (h : r.skipFirst = false) : r.resumed = r :=
  if_neg (by simp [h])

theorem next_of_not_finished {t : Table} {config : Config} {r : Reading} (h : r.finished = false) :
    r.next t config = r.resumed.scan t config :=
  if_neg (by simp [h])

/-- What the next answer of a reading can be, and the reading behind it. -/
inductive Advanced (t : Table) (config : Config) (r : Reading) :
    Except ScanError (Option (Token × Bytes)) × Reading → Prop
  | finished (hfin : r.finished = true) : Advanced t config r (.ok none, r)
  | ended (hfin : r.finished = false) (hw : r.resumed.ahead = []) :
      Advanced t config r (.ok none, { r.resumed with finished := true })
  | token {m : Match} (hfin : r.finished = false) (hw : r.resumed.ahead ≠ [])
      (hm : t.longest? config.initialState r.resumed.ahead = some m) :
      Advanced t config r
        (.ok (some (⟨m.rule, ⟨r.resumed.offset, r.resumed.offset + m.length⟩⟩,
          r.resumed.ahead.take m.length)), r.resumed.pass m.length)
  | skipped (hfin : r.finished = false) (hw : r.resumed.ahead ≠ [])
      (hm : t.longest? config.initialState r.resumed.ahead = none)
      (hrec : config.recovery = .resync) :
      Advanced t config r (.error (.noMatch r.resumed.offset), { r.resumed with skipFirst := true })
  | aborted (hfin : r.finished = false) (hw : r.resumed.ahead ≠ [])
      (hm : t.longest? config.initialState r.resumed.ahead = none)
      (hrec : config.recovery ≠ .resync) :
      Advanced t config r (.error (.noMatch r.resumed.offset), { r.resumed with finished := true })

theorem next_spec (t : Table) (config : Config) (r : Reading) :
    Advanced t config r (r.next t config) := by
  cases hfin : r.finished with
  | true =>
    rw [next, if_pos hfin]
    exact .finished hfin
  | false =>
    rw [next_of_not_finished hfin]
    by_cases hw : r.resumed.ahead = []
    · rw [scan_over hw]
      exact .ended hfin hw
    · cases hm : t.longest? config.initialState r.resumed.ahead with
      | some m =>
        rw [scan_token hw hm]
        exact .token hfin hw hm
      | none =>
        rw [scan_noMatch hw hm]
        by_cases hrec : config.recovery = .resync
        · rw [if_pos hrec]
          exact .skipped hfin hw hm hrec
        · rw [if_neg hrec]
          exact .aborted hfin hw hm hrec

theorem next_resumed {t : Table} {config : Config} {r : Reading} (hfin : r.finished = false) :
    r.resumed.next t config = r.next t config := by
  have hfin' : r.resumed.finished = false := r.resumed_finished.trans hfin
  rw [next_of_not_finished hfin, next_of_not_finished hfin',
    resumed_of_not_skipFirst r.resumed_skipFirst]

/-- With a byte to pass over, a reading resumes behind it. -/
theorem resumed_of_skipFirst {r : Reading} (hskip : r.skipFirst = false) :
    ({ r with skipFirst := true } : Reading).resumed = r.pass 1 := by
  simp [resumed, pass, hskip]

/-- Passes over one byte and reopens the scan. The answer says whether there was a byte. -/
def resync (r : Reading) : Except ScanError Bool × Reading :=
  (.ok !r.ahead.isEmpty, { r.pass 1 with skipFirst := false, finished := false })

end Reading

namespace Scanner

variable {σ : Type}

/-- A scanner is about to give the answers of a reading: it has the same tables, setup and flags,
and its cursor stands where the reading does. With a byte to pass over, that byte is at hand, at
the start of the token that failed. -/
structure Shows [Supply σ] (sc : Scanner σ) (t : Table) (config : Config) (r : Reading) : Prop where
  table : sc.table = t
  config : sc.config = config
  skipFirst : sc.skipFirst = r.skipFirst
  finished : sc.finished = r.finished
  stands : sc.buffer.Stands r.offset r.ahead
  failed : r.skipFirst = true → sc.buffer.startOffset = r.offset ∧ sc.buffer.peek.isSome

section
variable [Source σ] {sc : Scanner σ} {t : Table} {config : Config} {r : Reading}

/-- A fresh scanner on a buffer shows the reading of all that the buffer has before it. -/
theorem shows_new {b : Buffer σ} {w : Bytes} (h : b.Stands 0 w) :
    Shows { table := t, buffer := b, config } t config ⟨0, w, false, false⟩ :=
  ⟨rfl, rfl, rfl, rfl, h, nofun⟩

/-- What is asked of a step of a scanner, by the step of the reading it shows. -/
structure Follows (step : Except ScanError (Option Token) × Scanner σ) (t : Table) (config : Config)
    (step' : Except ScanError (Option (Token × Bytes)) × Reading) : Prop where
  result : step.1 = step'.1.map (Option.map Prod.fst)
  lexeme : ∀ token, step'.1 = .ok (some token) → step.2.lexeme = token.2
  shows : step.2.Shows t config step'.2

/-- What a search comes to on the text of a reading is taken in as the reading takes it in. -/
theorem Shows.conclude (h : sc.Shows t config r) (hskip : r.skipFirst = false)
    (hfin : r.finished = false) {a : Attempt σ}
    (ha : Buffer.Attempted t config.initialState r.offset r.ahead a) :
    Follows (sc.conclude a) t config (r.scan t config) := by
  obtain ⟨rfl, rfl, hskip', hfin', -, -⟩ := h
  cases ha with
  | ended hw hr hb =>
    rw [Reading.scan_over hw, conclude_of_ok hr]
    exact ⟨rfl, nofun, rfl, rfl, hskip', rfl, hw ▸ hb, fun hs => by simp [hskip] at hs⟩
  | @token m hw hm hr hb hlex =>
    have hlen : (r.ahead.take m.length).length = m.length :=
      List.length_take_of_le (Table.length_le_of_longest? hm)
    rw [Reading.scan_token hw hm, conclude_of_ok hr]
    refine ⟨rfl, ?_, rfl, rfl, hskip', hfin.symm, ?_, fun hs => ?_⟩
    · rintro token htoken
      cases htoken
      exact hlex
    · show Buffer.Stands _ (r.offset + (r.ahead.take m.length).length) (r.ahead.drop m.length)
      rw [hlen]
      exact hb
    · have hs' : r.skipFirst = true := hs
      rw [hskip] at hs'
      cases hs'
  | noMatch hw hm hr hb hstart hpeek =>
    rw [Reading.scan_noMatch hw hm, conclude_of_noMatch hr, hskip', hskip, hfin', hfin]
    by_cases hrec : sc.config.recovery = .resync
    · rw [if_pos hrec]
      exact ⟨rfl, nofun, rfl, rfl, by simp [hrec], by simp [hrec], hb, fun _ => ⟨hstart, hpeek⟩⟩
    · rw [if_neg hrec]
      exact ⟨rfl, nofun, rfl, rfl, by simp [hrec], by simp [hrec], hb, nofun⟩

theorem Shows.scanOn (h : sc.Shows t config r) (hskip : r.skipFirst = false)
    (hfin : r.finished = false) : Follows sc.scanOn t config (r.scan t config) := by
  rw [scanOn_eq, h.table, h.config]
  exact h.conclude hskip hfin (Buffer.attempt_spec t config.initialState h.stands)

theorem Shows.next (h : sc.Shows t config r) : Follows sc.next t config (r.next t config) := by
  unfold Scanner.next Reading.next Reading.resumed
  rw [h.finished, h.skipFirst]
  cases hfin : r.finished with
  | true => exact ⟨rfl, nofun, h⟩
  | false =>
    cases hskip : r.skipFirst with
    | false => exact h.scanOn hskip hfin
    | true =>
      obtain ⟨b', hskipByte, hstands⟩ := Buffer.skipByte_spec h.stands
      have hfin' : sc.finished = false := h.finished.trans hfin
      simp only [Bool.false_eq_true, if_false, if_true, hskipByte]
      refine Shows.scanOn ?_ rfl hfin
      exact ⟨h.table, h.config, rfl, hfin.symm, hstands, nofun⟩

theorem Shows.nextWithBytes (h : sc.Shows t config r) :
    sc.nextWithBytes.1 = (r.next t config).1 ∧
      sc.nextWithBytes.2.Shows t config (r.next t config).2 := by
  obtain ⟨hresult, hlex, hshows⟩ := h.next
  refine ⟨?_, hshows⟩
  have heq : sc.nextWithBytes.1 =
      sc.next.1.map fun token? => token?.map fun token => (token, sc.next.2.lexeme) := rfl
  rw [heq, hresult]
  rcases hnext : (r.next t config).1 with e | token?
  · rfl
  · cases token? with
    | none => rfl
    | some token => rw [hlex token hnext]; rfl

theorem Shows.resync (h : sc.Shows t config r) :
    sc.resync.1 = r.resync.1 ∧ sc.resync.2.Shows t config r.resync.2 := by
  obtain ⟨b', hskip, hstands⟩ := Buffer.skipByte_spec h.stands
  have hresync : sc.resync =
      (.ok !r.ahead.isEmpty, { sc with buffer := b', skipFirst := false, finished := false }) := by
    simp [Scanner.resync, hskip]
  rw [hresync]
  exact ⟨rfl, h.table, h.config, rfl, rfl, hstands, nofun⟩

end

end Scanner

end CombLexer
