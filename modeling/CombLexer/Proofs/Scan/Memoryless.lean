/-
A scanner keeps nothing of a token that it has answered.

Behind a token that ends at `k`, and behind the one byte that a scanner passes
over where no token begins, the reading that the scanner shows is that of a
fresh scanner on the rest of the text, `k` bytes further on in the stream
(`next_of_token`, `resumed_of_noMatch`). So the answers from there on are those
of the fresh scanner, shifted. Under `Recovery.resync` the results fall into
runs that each end with a failure, and each run is what `Recovery.abort` comes
to on the text from where the run begins (`results_eq_flatMap`).
-/
import CombLexer.Proofs.Scan.Shift

namespace CombLexer

/-- What a call has answered about the next token, if it has looked for one. -/
def Reply.answer? : Reply → Option (Except ScanError (Option Token))
  | next result => some result
  | nextWithBytes result => some (result.map (Option.map Prod.fst))
  | resync _ => none

/-- Where the next token is looked for behind a failure. -/
def behindFailure? : Except ScanError Token → Option Nat
  | .error (.noMatch k) => some (k + 1)
  | _ => none

/-- Where the runs begin that answers fall into: at an offset, and behind each failure. -/
def runStarts (offset : Nat) (answers : List (Except ScanError Token)) : List Nat :=
  offset :: answers.filterMap behindFailure?

namespace Reading

variable {t : Table} {config : Config} {r : Reading} {w : Bytes}

/-- A reading of a text is that of the rest of the text, further on in the stream. -/
theorem On.eq_shift (h : r.On w) (hskip : r.skipFirst = false) (hfin : r.finished = false) :
    r = (ofText (w.drop r.offset)).shift r.offset := by
  cases r
  cases hskip
  cases hfin
  simpa [ofText, shift] using h.ahead

/-- The answer of a reading, without the bytes of a token. -/
theorem next_of_answer? {c : Call} {answer : Except ScanError (Option Token)}
    (h : (r.call t config c).1.answer? = some answer) :
    (r.next t config).1.map (Option.map Prod.fst) = answer ∧
      (r.call t config c).2 = (r.next t config).2 := by
  cases c with
  | next => exact ⟨Option.some.inj h, rfl⟩
  | nextWithBytes => exact ⟨Option.some.inj h, rfl⟩
  | resync => cases h

/-- Behind a token there is the reading of what is left of the text. -/
theorem next_of_token (hon : r.On w) {token : Token}
    (h : (r.next t config).1.map (Option.map Prod.fst) = .ok (some token)) :
    (r.next t config).2 = (ofText (w.drop token.span.stop)).shift token.span.stop := by
  have hspec := r.next_spec t config
  have hon₀ := hon.resumed
  generalize r.next t config = step at h hspec ⊢
  cases hspec with
  | finished => cases h
  | ended => cases h
  | @token m hfin hw hm =>
    cases h
    have hoffset := pass_offset (Table.length_le_of_longest? hm)
    have heq := (hon₀.pass m.length).eq_shift r.resumed_skipFirst (r.resumed_finished.trans hfin)
    rwa [hoffset] at heq
  | skipped => cases h
  | aborted => cases h

/-- Behind a failure, the reading that is resumed is that of the text behind its byte. -/
theorem resumed_of_noMatch (hrec : config.recovery = .resync) (hon : r.On w) {k : Nat}
    (h : (r.next t config).1.map (Option.map Prod.fst) = .error (.noMatch k)) :
    (r.next t config).2.finished = false ∧
      (r.next t config).2.resumed = (ofText (w.drop (k + 1))).shift (k + 1) := by
  have hspec := r.next_spec t config
  have hon₀ := hon.resumed
  have hskip₀ := r.resumed_skipFirst
  have hfin₀ := r.resumed_finished
  generalize r.next t config = step at h hspec ⊢
  cases hspec with
  | finished => cases h
  | ended => cases h
  | token => cases h
  | skipped hfin hw =>
    cases h
    refine ⟨hfin₀.trans hfin, ?_⟩
    have hoffset := pass_offset (List.length_pos_iff.2 hw)
    have heq := (hon₀.pass 1).eq_shift hskip₀ (hfin₀.trans hfin)
    rw [hoffset] at heq
    exact (resumed_of_skipFirst hskip₀).trans heq
  | aborted _ _ _ hrec' => exact absurd hrec hrec'

/-- A call that does not itself pass over a byte resumes the reading first. -/
theorem replies_resumed (hfin : r.finished = false) {calls : List Call}
    (hcalls : calls.head? ≠ some .resync) :
    r.resumed.replies t config calls = r.replies t config calls := by
  cases calls with
  | nil => rfl
  | cons c calls =>
    have hcall : r.resumed.call t config c = r.call t config c := by
      cases c with
      | next => simp only [call, next_resumed hfin]
      | nextWithBytes => simp only [call, next_resumed hfin]
      | resync => exact absurd rfl hcalls
    simp only [replies, hcall]

/-! ## Runs -/

/-- What `Recovery.abort` comes to on a text from an offset on. -/
def runFrom (t : Table) (config : Config) (w : Bytes) (p : Nat) : List (Except ScanError Token) :=
  ((ofText (w.drop p)).shift p).results t { config with recovery := .abort }

theorem On.runFrom_eq (hon : r.On w) (hskip : r.skipFirst = false) (hfin : r.finished = false) :
    runFrom t config w r.offset = r.results t { config with recovery := .abort } := by
  rw [runFrom, ← hon.eq_shift hskip hfin]

/-- The results of a reading that recovers are those of the runs that they fall into. -/
theorem results_eq_flatMap (hrec : config.recovery = .resync) (hon : r.On w)
    (hskip : r.skipFirst = false) (hfin : r.finished = false) :
    r.results t config =
      (runStarts r.offset (r.results t config)).flatMap (runFrom t config w) := by
  -- A token goes on with the run that it stands in; a failure ends a run, and the next one begins.
  induction hleft : r.ahead.length using Nat.strongRecOn generalizing r with
  | _ left ih =>
    rw [runStarts, List.flatMap_cons, hon.runFrom_eq hskip hfin]
    by_cases hw : r.ahead = []
    · rw [results_over hskip hfin hw, results_over hskip hfin hw]
      rfl
    · have hpos := List.length_pos_iff.2 hw
      have hless (n : Nat) (hn : 1 ≤ n) : (r.pass n).ahead.length < left := by
        have hdrop : (r.pass n).ahead.length = r.ahead.length - n := List.length_drop
        omega
      cases hm : t.longest? config.initialState r.ahead with
      | some m =>
        have hon' := hon.pass m.length
        have hrest := ih _ (hless _ (Table.length_pos_of_longest? hw hm)) hon' hskip hfin rfl
        rw [runStarts, List.flatMap_cons, hon'.runFrom_eq hskip hfin] at hrest
        have habort : r.results t { config with recovery := .abort } = _ :=
          results_token hskip hfin hw hm
        rw [results_token hskip hfin hw hm, habort]
        exact congrArg _ hrest
      | none =>
        have hrest := ih _ (hless 1 (Nat.le_refl 1)) (hon.pass 1) hskip hfin rfl
        rw [pass_offset hpos] at hrest
        have habort : r.results t { config with recovery := .abort } = _ :=
          results_aborted hskip hfin hw hm nofun
        rw [results_skipped hskip hfin hw hm hrec, habort]
        exact congrArg _ hrest

end Reading

namespace Scanner

/-- A fresh scanner on a text that is all there. -/
def fresh (t : Table) (config : Config) (w : Bytes) : Scanner Exhausted :=
  { table := t, buffer := .ofBytes w, config }

/-- The scanner behind calls. -/
def after {σ : Type} [Source σ] : List Call → Scanner σ → Scanner σ
  | [], sc => sc
  | c :: calls, sc => after calls (sc.call c).2

section
variable {σ : Type} [Source σ] {sc : Scanner σ} {t : Table} {config : Config} {r : Reading}
  {w : Bytes}

theorem shows_fresh (w : Bytes) : (fresh t config w).Shows t config (.ofText w) :=
  shows_new (Buffer.stands_ofBytes w)

theorem Shows.after (h : sc.Shows t config r) (hon : r.On w) (calls : List Call) :
    ∃ r', (sc.after calls).Shows t config r' ∧ r'.On w := by
  induction calls generalizing sc r with
  | nil => exact ⟨r, h, hon⟩
  | cons c calls ih =>
    obtain ⟨-, hshows⟩ := h.call c
    refine ih hshows ?_
    cases c with
    | next => exact hon.next t config
    | nextWithBytes => exact hon.next t config
    | resync => exact ⟨(hon.pass 1).offset_le, (hon.pass 1).ahead⟩

/-- A scanner answers calls as a fresh one does on a text, `k` bytes further on in the stream, with
the offset of the cursor behind each. -/
def RepliesLike (sc : Scanner σ) (fresh : Scanner Exhausted) (k : Nat) (calls : List Call) : Prop :=
  sc.replies calls = (fresh.replies calls).map (Prod.map (Reply.shift k) (· + k))

/-- A scanner has the results of a fresh one on a text, `k` bytes further on in the stream. -/
def ResultsLike (sc : Scanner σ) (fresh : Scanner Exhausted) (k : Nat) : Prop :=
  sc.results.1 = fresh.results.1.map (shifted Token.shift k)

theorem Shows.repliesLike (h : sc.Shows t config r) {u : Bytes} {k : Nat} {calls : List Call}
    (hr : r.replies t config calls = ((Reading.ofText u).shift k).replies t config calls) :
    sc.RepliesLike (fresh t config u) k calls := by
  rw [RepliesLike, h.replies, (shows_fresh u).replies, hr, Reading.replies_shift]

theorem Shows.resultsLike (h : sc.Shows t config r) {u : Bytes} {k : Nat}
    (hr : r.results t config = ((Reading.ofText u).shift k).results t config) :
    sc.ResultsLike (fresh t config u) k := by
  rw [ResultsLike, h.results, (shows_fresh u).results, hr, Reading.results_shift]

/-- A scanner on a text keeps nothing from one token to the next: whatever calls have been made, it
goes on behind a token as a fresh scanner does on the rest of the text, and so it does behind the
byte that it passes over where no token begins. Where it recovers, its results are those of fresh
scanners that do not, one from the start and one from behind each byte that failed. -/
structure Memoryless (sc : Scanner σ) (t : Table) (config : Config) (w : Bytes) : Prop where
  token : ∀ calls c token, ((sc.after calls).call c).1.answer? = some (.ok (some token)) →
    (∀ calls', ((sc.after calls).call c).2.RepliesLike
      (fresh t config (w.drop token.span.stop)) token.span.stop calls') ∧
    ((sc.after calls).call c).2.ResultsLike
      (fresh t config (w.drop token.span.stop)) token.span.stop
  /-- The byte is passed over by the next call that looks for a token, unless `resync` does it. -/
  failure : config.recovery = .resync →
    ∀ calls c k, ((sc.after calls).call c).1.answer? = some (.error (.noMatch k)) →
      (∀ calls', calls'.head? ≠ some .resync → ((sc.after calls).call c).2.RepliesLike
        (fresh t config (w.drop (k + 1))) (k + 1) calls') ∧
      ((sc.after calls).call c).2.ResultsLike (fresh t config (w.drop (k + 1))) (k + 1)
  runs : config.recovery = .resync →
    sc.results.1 = (runStarts 0 sc.results.1).flatMap fun p =>
      (fresh t { config with recovery := .abort } (w.drop p)).results.1.map (shifted Token.shift p)

theorem Shows.memoryless (h : sc.Shows t config (.ofText w)) : sc.Memoryless t config w := by
  have hon : (Reading.ofText w).On w := ⟨Nat.zero_le _, rfl⟩
  refine ⟨fun calls c token htoken => ?_, fun hrec calls c k hfailed => ?_, fun hrec => ?_⟩
  · obtain ⟨r, hshows, hon'⟩ := h.after hon calls
    obtain ⟨hreply, hbehind⟩ := hshows.call c
    rw [hreply] at htoken
    obtain ⟨hnext, heq⟩ := Reading.next_of_answer? htoken
    rw [heq, Reading.next_of_token hon' hnext] at hbehind
    exact ⟨fun calls' => hbehind.repliesLike rfl, hbehind.resultsLike rfl⟩
  · obtain ⟨r, hshows, hon'⟩ := h.after hon calls
    obtain ⟨hreply, hbehind⟩ := hshows.call c
    rw [hreply] at hfailed
    obtain ⟨hnext, heq⟩ := Reading.next_of_answer? hfailed
    obtain ⟨hfin, hresumed⟩ := Reading.resumed_of_noMatch hrec hon' hnext
    rw [heq] at hbehind
    refine ⟨fun calls' hcalls => hbehind.repliesLike ?_, hbehind.resultsLike ?_⟩
    · rw [← hresumed, Reading.replies_resumed hfin hcalls]
    · rw [← hresumed, Reading.results_resumed hfin]
  · have hrun (p : Nat) :
        (fresh t { config with recovery := .abort } (w.drop p)).results.1.map
          (shifted Token.shift p) = Reading.runFrom t config w p := by
      rw [(shows_fresh _).results, ← Reading.results_shift]
      rfl
    simp only [hrun, h.results]
    exact Reading.results_eq_flatMap hrec hon rfl rfl

end

/-- **Scanning is memoryless between tokens.** From a state of the tables, on a text that a source
delivers in any pieces, or that the buffer holds. -/
theorem memoryless_between_tokens (t : Table) (config : Config) (hstate : config.initialState < t.size)
    (w : Bytes) :
    (∀ u recovery, Scanner.new t (.ofBytes u) { config with recovery } =
        .ok (fresh t { config with recovery } u)) ∧
      (∀ (σ : Type) [Source σ] (source : σ), Delivers source w →
        ∃ sc, Scanner.new t (.ofSource source) config = .ok sc ∧ sc.Memoryless t config w) ∧
      (fresh t config w).Memoryless t config w := by
  refine ⟨fun u recovery => if_pos hstate, fun σ _ source h => ?_, (shows_fresh w).memoryless⟩
  exact ⟨_, new_eq hstate _, (shows_new (Buffer.stands_ofSource h)).memoryless⟩

/-- Bytes 0, 1 and 0 in three pieces: the walk over the first two goes back behind the first, and
the second fails. The results fall into two runs, of which the first ends with the failure. -/
theorem memoryless_between_tokens_backingOff :
    0 < Table.backingOff.size ∧
      ∃ sc, Scanner.new Table.backingOff (.ofSource (Chunks.mk [[0], [], [1, 0]]))
          { recovery := .resync } = .ok sc ∧
        sc.Memoryless Table.backingOff { recovery := .resync } [0, 1, 0] ∧
        (sc.call .next).1.answer? = some (.ok (some ⟨7, ⟨0, 1⟩⟩)) ∧
        ((sc.after [.next]).call .nextWithBytes).1.answer? = some (.error (.noMatch 1)) ∧
        sc.results.1 = [.ok ⟨7, ⟨0, 1⟩⟩, .error (.noMatch 1), .ok ⟨7, ⟨2, 3⟩⟩] ∧
        runStarts 0 sc.results.1 = [0, 2] := by
  have hs : 0 < Table.backingOff.size := by decide
  have hdel := Chunks.delivers [[0], [], [1, 0]]
  obtain ⟨-, hsources, -⟩ :=
    memoryless_between_tokens Table.backingOff { recovery := .resync } hs [0, 1, 0]
  obtain ⟨sc, hnew, hsc⟩ := hsources Chunks _ hdel
  refine ⟨hs, sc, hnew, hsc, ?_⟩
  obtain rfl := Except.ok.inj (hnew.symm.trans (if_pos hs))
  have hshows : Shows _ Table.backingOff { recovery := .resync } (.ofText [0, 1, 0]) :=
    shows_new (Buffer.stands_ofSource hdel)
  obtain ⟨hfirst, hshows'⟩ := hshows.call .next
  obtain ⟨hsecond, -⟩ := hshows'.call .nextWithBytes
  have hresults : (Reading.ofText [0, 1, 0]).results Table.backingOff { recovery := .resync } =
      [.ok ⟨7, ⟨0, 1⟩⟩, .error (.noMatch 1), .ok ⟨7, ⟨2, 3⟩⟩] := by
    rw [Reading.results_token rfl rfl (by decide) rfl,
      Reading.results_skipped rfl rfl (by decide) rfl rfl,
      Reading.results_token rfl rfl (by decide) rfl, Reading.results_over rfl rfl rfl]
    rfl
  rw [hfirst, hshows.results, hresults]
  exact ⟨rfl, (congrArg Reply.answer? hsecond).trans rfl, rfl, rfl⟩

end Scanner

end CombLexer
