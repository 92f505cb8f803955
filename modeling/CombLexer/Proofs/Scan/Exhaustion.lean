/-
Input is never asked for behind its end.

A refill fails with `ScanError.exhausted` exactly if the buffer is at the end of
its input. A scanner asks for input in four places: before a token, behind a
failure, in `resync`, and where a walk is suspended. The first three test for
the end of the input, and a walk at the end of the input is never suspended
(`Table.atEnd_of_suspended`). So no call and no session of calls ever comes to
that error, whatever the fields of the buffer hold (`never_exhausted`), on
supplies that never end or count wrong as on all others.
-/
import CombLexer.Proofs.Scan.Chunking
import CombLexer.Proofs.Scan.Coverage
import CombLexer.Proofs.Scan.Safety

namespace CombLexer

variable {σ α : Type}

/-- A result that is not the failure of a refill behind the end of the input. -/
def WithinInput (result : Except ScanError α) : Prop :=
  ∀ offset, result ≠ .error (.exhausted offset)

theorem withinInput_ok (a : α) : WithinInput (.ok a : Except ScanError α) := nofun

theorem WithinInput.map {β : Type} {result : Except ScanError α} (h : WithinInput result)
    (f : α → β) : WithinInput (result.map f) := by
  intro offset heq
  cases result with
  | ok a => cases heq
  | error e => cases heq; exact h offset rfl

theorem WithinInput.of_error {β : Type} {e : ScanError}
    (h : WithinInput (.error e : Except ScanError α)) :
    WithinInput (.error e : Except ScanError β) :=
  fun offset heq => h offset (by cases heq; rfl)

/-! ## Where input is asked for -/

theorem Buffer.accept_withinInput (b : Buffer σ) (d : Delivery) (source : σ) :
    WithinInput (b.accept d source).1 := by
  unfold accept
  cases d.report with
  | error e => nofun
  | ok n => nofun

theorem Buffer.refill_withinInput [Supply σ] {b : Buffer σ} (hend : b.atEnd = false) :
    WithinInput b.refill.1 := by
  rw [refill, if_neg (by simp [hend])]
  exact accept_withinInput _ _ _

theorem Buffer.settle_withinInput (b : Buffer σ) : WithinInput b.settle.1 := by
  unfold settle
  cases b.matchedRule with
  | some rule => nofun
  | none => nofun

theorem Table.walk_withinInput (t : Table) (s : Nat) (b : Buffer σ) :
    WithinInput (t.walk s b).1 := by
  fun_induction Table.walk t s b with
  | case1 s b c hc s' hs ih => exact ih
  | case2 s b c hc hs => exact b.settle_withinInput
  | case3 s b hc hend s' hs => exact Buffer.settle_withinInput _
  | case4 s b hc hend hs => exact b.settle_withinInput
  | case5 s b hc hend => exact withinInput_ok _

/-- Where a walk is suspended, more input may still come. -/
theorem Table.atEnd_of_suspended {t : Table} {s s' : Nat} {b b' : Buffer σ}
    (h : t.walk s b = (.ok (.suspended s'), b')) : b'.atEnd = false := by
  fun_induction Table.walk t s b with
  | case1 s b c hc s₁ hs ih => exact ih h
  | case2 s b c hc hs => exact absurd (congrArg Prod.fst h) b.settle_ne_suspended
  | case3 s b hc hend s₁ hs => exact absurd (congrArg Prod.fst h) (Buffer.settle_ne_suspended _)
  | case4 s b hc hend hs => exact absurd (congrArg Prod.fst h) b.settle_ne_suspended
  | case5 s b hc hend =>
    cases h
    exact Bool.eq_false_iff.2 hend

theorem Table.walk_of_step {t : Table} {s : Nat} {b : Buffer σ}
    {step : Except ScanError Outcome × Buffer σ} (h : t.step s b = .ok step) :
    t.walk s b = step := by
  unfold Table.step Table.answer at h
  split at h
  · exact Except.ok.inj h
  · split at h
    · exact Except.ok.inj h
    · cases h

section
variable [Supply σ]

theorem Buffer.skipByte_withinInput (b : Buffer σ) : WithinInput b.skipByte.1 := by
  have hbare : WithinInput b.openToken.refillIfBare.1 := by
    unfold refillIfBare
    split
    · next h => exact refill_withinInput h.2
    · exact withinInput_ok _
  rw [skipByte_eq]
  rcases heq : b.openToken.refillIfBare with ⟨e | _, b'⟩ <;> rw [heq] at hbare
  · exact hbare.of_error
  · by_cases hover : b'.cursor = b'.content.size
    · simp only [if_pos hover]
      exact withinInput_ok _
    · simp only [if_neg hover]
      exact withinInput_ok _

theorem Buffer.Fills.withinInput {b : Buffer σ} {n : Nat}
    {step : Except ScanError Unit × Buffer σ} (h : b.Fills n step) : WithinInput step.1 := by
  induction h with
  | ready => exact withinInput_ok _
  | failed hbare hr => exact congrArg Prod.fst hr ▸ refill_withinInput hbare.2
  | again _ _ _ ih => exact ih

theorem Table.Drives.withinInput {t : Table} {s n : Nat} {b : Buffer σ} {d : Drive σ}
    (h : t.Drives s b n d) : WithinInput d.result := by
  induction h with
  | @settled s b b' result hw =>
    have hwalk := t.walk_withinInput s b
    rw [hw] at hwalk
    cases result with
    | ok rule => exact withinInput_ok _
    | error e => exact hwalk.of_error
  | failed hw hr =>
    have hrefill := Buffer.refill_withinInput (Table.atEnd_of_suspended hw)
    rw [hr] at hrefill
    exact hrefill.of_error
  | again _ _ _ ih => exact ih

theorem Table.Attempts.withinInput {t : Table} {s n : Nat} {b : Buffer σ} {a : Attempt σ}
    (h : t.Attempts s b n a) : WithinInput a.result := by
  cases h with
  | failed hf => exact hf.withinInput.of_error
  | ended => exact withinInput_ok _
  | @walked b' n k d hf hdone hd =>
    have hdrive := hd.withinInput
    unfold Drive.toAttempt
    cases hr : d.result with
    | ok rule => exact withinInput_ok _
    | error e => rw [hr] at hdrive; exact hdrive.of_error

namespace Scanner

theorem Returns.withinInput {sc : Scanner σ} {n : Nat}
    {step : Except ScanError (Option Token) × Scanner σ} (h : sc.Returns n step) :
    WithinInput step.1 := by
  cases h with
  | finished => exact withinInput_ok _
  | searched _ _ ha =>
    rw [conclude_fst]
    exact ha.withinInput
  | stopped _ _ hb =>
    have hskip := sc.buffer.skipByte_withinInput
    rw [hb] at hskip
    exact hskip.of_error
  | resumed _ _ _ ha =>
    rw [conclude_fst]
    exact ha.withinInput

/-! ## Sessions -/

theorem Gives.withinInput {sc last : Scanner σ} {n : Nat} {answers : List (Except ScanError Token)}
    (h : sc.Gives n answers last) : ∀ answer ∈ answers, WithinInput answer := by
  induction h with
  | nil => nofun
  | @cons sc sc' last n k answer answers hnext hrest ih =>
    intro answer' hmem
    rcases List.mem_cons.1 hmem with rfl | hmem
    · have hanswer := hnext.withinInput
      cases answer' with
      | ok token => exact withinInput_ok _
      | error e => exact hanswer.of_error
    · exact ih answer' hmem

/-- A call comes to an answer. -/
inductive Answers : Scanner σ → Call → Reply → Scanner σ → Prop
  | next {sc sc' : Scanner σ} {n : Nat} {result : Except ScanError (Option Token)}
      (h : sc.Returns n (result, sc')) : Answers sc .next (.next result) sc'
  | nextWithBytes {sc sc' : Scanner σ} {n : Nat} {result : Except ScanError (Option Token)}
      (h : sc.Returns n (result, sc')) :
      Answers sc .nextWithBytes
        (.nextWithBytes (result.map fun token? => token?.map fun token => (token, sc'.lexeme))) sc'
  | resync {sc : Scanner σ} :
      Answers sc .resync (.resync sc.buffer.skipByte.1)
        { sc with buffer := sc.buffer.skipByte.2, skipFirst := false, finished := false }

/-- The tokens up to the end of the stream are collected with their bytes, or the first error on the
way comes out. -/
inductive Collects : Scanner σ → Except ScanError (List (Token × Bytes)) → Scanner σ → Prop
  | ended {sc last : Scanner σ} {n : Nat} (h : sc.Returns n (.ok none, last)) :
      Collects sc (.ok []) last
  | failed {sc last : Scanner σ} {n : Nat} {e : ScanError} (h : sc.Returns n (.error e, last)) :
      Collects sc (.error e) last
  | token {sc sc' last : Scanner σ} {n : Nat} {token : Token}
      {result : Except ScanError (List (Token × Bytes))}
      (h : sc.Returns n (.ok (some token), sc')) (hrest : Collects sc' result last) :
      Collects sc (result.map ((token, sc'.lexeme) :: ·)) last

theorem Collects.withinInput {sc last : Scanner σ}
    {result : Except ScanError (List (Token × Bytes))} (h : sc.Collects result last) :
    WithinInput result := by
  induction h with
  | ended => exact withinInput_ok _
  | failed h => exact h.withinInput.of_error
  | token _ _ ih => exact ih.map _

end Scanner

end

/-- The error that a result is, if it is one. -/
def error? : Except ScanError α → Option ScanError
  | .ok _ => none
  | .error e => some e

theorem WithinInput.error? {result : Except ScanError α} (h : WithinInput result) (offset : Nat) :
    error? result ≠ some (.exhausted offset) := by
  cases result with
  | ok a => nofun
  | error e => exact fun heq => h offset (congrArg Except.error (Option.some.inj heq))

theorem not_mem_errors {results : List (Except ScanError α)}
    (h : ∀ result ∈ results, WithinInput result) (offset : Nat) :
    .exhausted offset ∉ results.filterMap error? := by
  rw [List.mem_filterMap]
  rintro ⟨result, hmem, heq⟩
  exact (h result hmem).error? offset heq

/-- The error that comes out with an answer to a call. -/
def Reply.error? : Reply → Option ScanError
  | next result => CombLexer.error? result
  | nextWithBytes result => CombLexer.error? result
  | resync result => CombLexer.error? result

/-- What a scanner is asked for: a call, all tokens up to the first error, or all answers. -/
inductive Request where
  | call (c : Call)
  | collect
  | results
  deriving DecidableEq, Repr

namespace Scanner

theorem Answers.error?_ne [Supply σ] {sc sc' : Scanner σ} {c : Call} {reply : Reply}
    (h : sc.Answers c reply sc') (offset : Nat) : reply.error? ≠ some (.exhausted offset) := by
  cases h with
  | next h => exact h.withinInput.error? offset
  | nextWithBytes h => exact (h.withinInput.map _).error? offset
  | resync => exact sc.buffer.skipByte_withinInput.error? offset

/-- A session of requests comes to an end, and these errors come out. -/
inductive Session [Supply σ] : Scanner σ → List Request → List ScanError → Scanner σ → Prop
  | nil {sc : Scanner σ} : Session sc [] [] sc
  | call {sc sc' last : Scanner σ} {c : Call} {reply : Reply} {requests : List Request}
      {errors : List ScanError} (h : sc.Answers c reply sc')
      (hrest : Session sc' requests errors last) :
      Session sc (.call c :: requests) (reply.error?.toList ++ errors) last
  | collect {sc sc' last : Scanner σ} {result : Except ScanError (List (Token × Bytes))}
      {requests : List Request} {errors : List ScanError} (h : sc.Collects result sc')
      (hrest : Session sc' requests errors last) :
      Session sc (.collect :: requests) ((error? result).toList ++ errors) last
  | results {sc sc' last : Scanner σ} {n : Nat} {answers : List (Except ScanError Token)}
      {requests : List Request} {errors : List ScanError} (h : sc.Ends n answers sc')
      (hrest : Session sc' requests errors last) :
      Session sc (.results :: requests) (answers.filterMap error? ++ errors) last

/-- No session comes to a refill behind the end of the input, in whatever state it is begun. -/
theorem Session.not_exhausted [Supply σ] {sc last : Scanner σ} {requests : List Request}
    {errors : List ScanError} (h : sc.Session requests errors last) (offset : Nat) :
    .exhausted offset ∉ errors := by
  induction h with
  | nil => nofun
  | call h _ ih =>
    rw [List.mem_append, Option.mem_toList]
    exact not_or.2 ⟨h.error?_ne offset, ih⟩
  | collect h _ ih =>
    rw [List.mem_append, Option.mem_toList]
    exact not_or.2 ⟨h.withinInput.error? offset, ih⟩
  | results h _ ih =>
    obtain ⟨_, _, _, -, hgives, -⟩ := h
    rw [List.mem_append]
    exact not_or.2 ⟨not_mem_errors hgives.withinInput offset, ih⟩

section
variable [Source σ]

/-- The errors that come out of a request, and the scanner behind it. -/
def serve (sc : Scanner σ) : Request → List ScanError × Scanner σ
  | .call c => ((sc.call c).1.error?.toList, (sc.call c).2)
  | .collect => ((error? sc.collect.1).toList, sc.collect.2)
  | .results => (sc.results.1.filterMap error?, sc.results.2)

/-- The errors that come out of a session of requests. -/
def errors : List Request → Scanner σ → List ScanError
  | [], _ => []
  | request :: requests, sc => (sc.serve request).1 ++ errors requests (sc.serve request).2

theorem next_withinInput (sc : Scanner σ) : WithinInput sc.next.1 := by
  obtain ⟨n, h⟩ := sc.returns_next
  exact h.withinInput

theorem answers_call (sc : Scanner σ) (c : Call) : sc.Answers c (sc.call c).1 (sc.call c).2 := by
  obtain ⟨n, h⟩ := sc.returns_next
  cases c with
  | next => exact .next h
  | nextWithBytes => exact .nextWithBytes h
  | resync => exact .resync

theorem take_withinInput (view : Token → Scanner σ → α) (count : Nat) (sc : Scanner σ) :
    ∀ answer ∈ (sc.take view count).1, WithinInput answer := by
  induction count generalizing sc with
  | zero => nofun
  | succ count ih =>
    have hnext := sc.next_withinInput
    cases hr : sc.next.1 with
    | error e =>
      rw [hr] at hnext
      rw [take_succ_of_error hr]
      exact List.forall_mem_cons.2 ⟨hnext.of_error, ih _⟩
    | ok token? =>
      cases token? with
      | none =>
        rw [take_succ_of_over hr]
        nofun
      | some token =>
        rw [take_succ_of_token hr]
        exact List.forall_mem_cons.2 ⟨withinInput_ok _, ih _⟩

theorem collectOnto_withinInput (found : Array (Token × Bytes)) (count : Nat) (sc : Scanner σ) :
    WithinInput (sc.collectOnto found count).1 := by
  fun_induction collectOnto found count sc with
  | case1 found sc => exact withinInput_ok _
  | case2 found count sc sc' hnext => exact withinInput_ok _
  | case3 found count sc e sc' hnext =>
    have hreply : WithinInput sc.nextWithBytes.1 := sc.next_withinInput.map _
    rw [hnext] at hreply
    exact hreply.of_error
  | case4 found count sc token sc' hnext ih => exact ih

theorem serve_not_exhausted (sc : Scanner σ) (request : Request) (offset : Nat) :
    .exhausted offset ∉ (sc.serve request).1 := by
  cases request with
  | call c => exact fun h => (sc.answers_call c).error?_ne offset (Option.mem_toList.1 h)
  | collect =>
    exact fun h => (collectOnto_withinInput _ _ _).error? offset (Option.mem_toList.1 h)
  | results =>
    refine not_mem_errors ?_ offset
    rw [results, all_eq_take]
    exact take_withinInput _ _ _

theorem errors_not_exhausted (requests : List Request) (sc : Scanner σ) (offset : Nat) :
    .exhausted offset ∉ sc.errors requests := by
  induction requests generalizing sc with
  | nil => nofun
  | cons request requests ih =>
    rw [errors, List.mem_append]
    exact not_or.2 ⟨sc.serve_not_exhausted request offset, ih _⟩

end

/-- **Input is never asked for behind its end.** From a state of the tables, on every supply and
every buffer, no session comes to `ScanError.exhausted`, and on a source no session of the program
does. Nor does a caller who asks for more input where a walk is suspended. -/
theorem never_exhausted (t : Table) (config : Config) (hstate : config.initialState < t.size) :
    (∀ (σ : Type) [Supply σ] (b : Buffer σ), ∃ sc, Scanner.new t b config = .ok sc ∧
        ∀ requests errors last, sc.Session requests errors last →
          ∀ offset, .exhausted offset ∉ errors) ∧
      (∀ (σ : Type) [Source σ] (b : Buffer σ), ∃ sc, Scanner.new t b config = .ok sc ∧
        ∀ requests offset, .exhausted offset ∉ sc.errors requests) ∧
      ∀ (σ : Type) [Supply σ] (b b' : Buffer σ) (s s' : Nat),
        t.step s b = .ok (.ok (.suspended s'), b') →
          ∀ offset, b'.refill.1 ≠ .error (.exhausted offset) := by
  refine ⟨fun σ _ b => ⟨_, new_eq hstate b, ?_⟩, fun σ _ b => ⟨_, new_eq hstate b, ?_⟩, ?_⟩
  · intro requests errors last h
    exact h.not_exhausted
  · intro requests offset
    exact errors_not_exhausted requests _ offset
  · intro σ _ b b' s s' hstep
    exact Buffer.refill_withinInput (Table.atEnd_of_suspended (Table.walk_of_step hstep))

/-- The supply that gives byte 0 for ever, and counts three bytes each time. -/
inductive Endless where
  | zeros

instance : Supply Endless where
  refill s := (⟨[0], .ok 3⟩, s)

/-- Byte 0 for ever, counted as three bytes each time: the walk over the first is suspended, and
settled by the second. -/
theorem never_exhausted_endless :
    ∃ sc, Scanner.new Table.backingOff (.ofSource Endless.zeros) {} = .ok sc ∧
      (∃ errors last, sc.Session [.call .next, .call .resync] errors last ∧
        ∀ offset, .exhausted offset ∉ errors) ∧
      ∃ b, Table.backingOff.step 0 { content := #[0], source := Endless.zeros } =
          .ok (.ok (.suspended 1), b) ∧
        ∀ offset, b.refill.1 ≠ .error (.exhausted offset) := by
  obtain ⟨hall, -, hsuspended⟩ := never_exhausted Table.backingOff {} (by decide)
  obtain ⟨sc, hnew, hsession⟩ := hall Endless (.ofSource .zeros)
  cases hnew
  have hfill : (Buffer.ofSource Endless.zeros).openToken.Fills 1
      (.ok (), { content := #[0], source := .zeros }) :=
    .again (by decide) rfl (.ready (by decide))
  have hfirst : Table.backingOff.walk 0 { content := #[0], source := Endless.zeros } =
      (.ok (.suspended 1),
        { content := #[0], cursor := 1, lastMatchEnd := 1, matchedRule := some 7
          source := .zeros }) := (Table.walk_eq _ _ _).trans rfl
  have hsecond : Table.backingOff.walk 1
      { content := #[0, 0], cursor := 1, lastMatchEnd := 1, matchedRule := some 7
        source := Endless.zeros } =
      ((Except.ok 7 : Except ScanError Nat).map .matched,
        { content := #[0, 0], cursor := 1, lastMatchEnd := 1, matchedRule := some 7
          source := .zeros }) := (Table.walk_eq _ _ _).trans rfl
  have hdrive := Table.Drives.again hfirst rfl (.settled hsecond)
  have hnext : Returns
      { table := Table.backingOff, buffer := .ofSource Endless.zeros, config := {} } 2 _ :=
    .searched rfl rfl (.walked hfill rfl hdrive)
  have hcalls := Session.call (.next hnext) (.call .resync .nil)
  have hstep := (Table.step_eq (by decide) _).trans (congrArg Except.ok hfirst)
  exact ⟨_, rfl, ⟨_, _, hcalls, hsession _ _ _ hcalls⟩, _, hstep,
    hsuspended Endless _ _ _ _ hstep⟩

end Scanner

end CombLexer
