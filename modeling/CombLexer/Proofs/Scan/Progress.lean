/-
Every scan makes progress and comes to an end.

`Traverses config size k answers` says that answers go through a text of `size`
bytes from offset `k` on, each of them over one byte at least. The answers of a
reading do (`Reading.results_traverses`), so they are no more than there are
bytes, and each begins behind the one before. On a supply that runs out the
answers of a scanner are the first of these, with the failure of the supply
behind them if it fails (`Shows.comesTo`), and they take no more refills than
the supply has answers. `scan_ends` says so for each way to set a scanner up.
-/
import CombLexer.Proofs.Scan.Awaiting
import CombLexer.Proofs.Scan.Safety

namespace CombLexer

/-- Where a token begins, or the byte that no token begins with. -/
def start? : Except ScanError Token → Option Nat
  | .ok token => some token.span.start
  | .error (.noMatch k) => some k
  | .error _ => none

/-- Answers go through a text of a length from an offset on: each of them is over one byte at least,
and they come to its end or to a failure that is not recovered from. -/
inductive Traverses (config : Config) (size : Nat) : Nat → List (Except ScanError Token) → Prop
  | ended : Traverses config size size []
  | token {k n rule : Nat} {rest : List (Except ScanError Token)} (hlt : k < n) (hle : n ≤ size)
      (hrest : Traverses config size n rest) : Traverses config size k (.ok ⟨rule, ⟨k, n⟩⟩ :: rest)
  | skipped {k : Nat} {rest : List (Except ScanError Token)} (hlt : k < size)
      (hrest : Traverses config size (k + 1) rest) :
      Traverses config size k (.error (.noMatch k) :: rest)
  | aborted {k : Nat} (hlt : k < size) (hrec : config.recovery ≠ .resync) :
      Traverses config size k [.error (.noMatch k)]

namespace Traverses

variable {config : Config} {size k : Nat} {answers : List (Except ScanError Token)}

theorem length_le (h : Traverses config size k answers) : answers.length ≤ size - k := by
  induction h with
  | ended => exact Nat.zero_le _
  | token hlt hle _ ih => rw [List.length_cons]; omega
  | skipped hlt _ ih => rw [List.length_cons]; omega
  | aborted hlt => rw [List.length_singleton]; omega

theorem start?_isSome (h : Traverses config size k answers) :
    ∀ answer ∈ answers, (start? answer).isSome := by
  induction h with
  | ended => nofun
  | token _ _ _ ih => exact List.forall_mem_cons.2 ⟨rfl, ih⟩
  | skipped _ _ ih => exact List.forall_mem_cons.2 ⟨rfl, ih⟩
  | aborted => exact List.forall_mem_singleton.2 rfl

theorem nonempty (h : Traverses config size k answers) :
    ∀ token, .ok token ∈ answers → token.span.start < token.span.stop := by
  induction h with
  | ended => nofun
  | token hlt _ _ ih =>
    intro token hmem
    rcases List.mem_cons.1 hmem with heq | hmem
    · cases heq
      exact hlt
    · exact ih token hmem
  | skipped _ _ ih =>
    intro token hmem
    rcases List.mem_cons.1 hmem with heq | hmem
    · cases heq
    · exact ih token hmem
  | aborted =>
    intro token hmem
    cases List.mem_singleton.1 hmem

theorem le_of_mem_starts (h : Traverses config size k answers) :
    ∀ i ∈ answers.filterMap start?, k ≤ i := by
  induction h with
  | ended => nofun
  | token hlt _ _ ih =>
    refine List.forall_mem_cons.2 ⟨Nat.le_refl _, fun i hi => ?_⟩
    exact Nat.le_trans (Nat.le_of_lt hlt) (ih i hi)
  | skipped _ _ ih =>
    refine List.forall_mem_cons.2 ⟨Nat.le_refl _, fun i hi => ?_⟩
    exact Nat.le_trans (Nat.le_succ _) (ih i hi)
  | aborted => exact List.forall_mem_singleton.2 (Nat.le_refl _)

theorem starts_rising (h : Traverses config size k answers) :
    (answers.filterMap start?).Pairwise (· < ·) := by
  induction h with
  | ended => exact .nil
  | token hlt _ hrest ih =>
    exact .cons (fun i hi => Nat.lt_of_lt_of_le hlt (hrest.le_of_mem_starts i hi)) ih
  | skipped _ hrest ih => exact .cons (fun i hi => hrest.le_of_mem_starts i hi) ih
  | aborted => exact List.pairwise_singleton _ _

end Traverses

/-- The answers of a reading go through its text. -/
theorem Reading.results_traverses {t : Table} {config : Config} {r : Reading} {w : Bytes}
    (hon : r.On w) (hfin : r.finished = false) :
    Traverses config w.length r.resumed.offset (r.results t config) := by
  -- The answers are taken along the recursion of `results`, and what each can be from `next_spec`.
  fun_induction results t config r with
  | case1 r h =>
    have hlen := hon.resumed.ahead_length
    have hle := hon.resumed.offset_le
    have hspec := r.next_spec t config
    generalize r.next t config = step at h hspec
    cases hspec with
    | finished hfin' => rw [hfin] at hfin'; cases hfin'
    | ended _ hw =>
      rw [hw, List.length_nil] at hlen
      have hend : r.resumed.offset = w.length := by omega
      rw [hend]
      exact .ended
    | token => cases h
    | skipped => cases h
    | aborted => cases h
  | case2 r token h ih =>
    have hlen := hon.resumed.ahead_length
    have hle := hon.resumed.offset_le
    have hfin₀ : r.resumed.finished = false := r.resumed_finished.trans hfin
    have hon' := hon.next t config
    have hspec := r.next_spec t config
    generalize r.next t config = step at h hspec hon' ih
    cases hspec with
    | finished => cases h
    | ended => cases h
    | @token m _ hw hm =>
      cases h
      have hmle := Table.length_le_of_longest? hm
      have hpos := Table.length_pos_of_longest? hw hm
      have hrest := ih hon' hfin₀
      rw [resumed_of_not_skipFirst (r := r.resumed.pass _) r.resumed_skipFirst,
        pass_offset hmle] at hrest
      exact .token (by omega) (by omega) hrest
    | skipped => cases h
    | aborted => cases h
  | case3 r e h ih =>
    have hlen := hon.resumed.ahead_length
    have hle := hon.resumed.offset_le
    have hfin₀ : r.resumed.finished = false := r.resumed_finished.trans hfin
    have hon' := hon.next t config
    have hspec := r.next_spec t config
    generalize r.next t config = step at h hspec hon' ih
    cases hspec with
    | finished => cases h
    | ended => cases h
    | token => cases h
    | skipped _ hw =>
      cases h
      have hpos := List.length_pos_iff.2 hw
      have hrest := ih hon' hfin₀
      rw [resumed_of_skipFirst r.resumed_skipFirst, pass_offset hpos] at hrest
      exact .skipped (by omega) hrest
    | aborted _ hw _ hrec =>
      cases h
      have hpos := List.length_pos_iff.2 hw
      rw [results_of_finished rfl]
      exact .aborted (by omega) hrec

theorem Reading.ofText_traverses (t : Table) (config : Config) (w : Bytes) :
    Traverses config w.length 0 ((Reading.ofText w).results t config) :=
  Reading.results_traverses (Reading.on_ofText w) rfl

/-- A new scanner is bounded above the number of bytes that its source appends. -/
theorem RunsOut.lt_answerBound {σ : Type} [Source σ] {n : Nat} {source : σ} {w : Bytes}
    {fault? : Option SourceError} (h : RunsOut n source w fault?) (t : Table) (config : Config) :
    w.length + 1 <
      Scanner.answerBound { table := t, buffer := .ofSource source, config : Scanner σ } := by
  have hcapacity := h.length_le_capacity
  show w.length + 1 < 0 + Source.capacity source + 2
  omega

namespace Scanner

variable {σ : Type}

/-- All answers of a scan of `w`: tokens are not empty, tokens and failures begin one behind the
other, and they are no more than there are bytes, but for one failure of the source. -/
structure Progresses (w : Bytes) (fault? : Option SourceError)
    (answers : List (Except ScanError Token)) : Prop where
  nonempty : ∀ token, .ok token ∈ answers → token.span.start < token.span.stop
  rising : (answers.filterMap start?).Pairwise (· < ·)
  bounded : ∃ results, results.length ≤ w.length ∧ (∀ answer ∈ results, (start? answer).isSome) ∧
    (answers = results ∨ ∃ e, fault? = some e ∧ answers = results ++ [.error (.source e)])

theorem Progresses.length_le {w : Bytes} {fault? : Option SourceError}
    {answers : List (Except ScanError Token)} (h : Progresses w fault? answers) :
    answers.length ≤ w.length + 1 := by
  obtain ⟨results, hlen, -, rfl | ⟨e, -, rfl⟩⟩ := h.bounded
  · exact Nat.le_succ_of_le hlen
  · rw [List.length_append]
    exact Nat.succ_le_succ hlen

/-- What comes first of answers that go through a text makes progress, also with a failure of the
source behind it. -/
theorem progresses_of_traverses {config : Config} {w : Bytes} {fault? : Option SourceError}
    {k : Nat} {answers results expected : List (Except ScanError Token)}
    (h : Traverses config w.length k expected) (hbegins : results <+: expected)
    (hanswers : answers = results ∨
      ∃ e, fault? = some e ∧ answers = results ++ [.error (.source e)]) :
    Progresses w fault? answers := by
  have hlen : results.length ≤ w.length :=
    Nat.le_trans hbegins.length_le (Nat.le_trans h.length_le (Nat.sub_le _ _))
  have hstarts : answers.filterMap start? = results.filterMap start? := by
    rcases hanswers with rfl | ⟨e, -, rfl⟩
    · rfl
    · rw [List.filterMap_append]
      exact List.append_nil _
  have hmem (token : Token) (hmem : .ok token ∈ answers) : .ok token ∈ results := by
    rcases hanswers with rfl | ⟨e, -, rfl⟩
    · exact hmem
    · rcases List.mem_append.1 hmem with hmem | hmem
      · exact hmem
      · cases List.mem_singleton.1 hmem
  refine ⟨fun token htoken => h.nonempty token (hbegins.subset (hmem token htoken)), ?_, results,
    hlen, fun answer hanswer => h.start?_isSome answer (hbegins.subset hanswer), hanswers⟩
  rw [hstarts]
  exact h.starts_rising.sublist (hbegins.sublist.filterMap start?)

/-- The scan comes to its end with these answers, in so many refills at most, and makes progress on
the way. -/
structure EndsWithin [Supply σ] (sc : Scanner σ) (n : Nat) (w : Bytes) (fault? : Option SourceError)
    (answers : List (Except ScanError Token)) (last : Scanner σ) : Prop where
  ends : ∃ asked ≤ n, sc.Ends asked answers last
  finished : last.finished = true
  progresses : Progresses w fault? answers

theorem Gives.ends [Supply σ] {sc last : Scanner σ} {n : Nat}
    {answers : List (Except ScanError Token)} (h : sc.Gives n answers last)
    (hfin : last.finished = true) : sc.Ends n answers last :=
  ⟨n, 0, last, rfl, h, .finished hfin⟩

theorem ComesTo.endsWithin [Supply σ] {sc : Scanner σ} {config : Config} {n offset k : Nat}
    {w : Bytes} {fault? : Option SourceError} {expected : List (Except ScanError Token)}
    (h : sc.ComesTo n fault? w [] offset expected)
    (hexpected : Traverses config w.length k expected) :
    ∃ answers last, sc.EndsWithin n w fault? answers last := by
  cases h with
  | whole hle hends hfin =>
    exact ⟨expected, _, ⟨_, hle, hends⟩, hfin,
      progresses_of_traverses hexpected (List.prefix_refl _) (.inl rfl)⟩
  | failed hle hfault hgives hfin hbegins =>
    exact ⟨_, _, ⟨_, hle, hgives.ends hfin⟩, hfin,
      progresses_of_traverses hexpected hbegins (.inr ⟨_, hfault, rfl⟩)⟩

section
variable [Source σ] {sc last : Scanner σ} {n : Nat} {answers : List (Except ScanError Token)}

theorem Gives.take_eq (h : sc.Gives n answers last) (count : Nat) :
    sc.take (fun token _ => token) (answers.length + count) =
      (answers ++ (last.take (fun token _ => token) count).1,
        (last.take (fun token _ => token) count).2) := by
  induction h with
  | nil =>
    rw [List.length_nil, Nat.zero_add]
    rfl
  | @cons sc sc' last n k answer answers h _ ih =>
    have hnext : sc.next = (answer.map some, sc') := returns_iff.1 ⟨n, h⟩
    rw [List.length_cons, Nat.add_right_comm]
    cases answer with
    | ok token =>
      rw [take_succ_of_token (congrArg Prod.fst hnext), hnext, ih]
      rfl
    | error e =>
      rw [take_succ_of_error (congrArg Prod.fst hnext), hnext, ih]
      rfl

/-- What a scan ends with are its results, if there are fewer than the bound on them. -/
theorem Ends.results_eq (h : sc.Ends n answers last) (hlen : answers.length < sc.answerBound) :
    sc.results = (answers, last) := by
  obtain ⟨k, m, sc', -, hgives, hover⟩ := h
  have hnext : sc'.next = (.ok none, last) := returns_iff.1 ⟨m, hover⟩
  obtain ⟨count, hcount⟩ : ∃ count, sc.answerBound = answers.length + (count + 1) :=
    ⟨sc.answerBound - answers.length - 1, by omega⟩
  rw [results, all_eq_take, hcount, hgives.take_eq, take_succ_of_over (congrArg Prod.fst hnext),
    hnext, List.append_nil]

theorem EndsWithin.results_eq {w : Bytes} {fault? : Option SourceError}
    (h : sc.EndsWithin n w fault? answers last) (hbound : w.length + 1 < sc.answerBound) :
    sc.results = (answers, last) := by
  obtain ⟨asked, -, hends⟩ := h.ends
  exact hends.results_eq (Nat.lt_of_le_of_lt h.progresses.length_le hbound)

end

/-- **Every scan makes progress and comes to an end.** From a state of the tables, on a supply that
gives `n` answers with the bytes of `w` until the input is over or it fails, a scan ends in `n`
refills at most and makes progress on the way; on a source these answers are its results, and so
they are on a buffer that holds its input, without a refill. Each walk takes no more rounds than
there are bytes at hand and two, and goes on from a state of the tables. -/
theorem scan_ends (t : Table) (config : Config) (hstate : config.initialState < t.size) (w : Bytes)
    (fault? : Option SourceError) :
    (∀ (σ : Type) [Supply σ] (source : σ) (n : Nat), RunsOut n source w fault? →
        ∃ sc, Scanner.new t (.ofSource source) config = .ok sc ∧
          ∃ answers last, sc.EndsWithin n w fault? answers last) ∧
      (∀ (σ : Type) [Source σ] (source : σ) (n : Nat), RunsOut n source w fault? →
        ∃ sc, Scanner.new t (.ofSource source) config = .ok sc ∧
          sc.EndsWithin n w fault? sc.results.1 sc.results.2) ∧
      (∃ sc, Scanner.new t (.ofBytes w) config = .ok sc ∧
        sc.EndsWithin 0 w none sc.results.1 sc.results.2) ∧
      ∀ (σ : Type) (b : Buffer σ) (s : Nat), s < t.size →
        t.walkWithin t.size (b.unread + 2) false s b = .ok (t.walk s b) ∧
          ∀ s' b', t.walk s b = (.ok (.suspended s'), b') → s' < t.size := by
  have htraverses := Reading.ofText_traverses t config w
  have hsupply (σ : Type) [Supply σ] (source : σ) (n : Nat) (h : RunsOut n source w fault?) :
      ∃ answers last, EndsWithin { table := t, buffer := .ofSource source, config } n w fault?
        answers last := by
    have hcomes := comesTo_ofSource h (fun _ => rfl) t config
    rw [List.append_nil] at hcomes
    exact hcomes.endsWithin htraverses
  refine ⟨fun σ _ source n h => ⟨_, new_eq hstate _, hsupply σ source n h⟩,
    fun σ _ source n h => ⟨_, new_eq hstate _, ?_⟩, ⟨_, new_eq hstate _, ?_⟩, fun σ b s hs => ?_⟩
  · obtain ⟨answers, last, hends⟩ := hsupply σ source n h
    rw [hends.results_eq (h.lt_answerBound t config)]
    exact hends
  · obtain ⟨answers, last, hends⟩ := (comesTo_ofBytes t config w).endsWithin htraverses
    rw [hends.results_eq ?_]
    · exact hends
    · have hunread : (Buffer.ofBytes w).unread = w.length := by simp [Buffer.unread, Buffer.ofBytes]
      show w.length + 1 < (Buffer.ofBytes w).unread + 0 + 2
      omega
  · refine ⟨Table.walkWithin_eq (Nat.le_refl _) hs (Nat.le_refl _), fun s' b' hwalk => ?_⟩
    exact (Table.of_walk_suspended hs hwalk).1

/-- Bytes 0, 1 and 0 in three answers: the second counts wrong, the third fails with its byte. -/
theorem scan_ends_backingOff :
    let source := Feed.mk [.counted [0], ⟨[1], .ok 5⟩, ⟨[0], .error ⟨"lost"⟩⟩] false
    0 < Table.backingOff.size ∧ RunsOut 3 source [0, 1, 0] (some ⟨"lost"⟩) ∧
      (∃ sc, Scanner.new Table.backingOff (.ofSource source) { recovery := .resync } = .ok sc ∧
        sc.EndsWithin 3 [0, 1, 0] (some ⟨"lost"⟩) sc.results.1 sc.results.2) ∧
      Table.backingOff.walkWithin 3 3 false 0 (Buffer.ofSource source).refill.2 =
        .ok (Table.backingOff.walk 0 (Buffer.ofSource source).refill.2) := by
  intro source
  have hs : 0 < Table.backingOff.size := by decide
  have hsource : RunsOut 3 source [0, 1, 0] (some ⟨"lost"⟩) := .more rfl (.more rfl (.failed rfl))
  obtain ⟨-, hends, -, hwalks⟩ :=
    scan_ends Table.backingOff { recovery := .resync } hs [0, 1, 0] (some ⟨"lost"⟩)
  exact ⟨hs, hsource, hends Feed source 3 hsource,
    (hwalks Feed (Buffer.ofSource source).refill.2 0 hs).1⟩

end Scanner

end CombLexer
