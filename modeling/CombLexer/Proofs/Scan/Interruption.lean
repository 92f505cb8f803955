/-
A failure of the source does not falsify what was answered before it.

Where a supply fails, another one might have gone on with any text `q`. Until
then a scanner cannot tell the two apart, so its answers are those of a scan of
all bytes that came with `q` behind them (`Shows.comesTo`). They are the same
answers for every `q`, since a scan comes to one list of answers only
(`Ends.unique`). `failure_falsifies_nothing` says so, and that the failure comes
out once, with all bytes behind the last result still at hand. The one way for
it not to come out is that the scan is given up before, at bytes that no rule
matches.
-/
import CombLexer.Proofs.Scan.Memoryless
import CombLexer.Proofs.Scan.Progress

namespace CombLexer

/-- Answers that go through a text end where it does, or at a failure that is not recovered from. -/
theorem Traverses.endOf_eq {config : Config} {size k : Nat}
    {answers : List (Except ScanError Token)} (h : Traverses config size k answers) :
    endOf k answers = size ∨
      config.recovery ≠ .resync ∧ ∃ j, answers.getLast? = some (.error (.noMatch j)) := by
  induction h with
  | ended => exact .inl rfl
  | token _ _ _ ih =>
    rw [endOf_cons]
    exact ih.imp id fun ⟨hrec, j, hlast⟩ => ⟨hrec, j, List.mem_getLast?_cons hlast⟩
  | skipped _ _ ih =>
    rw [endOf_cons]
    exact ih.imp id fun ⟨hrec, j, hlast⟩ => ⟨hrec, j, List.mem_getLast?_cons hlast⟩
  | aborted _ hrec => exact .inr ⟨hrec, _, rfl⟩

theorem Traverses.endOf_le {config : Config} {size k : Nat}
    {answers : List (Except ScanError Token)} (h : Traverses config size k answers) :
    endOf k answers ≤ size := by
  induction h with
  | ended => exact Nat.le_refl _
  | token _ _ _ ih => rwa [endOf_cons]
  | skipped _ _ ih => rwa [endOf_cons]
  | aborted hlt => exact hlt

namespace Scanner

variable {σ : Type}

/-- The scan of a supply that delivers `p` and then fails with `e`: all answers, and the scanner
behind them. -/
inductive Interrupted [Supply σ] (t : Table) (config : Config) (p : Bytes) (e : SourceError)
    (sc : Scanner σ) (answers : List (Except ScanError Token)) (last : Scanner σ) : Prop
  /-- The failure comes out once, behind results that are the first of those of every text that
  begins with `p`. All bytes behind the last result are at hand then, from the start of the token
  on. -/
  | failed {n : Nat} {results : List (Except ScanError Token)} (hgives : sc.Gives n answers last)
      (hfin : last.finished = true) (hanswers : answers = results ++ [.error (.source e)])
      (honce : ∀ e', .error (.source e') ∉ results)
      (hbegins : ∀ q, results <+: (fresh t config (p ++ q)).results.1)
      (hstart : last.buffer.startOffset = endOf 0 results)
      (hcontent : last.buffer.content.toList = p.drop (endOf 0 results))
  /-- The scan is given up before the failure, as it is on every text that begins with `p`. -/
  | aborted {n k : Nat} (hends : sc.Ends n answers last) (hfin : last.finished = true)
      (hrec : config.recovery ≠ .resync) (hlast : answers.getLast? = some (.error (.noMatch k)))
      (hall : ∀ q, answers = (fresh t config (p ++ q)).results.1)

theorem Returns.iff_of_finished [Supply σ] {sc : Scanner σ} (hfin : sc.finished = true) (n : Nat)
    (step : Except ScanError (Option Token) × Scanner σ) :
    sc.Returns n step ↔ n = 0 ∧ step = (.ok none, sc) := by
  constructor
  · exact fun h => (Returns.finished hfin).unique h
  · rintro ⟨rfl, rfl⟩
    exact .finished hfin

theorem interrupted_ofSource [Supply σ] {source : σ} {n : Nat} {p : Bytes} {e : SourceError}
    (h : RunsOut n source p (some e)) (t : Table) (config : Config) :
    ∃ answers last,
      Interrupted t config p e { table := t, buffer := .ofSource source, config } answers last := by
  have hcomes (q : Bytes) := comesTo_ofSource (q := q) h nofun t config
  have htraverses (q : Bytes) := Reading.ofText_traverses t config (p ++ q)
  have hresults (q : Bytes) :
      (fresh t config (p ++ q)).results.1 = (Reading.ofText (p ++ q)).results t config :=
    (shows_fresh _).results
  -- No failure of a source is among the results of a text.
  have hgenuine (q : Bytes) (e' : SourceError) :
      .error (.source e') ∉ (Reading.ofText (p ++ q)).results t config := fun hmem => by
    cases (htraverses q).start?_isSome _ hmem
  cases hcomes [] with
  | @failed k e' results last p' hle hfault hgives hfin hbegins hholds hrest =>
    cases hfault
    refine ⟨_, last,
      .failed hgives hfin rfl (fun e' hmem => ?_) (fun q => ?_) hholds.startOffset ?_⟩
    · exact hgenuine [] e' (hbegins.subset hmem)
    · rw [hresults]
      cases hcomes q with
      | whole _ hends =>
        obtain ⟨-, hsame, -⟩ := (hgives.ends hfin).unique hends
        exact absurd (hsame ▸ List.mem_append_right results List.mem_cons_self) (hgenuine q e)
      | failed _ _ hgives' hfin' hbegins' =>
        obtain ⟨-, hsame, -⟩ := (hgives.ends hfin).unique (hgives'.ends hfin')
        rwa [List.append_inj_left' hsame rfl] at hbegins'
    · rw [hholds.content]
      simpa using hrest
  | whole hle hends hfin =>
    have hall (q : Bytes) : (Reading.ofText (p ++ [])).results t config =
        (Reading.ofText (p ++ q)).results t config := by
      cases hcomes q with
      | whole _ hends' => exact (hends.unique hends').2.1.symm
      | failed _ _ hgives' hfin' =>
        obtain ⟨-, hsame, -⟩ := hends.unique (hgives'.ends hfin')
        exact absurd (hsame ▸ List.mem_append_right _ List.mem_cons_self) (hgenuine [] _)
    -- Results that are the same with one byte more do not end where the text does.
    rcases (htraverses [0]).endOf_eq with hend | ⟨hrec, k, hlast⟩
    · have hle := (htraverses []).endOf_le
      rw [hall [0], hend, List.append_nil, List.length_append, List.length_singleton] at hle
      omega
    · refine ⟨_, _, .aborted hends hfin hrec (hall [0] ▸ hlast) fun q => ?_⟩
      rw [hresults, hall q]

section
variable [Supply σ] {t : Table} {config : Config} {p : Bytes} {e : SourceError}
  {sc last : Scanner σ} {answers : List (Except ScanError Token)}

theorem Interrupted.finished (h : Interrupted t config p e sc answers last) :
    last.finished = true := by
  cases h with
  | failed _ hfin => exact hfin
  | aborted _ hfin => exact hfin

theorem Interrupted.ends (h : Interrupted t config p e sc answers last) :
    ∃ n, sc.Ends n answers last := by
  cases h with
  | failed hgives hfin => exact ⟨_, hgives.ends hfin⟩
  | aborted hends => exact ⟨_, hends⟩

theorem Interrupted.length_le (h : Interrupted t config p e sc answers last) :
    answers.length ≤ p.length + 1 := by
  have hlen : (fresh t config (p ++ [])).results.1.length ≤ p.length := by
    rw [(shows_fresh _).results, List.append_nil]
    exact (Reading.ofText_traverses t config p).length_le
  cases h with
  | failed _ _ hanswers _ hbegins =>
    rw [hanswers, List.length_append]
    exact Nat.succ_le_succ (Nat.le_trans (hbegins []).length_le hlen)
  | aborted _ _ _ _ hall =>
    rw [hall []]
    exact Nat.le_succ_of_le hlen

end

/-- **A failure falsifies nothing.** From a state of the tables, on a supply that delivers `p` in
any pieces and then fails, the answers before the failure are the first results of every text that
`p` goes on to, the buffer is left with all bytes behind them, and the failure comes out once: every
later call says that the scan is over. On a source these answers are its results. -/
theorem failure_falsifies_nothing (t : Table) (config : Config)
    (hstate : config.initialState < t.size) (p : Bytes) (e : SourceError) :
    (∀ (σ : Type) [Supply σ] (source : σ) (n : Nat), RunsOut n source p (some e) →
        ∃ sc, Scanner.new t (.ofSource source) config = .ok sc ∧
          ∃ answers last, Interrupted t config p e sc answers last ∧
            ∀ k step, last.Returns k step ↔ k = 0 ∧ step = (.ok none, last)) ∧
      ∀ (σ : Type) [Source σ] (source : σ) (n : Nat), RunsOut n source p (some e) →
        ∃ sc, Scanner.new t (.ofSource source) config = .ok sc ∧
          Interrupted t config p e sc sc.results.1 sc.results.2 ∧
            sc.results.2.next = (.ok none, sc.results.2) := by
  refine ⟨fun σ _ source n h => ⟨_, new_eq hstate _, ?_⟩,
    fun σ _ source n h => ⟨_, new_eq hstate _, ?_⟩⟩
  · obtain ⟨answers, last, hinterrupted⟩ := interrupted_ofSource h t config
    exact ⟨answers, last, hinterrupted, Returns.iff_of_finished hinterrupted.finished⟩
  · obtain ⟨answers, last, hinterrupted⟩ := interrupted_ofSource h t config
    obtain ⟨k, hends⟩ := hinterrupted.ends
    have hbound := h.lt_answerBound t config
    rw [hends.results_eq (Nat.lt_of_le_of_lt hinterrupted.length_le hbound)]
    exact ⟨hinterrupted, returns_iff.1 ⟨0, .finished hinterrupted.finished⟩⟩

/-- Bytes 0 and 1 count wrong, and the third delivery fails with its byte. -/
theorem failure_falsifies_nothing_backingOff :
    let source := Feed.mk [.counted [0], ⟨[1], .ok 5⟩, ⟨[0], .error ⟨"lost"⟩⟩] false
    0 < Table.backingOff.size ∧ RunsOut 3 source [0, 1, 0] (some ⟨"lost"⟩) ∧
      ∃ sc, Scanner.new Table.backingOff (.ofSource source) { recovery := .resync } = .ok sc ∧
        Interrupted Table.backingOff { recovery := .resync } [0, 1, 0] ⟨"lost"⟩ sc sc.results.1
          sc.results.2 ∧
        sc.results.2.next = (.ok none, sc.results.2) := by
  intro source
  have hstate : 0 < Table.backingOff.size := by decide
  have h : RunsOut 3 source [0, 1, 0] (some ⟨"lost"⟩) := .more rfl (.more rfl (.failed rfl))
  exact ⟨hstate, h, (failure_falsifies_nothing Table.backingOff { recovery := .resync } hstate
    [0, 1, 0] ⟨"lost"⟩).2 Feed source 3 h⟩

end Scanner

end CombLexer
