/-
The crosscheck complains if and only if something is wrong.

The pieces that a text is cut into make up the text again (`CutsInto.flatten`),
so a scan of them comes to the tokens of a scan of the whole text, or to the
same error (`scanChunks_eq`). What is left to find is a text that cannot be
scanned, or tokens that are not those that are known (`run_eq`). Where two lists
are not the same, the place that is named is the first where they differ
(`isLeast_firstDifference?`); and all ranges that are shown lie in the text, since
scans stay inside of it (`Traverses.stop_le`) and so do pieces that make it up.
-/
import CombLexer.Crosscheck
import CombLexer.Proofs.Fallible
import CombLexer.Proofs.Scan.Memoryless
import CombLexer.Proofs.Scan.Progress
import Mathlib.Algebra.GroupWithZero.Nat
import Mathlib.Order.Bounds.Defs

namespace CombLexer

theorem Fallible.mapM_id_eq_ok_iff {ε α : Type} {xs : List (Except ε α)} {ys : List α} :
    xs.mapM id = .ok ys ↔ xs = ys.map .ok := by
  induction xs generalizing ys with
  | nil => simp [pure, Except.pure, eq_comm]
  | cons x xs ih =>
    rw [List.mapM_cons, bind_eq_ok]
    constructor
    · intro h
      obtain ⟨y, rfl, h⟩ := h
      obtain ⟨ys', hys', h⟩ := bind_eq_ok.1 h
      cases h
      rw [ih.1 hys']
      rfl
    · intro h
      obtain ⟨y, ys', rfl, rfl, hrest⟩ := List.map_eq_cons_iff.1 h.symm
      exact ⟨y, rfl, bind_eq_ok.2 ⟨ys', ih.2 hrest.symm, rfl⟩⟩

theorem Traverses.stop_le {config : Config} {size k : Nat}
    {answers : List (Except ScanError Token)} (h : Traverses config size k answers) :
    ∀ token, .ok token ∈ answers → token.span.stop ≤ size := by
  induction h with
  | ended => nofun
  | token _ hle _ ih =>
    intro token hmem
    rcases List.mem_cons.1 hmem with heq | hmem
    · cases heq
      exact hle
    · exact ih token hmem
  | skipped _ _ ih =>
    intro token hmem
    rcases List.mem_cons.1 hmem with heq | hmem
    · cases heq
    · exact ih token hmem
  | aborted =>
    intro token hmem
    cases List.mem_singleton.1 hmem

namespace Crosscheck

/-! ## Pieces -/

section
variable {ρ : Type} [RandomSource ρ]

/-- Pieces of drawn sizes are cut off the front of a text until it is used up. -/
inductive CutsInto : Bytes → ρ → List Bytes → ρ → Prop
  | done {r : ρ} : CutsInto [] r [] r
  | piece {rest : Bytes} {r r' last : ρ} {size : Fin 65} {chunks : List Bytes} (hne : rest ≠ [])
      (hdraw : RandomSource.below 65 (by decide) r = (size, r'))
      (hrest : CutsInto (rest.drop size) r' chunks last) :
      CutsInto rest r (rest.take size :: chunks) last

variable {text : Bytes} {r last : ρ} {chunks : List Bytes}

theorem CutsInto.flatten (h : CutsInto text r chunks last) : chunks.flatten = text := by
  induction h with
  | done => rfl
  | piece hne hdraw hrest ih => rw [List.flatten_cons, ih, List.take_append_drop]

/-- With as many draws as there are pieces, the program cuts the text into them. -/
theorem CutsInto.randomChunks_eq (h : CutsInto text r chunks last) {count : Nat}
    (hcount : chunks.length ≤ count) : randomChunks count text r = (chunks, last) := by
  induction h generalizing count with
  | done => simp [randomChunks]
  | @piece rest r r' last size chunks hne hdraw hrest ih =>
    obtain ⟨b, rest, rfl⟩ := List.exists_cons_of_ne_nil hne
    obtain ⟨count, rfl⟩ : ∃ n, count = n + 1 := ⟨count - 1, by simp at hcount; omega⟩
    have hlater := @ih count (by simpa using hcount)
    simp only [randomChunks, hdraw, hlater]

end

/-- Draws that are given, and zeros behind them. -/
structure Draws where
  given : List Nat

instance : RandomSource Draws where
  below n hn d := (⟨d.given.headD 0 % n, Nat.mod_lt _ hn⟩, ⟨d.given.tail⟩)
  toss odds d := (d.given.headD 0 < odds, ⟨d.given.tail⟩)

/-- Sizes that reach the length of a text cut it into pieces, whatever they are. -/
theorem exists_cutsInto {draws : List Nat} {text : Bytes} (hdraws : ∀ size ∈ draws, size ≤ 64)
    (hsum : text.length ≤ draws.sum) :
    ∃ chunks last, CutsInto text (Draws.mk draws) chunks last := by
  induction draws generalizing text with
  | nil =>
    obtain rfl : text = [] := List.eq_nil_of_length_eq_zero (by simpa using hsum)
    exact ⟨_, _, .done⟩
  | cons size draws ih =>
    by_cases hne : text = []
    · rw [hne]
      exact ⟨_, _, .done⟩
    · obtain ⟨hsize, hdraws⟩ := List.forall_mem_cons.1 hdraws
      have hleft : (text.drop size).length ≤ draws.sum := by
        rw [List.sum_cons] at hsum
        rw [List.length_drop]
        omega
      obtain ⟨chunks, last, hrest⟩ := ih hdraws hleft
      have hdraw : RandomSource.below 65 (by decide) (Draws.mk (size :: draws)) =
          (⟨size, by omega⟩, ⟨draws⟩) :=
        Prod.ext (Fin.ext (Nat.mod_eq_of_lt (by simpa using Nat.lt_succ_of_le hsize))) rfl
      exact ⟨_, _, .piece hne hdraw hrest⟩

/-! ## Token lists -/

theorem firstDifference?_eq_none_iff {xs ys : List Token} :
    firstDifference? xs ys = none ↔ xs = ys := by
  induction xs generalizing ys with
  | nil => cases ys <;> simp [firstDifference?]
  | cons x xs ih =>
    cases ys with
    | nil => simp [firstDifference?]
    | cons y ys => by_cases hxy : x = y <;> simp [firstDifference?, hxy, ih]

theorem isLeast_firstDifference? {xs ys : List Token} {i : Nat}
    (h : firstDifference? xs ys = some i) : IsLeast {k | xs[k]? ≠ ys[k]?} i := by
  induction xs generalizing ys i with
  | nil =>
    cases ys with
    | nil => cases h
    | cons y ys =>
      cases h
      exact ⟨by simp, fun k _ => Nat.zero_le k⟩
  | cons x xs ih =>
    cases ys with
    | nil =>
      cases h
      exact ⟨by simp, fun k _ => Nat.zero_le k⟩
    | cons y ys =>
      by_cases hxy : x = y
      · subst hxy
        rw [firstDifference?, if_pos rfl] at h
        obtain ⟨j, hj, rfl⟩ := Option.map_eq_some_iff.1 h
        obtain ⟨hdiffer, hleast⟩ := ih hj
        refine ⟨by simpa using hdiffer, fun k hk => ?_⟩
        cases k with
        | zero => simp at hk
        | succ k => exact Nat.succ_le_succ (hleast (by simpa using hk))
      · rw [firstDifference?, if_neg hxy] at h
        cases h
        exact ⟨by simpa using hxy, fun k _ => Nat.zero_le k⟩

/-- Where one list is the beginning of the other, they differ where the shorter one ends. -/
theorem eq_length_of_isLeast {xs ys : List Token} {i : Nat}
    (h : IsLeast {k | xs[k]? ≠ ys[k]?} i) (hbegins : xs <+: ys) : i = xs.length := by
  obtain ⟨zs, rfl⟩ := hbegins
  obtain ⟨hdiffer, hleast⟩ := h
  have hle : xs.length ≤ i := by
    rcases Nat.lt_or_ge i xs.length with hlt | hle
    · exact absurd (List.getElem?_append_left hlt).symm hdiffer
    · exact hle
  have hmem : xs[xs.length]? ≠ (xs ++ zs)[xs.length]? := by
    intro heq
    have hzs : zs = [] := by simpa using heq.symm
    exact hdiffer (by rw [hzs, List.append_nil])
  exact Nat.le_antisymm (hleast hmem) hle

/-- What is known of a text stands at the places that the texts before it leave. -/
theorem getElem?_expected (start : Nat) (known : List (Sample.Kind × Bytes)) (k : Nat) :
    (expected start known)[k]? = known[k]?.map fun p =>
      ⟨p.1.rule, ⟨start + ((known.take k).flatMap Prod.snd).length,
        start + ((known.take (k + 1)).flatMap Prod.snd).length⟩⟩ := by
  induction known generalizing start k with
  | nil => rfl
  | cons p known ih =>
    cases k with
    | zero => simp [expected]
    | succ k => simp [expected, ih, Nat.add_assoc]

theorem within_expected {start : Nat} {known : List (Sample.Kind × Bytes)} {token : Token}
    (h : token ∈ expected start known) :
    start ≤ token.span.start ∧ token.span.start ≤ token.span.stop ∧
      token.span.stop ≤ start + (known.flatMap Prod.snd).length := by
  induction known generalizing start with
  | nil => cases h
  | cons p known ih =>
    have hlength : ((p :: known).flatMap Prod.snd).length =
        p.2.length + (known.flatMap Prod.snd).length := by simp
    rw [hlength]
    rcases List.mem_cons.1 h with rfl | hmem
    · simp
    · have hlater := ih hmem
      omega

/-! ## Scans -/

/-- Collecting comes to all results, or to the first of them that is an error. -/
theorem collectOnto_eq_mapM {σ : Type} [Source σ] (found : Array (Token × Bytes)) (count : Nat)
    (sc : Scanner σ) :
    (sc.collectOnto found count).1.map (·.map Prod.fst) =
      ((sc.take (fun token _ => token) count).1.mapM id).map (found.toList.map Prod.fst ++ ·) := by
  induction count generalizing sc found with
  | zero => simp [Scanner.collectOnto, Scanner.take, pure, Except.pure, Except.map]
  | succ count ih =>
    obtain ⟨result, sc', hnext⟩ : ∃ result sc', sc.next = (result, sc') := ⟨_, _, rfl⟩
    have hbytes : sc.nextWithBytes =
        (result.map fun token? => token?.map fun token => (token, sc'.lexeme), sc') := by
      rw [Scanner.nextWithBytes, hnext]
    rw [Scanner.collectOnto, hbytes]
    rcases result with e | _ | token
    · rw [Scanner.take_succ_of_error (congrArg Prod.fst hnext)]
      rfl
    · rw [Scanner.take_succ_of_over (congrArg Prod.fst hnext)]
      simp [pure, Except.pure, Except.map]
    · rw [Scanner.take_succ_of_token (congrArg Prod.fst hnext), hnext, List.mapM_cons]
      refine (ih (found.push (token, sc'.lexeme)) sc').trans ?_
      cases (sc'.take (fun token _ => token) count).1.mapM id with
      | error e => rfl
      | ok rest => simp [pure, Except.pure, Except.map]

theorem tokens_eq {σ : Type} [Source σ] (sc : Scanner σ) : tokens sc = sc.results.1.mapM id := by
  rw [tokens, Scanner.collect, collectOnto_eq_mapM, Scanner.results, Scanner.all_eq_take]
  cases (sc.take (fun token _ => token) sc.answerBound).1.mapM id <;> rfl

section
variable {t : Table} {text : Bytes} {chunks : List Bytes}

theorem results_whole (t : Table) (text : Bytes) :
    (scanner t (.ofBytes text)).results.1 = (Reading.ofText text).results t {} :=
  (Scanner.shows_fresh text).results

/-- A text in pieces has the results of the whole text. -/
theorem results_chunks (t : Table) (chunks : List Bytes) :
    (scanner t (.ofSource (Chunks.mk chunks))).results.1 =
      (scanner t (.ofBytes chunks.flatten)).results.1 := by
  rw [results_whole]
  exact (Scanner.shows_new (Buffer.stands_ofSource (Chunks.delivers chunks))).results

theorem scanChunks_eq (t : Table) (chunks : List Bytes) :
    scanChunks t chunks = scanWhole t chunks.flatten := by
  rw [scanChunks, scanWhole, tokens_eq, tokens_eq, results_chunks]

theorem scanWhole_eq_ok_iff {found : List Token} :
    scanWhole t text = .ok found ↔ (scanner t (.ofBytes text)).results.1 = found.map .ok := by
  rw [scanWhole, tokens_eq, Fallible.mapM_id_eq_ok_iff]

theorem compare_self {a b : Named} (h : a.tokens = b.tokens) : compare text a b = [] := by
  rw [compare, firstDifference?_eq_none_iff.2 h]

theorem compare_eq_nil_iff {a b : Named} : compare text a b = [] ↔ a.tokens = b.tokens := by
  refine ⟨fun h => ?_, compare_self⟩
  rw [← firstDifference?_eq_none_iff]
  cases hdiffer : firstDifference? a.tokens b.tokens with
  | none => rfl
  | some i =>
    rw [compare, hdiffer] at h
    cases h

/-- Where a text can be scanned there is nothing to complain of but what is known of it. -/
theorem run_eq (h : chunks.flatten = text) {found : List Token}
    (hfound : (scanner t (.ofBytes text)).results.1 = found.map .ok)
    (known : Option (List (Sample.Kind × Bytes))) :
    run t text chunks known =
      .scanned found.length [] (known.elim [] fun pieces =>
        compare text ⟨"whole", found⟩ ⟨"generator", expected 0 pieces⟩) := by
  have hwhole := scanWhole_eq_ok_iff.2 hfound
  have hchunked : scanChunks t chunks = .ok found := by rw [scanChunks_eq, h, hwhole]
  have hsame : compare text ⟨"whole", found⟩ ⟨"chunked", found⟩ = [] := compare_self rfl
  cases known <;> simp [run, judge, hwhole, hchunked, hsame]

theorem run_agrees_iff (h : chunks.flatten = text) (known : Option (List (Sample.Kind × Bytes))) :
    (run t text chunks known).agrees = true ↔
      ∃ found, (scanner t (.ofBytes text)).results.1 = found.map .ok ∧
        ∀ pieces, known = some pieces → expected 0 pieces = found := by
  constructor
  · intro hagrees
    cases hwhole : scanWhole t text with
    | error e => simp [run, judge, hwhole, Verdict.agrees] at hagrees
    | ok found =>
      have hfound := scanWhole_eq_ok_iff.1 hwhole
      refine ⟨found, hfound, fun pieces hpieces => ?_⟩
      rw [run_eq h hfound, hpieces] at hagrees
      have hnone : compare text ⟨"whole", found⟩ ⟨"generator", expected 0 pieces⟩ = [] := by
        simpa [Verdict.agrees] using hagrees
      exact (compare_eq_nil_iff.1 hnone).symm
  · intro hexists
    obtain ⟨found, hfound, hknown⟩ := hexists
    rw [run_eq h hfound]
    cases known with
    | none => rfl
    | some pieces => simp [Verdict.agrees, hknown pieces rfl, compare_self]

end

/-! ## The whole comparison -/

/-- A comparison says nothing about lists that are the same. Otherwise it begins with the first
place where they differ, which is where the shorter list ends if it is the beginning of the
other. -/
structure Locates (text : Bytes) (a b : Named) : Prop where
  silent_iff : compare text a b = [] ↔ a.tokens = b.tokens
  first : a.tokens ≠ b.tokens → ∃ i more, compare text a b = headline a b i :: more ∧
    IsLeast {k | a.tokens[k]? ≠ b.tokens[k]?} i ∧
    (a.tokens <+: b.tokens ∨ b.tokens <+: a.tokens → i = min a.tokens.length b.tokens.length)

theorem locates (text : Bytes) (a b : Named) : Locates text a b := by
  refine ⟨compare_eq_nil_iff, fun hne => ?_⟩
  cases hdiffer : firstDifference? a.tokens b.tokens with
  | none => exact absurd (firstDifference?_eq_none_iff.1 hdiffer) hne
  | some i =>
    have hleast := isLeast_firstDifference? hdiffer
    refine ⟨i, _, by rw [compare, hdiffer]; rfl, hleast, fun hbegins => ?_⟩
    rcases hbegins with hbegins | hbegins
    · rw [eq_length_of_isLeast hleast hbegins, Nat.min_eq_left hbegins.length_le]
    · have hleast' : IsLeast {k | b.tokens[k]? ≠ a.tokens[k]?} i := by
        simpa only [ne_comm] using hleast
      rw [eq_length_of_isLeast hleast' hbegins, Nat.min_eq_right hbegins.length_le]

/-- The range of a token lies in a text. -/
structure Within (text : Bytes) (token : Token) : Prop where
  start_le : token.span.start ≤ token.span.stop
  stop_le : token.span.stop ≤ text.length

/-- What a text comes to that is scanned whole and in pieces: both scans have the same results, and
everything agrees exactly if none of these is an error and they are what is known of the text. All
tokens that are compared lie in the text. -/
structure Exact (t : Table) (text : Bytes) (chunks : List Bytes)
    (known : Option (List (Sample.Kind × Bytes))) (whole : Scanner Exhausted)
    (chunked : Scanner Chunks) : Prop where
  new_whole : Scanner.new t (.ofBytes text) {} = .ok whole
  new_chunked : Scanner.new t (.ofSource ⟨chunks⟩) {} = .ok chunked
  same : chunked.results.1 = whole.results.1
  agrees_iff : (run t text chunks known).agrees = true ↔
    ∃ found, whole.results.1 = found.map .ok ∧
      ∀ pieces, known = some pieces → expected 0 pieces = found
  scanned_within : ∀ token, .ok token ∈ whole.results.1 → Within text token
  expected_within : ∀ pieces, known = some pieces → ∀ token ∈ expected 0 pieces, Within text token

theorem exact_of_flatten {t : Table} (hstart : 0 < t.size) {text : Bytes} {chunks : List Bytes}
    (h : chunks.flatten = text) {known : Option (List (Sample.Kind × Bytes))}
    (hknown : ∀ pieces, known = some pieces → pieces.flatMap Prod.snd = text) :
    Exact t text chunks known (scanner t (.ofBytes text)) (scanner t (.ofSource ⟨chunks⟩)) where
  new_whole := Scanner.new_eq hstart _
  new_chunked := Scanner.new_eq hstart _
  same := h ▸ results_chunks t chunks
  agrees_iff := run_agrees_iff h known
  scanned_within token hmem := by
    rw [results_whole] at hmem
    have htraverses := Reading.ofText_traverses t {} text
    exact ⟨Nat.le_of_lt (htraverses.nonempty token hmem), htraverses.stop_le token hmem⟩
  expected_within pieces hpieces token hmem := by
    obtain ⟨-, hstart, hstop⟩ := within_expected hmem
    rw [hknown pieces hpieces, Nat.zero_add] at hstop
    exact ⟨hstart, hstop⟩

end Crosscheck

end CombLexer
