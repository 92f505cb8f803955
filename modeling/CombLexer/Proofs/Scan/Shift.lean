/-
The same scan further on in the stream.

To shift an answer is to add to every offset in it. A reading that stands
further on in the stream, with the same text before it, gives the same answers
shifted (`Reading.call_shift`), since its steps look at the text only and carry
the offset along. `Reading.results` are all its answers up to the end, without
a limit on how many they are, and `Scanner.Shows.results` says that they are
the results of a scanner that shows the reading.
-/
import CombLexer.Proofs.Scan.Chunking
import CombLexer.Proofs.Scan.Coverage

namespace CombLexer

def Token.shift (k : Nat) (token : Token) : Token :=
  { token with span := ⟨token.span.start + k, token.span.stop + k⟩ }

def ScanError.shift (k : Nat) : ScanError → ScanError
  | exhausted offset => exhausted (offset + k)
  | noMatch offset => noMatch (offset + k)
  | source error => source error

/-- Shifts an error, and an answer as `f` does. -/
def shifted {α : Type} (f : Nat → α → α) (k : Nat) : Except ScanError α → Except ScanError α
  | .ok a => .ok (f k a)
  | .error e => .error (e.shift k)

def Reply.shift (k : Nat) : Reply → Reply
  | next result => next (shifted (fun k => Option.map (Token.shift k)) k result)
  | nextWithBytes result =>
    nextWithBytes (shifted (fun k => Option.map (Prod.map (Token.shift k) id)) k result)
  | resync result => resync (shifted (fun _ => id) k result)

namespace Reading

/-- The reading of a whole text from its start. -/
def ofText (w : Bytes) : Reading := { offset := 0, ahead := w }

theorem on_ofText (w : Bytes) : (ofText w).On w := ⟨Nat.zero_le _, rfl⟩

/-- The same reading `k` bytes further on in the stream. -/
def shift (k : Nat) (r : Reading) : Reading := { r with offset := r.offset + k }

variable {t : Table} {config : Config}

theorem pass_shift (k n : Nat) (r : Reading) : (r.shift k).pass n = (r.pass n).shift k := by
  simp [shift, pass, Nat.add_right_comm]

theorem resumed_shift (k : Nat) (r : Reading) : (r.shift k).resumed = r.resumed.shift k := by
  unfold resumed
  rw [pass_shift]
  cases hskip : r.skipFirst <;> simp [shift, hskip]

theorem scan_shift (k : Nat) (r : Reading) :
    (r.shift k).scan t config =
      (shifted (fun k => Option.map (Prod.map (Token.shift k) id)) k (r.scan t config).1,
        (r.scan t config).2.shift k) := by
  by_cases hw : r.ahead = []
  · rw [scan_over hw, scan_over (r := r.shift k) hw]
    rfl
  · cases hm : t.longest? config.initialState r.ahead with
    | some m =>
      rw [scan_token hw hm, scan_token (r := r.shift k) hw hm, pass_shift]
      simp [shift, shifted, Token.shift, Nat.add_right_comm]
    | none =>
      rw [scan_noMatch hw hm, scan_noMatch (r := r.shift k) hw hm]
      split <;> rfl

theorem next_shift (k : Nat) (r : Reading) :
    (r.shift k).next t config =
      (shifted (fun k => Option.map (Prod.map (Token.shift k) id)) k (r.next t config).1,
        (r.next t config).2.shift k) := by
  cases hfin : r.finished with
  | true =>
    rw [next, next, if_pos hfin, if_pos (show (r.shift k).finished = true from hfin)]
    rfl
  | false =>
    rw [next_of_not_finished hfin, next_of_not_finished (r := r.shift k) hfin, resumed_shift,
      scan_shift]

/-- A call further on in the stream has the answer further on. -/
theorem call_shift (k : Nat) (r : Reading) (c : Call) :
    (r.shift k).call t config c =
      ((r.call t config c).1.shift k, (r.call t config c).2.shift k) := by
  cases c with
  | next =>
    simp only [call, next_shift, Reply.shift]
    rcases (r.next t config).1 with e | token?
    · rfl
    · cases token? <;> rfl
  | nextWithBytes => simp only [call, next_shift, Reply.shift]
  | resync =>
    simp only [call, resync, pass_shift, Reply.shift]
    rfl

theorem replies_shift (k : Nat) (r : Reading) (calls : List Call) :
    (r.shift k).replies t config calls =
      (r.replies t config calls).map (Prod.map (Reply.shift k) (· + k)) := by
  induction calls generalizing r with
  | nil => rfl
  | cons c calls ih =>
    rw [replies, call_shift, ih]
    rfl

/-! ## All answers -/

/-- How many bytes answers can still use up. -/
def left (r : Reading) : Nat := if r.finished then 0 else r.resumed.ahead.length

theorem left_of_not_finished {r : Reading} (h : r.finished = false) :
    r.left = r.resumed.ahead.length :=
  if_neg (by simp [h])

theorem left_le (r : Reading) : r.left ≤ r.ahead.length := by
  unfold left resumed
  split
  · exact Nat.zero_le _
  · split
    · exact List.length_drop ▸ Nat.sub_le _ _
    · exact Nat.le_refl _

/-- Every answer but the last uses up a byte. -/
theorem left_next_lt (r : Reading) (h : (r.next t config).1 ≠ .ok none) :
    (r.next t config).2.left < r.left := by
  have hspec := r.next_spec t config
  have hskip₀ := r.resumed_skipFirst
  have hfin₀ := r.resumed_finished
  generalize r.next t config = step at h hspec ⊢
  cases hspec with
  | finished => exact absurd rfl h
  | ended => exact absurd rfl h
  | @token m hfin hw hm =>
    rw [left_of_not_finished hfin]
    generalize r.resumed = r₀ at *
    have hleft : (r₀.pass m.length).left = r₀.ahead.length - m.length := by
      rw [left_of_not_finished (r := r₀.pass m.length) (hfin₀.trans hfin),
        resumed_of_not_skipFirst (r := r₀.pass m.length) hskip₀]
      exact List.length_drop
    have hpos := Table.length_pos_of_longest? hw hm
    have hle := Table.length_le_of_longest? hm
    refine Nat.lt_of_le_of_lt (Nat.le_of_eq hleft) ?_
    omega
  | skipped hfin hw =>
    rw [left_of_not_finished hfin]
    generalize r.resumed = r₀ at *
    have hleft : ({ r₀ with skipFirst := true } : Reading).left = r₀.ahead.length - 1 := by
      rw [left_of_not_finished (r := { r₀ with skipFirst := true }) (hfin₀.trans hfin),
        resumed_of_skipFirst hskip₀]
      exact List.length_drop
    have hpos := List.length_pos_iff.2 hw
    refine Nat.lt_of_le_of_lt (Nat.le_of_eq hleft) ?_
    omega
  | aborted hfin hw =>
    rw [left_of_not_finished hfin]
    exact List.length_pos_iff.2 hw

/-- The answers up to the end of the text. -/
def results (t : Table) (config : Config) (r : Reading) : List (Except ScanError Token) :=
  match _h : (r.next t config).1 with
  | .ok none => []
  | .ok (some token) => .ok token.1 :: (r.next t config).2.results t config
  | .error e => .error e :: (r.next t config).2.results t config
  termination_by r.left
  decreasing_by
    · exact r.left_next_lt (by simp [_h])
    · exact r.left_next_lt (by simp [_h])

section
variable {r : Reading}

theorem results_of_over (h : (r.next t config).1 = .ok none) : r.results t config = [] := by
  rw [results]
  split <;> simp_all

theorem results_of_token {token : Token × Bytes} (h : (r.next t config).1 = .ok (some token)) :
    r.results t config = .ok token.1 :: (r.next t config).2.results t config := by
  rw [results]
  split <;> simp_all

theorem results_of_error {e : ScanError} (h : (r.next t config).1 = .error e) :
    r.results t config = .error e :: (r.next t config).2.results t config := by
  rw [results]
  split <;> simp_all

theorem results_of_finished (h : r.finished = true) : r.results t config = [] :=
  results_of_over (by rw [next, if_pos h])

theorem results_resumed (hfin : r.finished = false) :
    r.resumed.results t config = r.results t config := by
  have hnext : r.resumed.next t config = r.next t config := next_resumed hfin
  cases hr : (r.next t config).1 with
  | error e => rw [results_of_error hr, results_of_error (hnext ▸ hr), hnext]
  | ok token? =>
    cases token? with
    | none => rw [results_of_over hr, results_of_over (hnext ▸ hr)]
    | some token => rw [results_of_token hr, results_of_token (hnext ▸ hr), hnext]

/-! A reading that is neither finished nor has a byte to pass over. -/

theorem next_of_ready (hskip : r.skipFirst = false) (hfin : r.finished = false) :
    r.next t config = r.scan t config := by
  rw [next_of_not_finished hfin, resumed_of_not_skipFirst hskip]

theorem results_over (hskip : r.skipFirst = false) (hfin : r.finished = false)
    (hw : r.ahead = []) : r.results t config = [] :=
  results_of_over (by rw [next_of_ready hskip hfin, scan_over hw])

theorem results_token (hskip : r.skipFirst = false) (hfin : r.finished = false) (hw : r.ahead ≠ [])
    {m : Match} (hm : t.longest? config.initialState r.ahead = some m) :
    r.results t config =
      .ok ⟨m.rule, ⟨r.offset, r.offset + m.length⟩⟩ :: (r.pass m.length).results t config := by
  have hnext : r.next t config = _ := (next_of_ready hskip hfin).trans (scan_token hw hm)
  rw [results_of_token (congrArg Prod.fst hnext), hnext]

theorem results_skipped (hskip : r.skipFirst = false) (hfin : r.finished = false)
    (hw : r.ahead ≠ []) (hm : t.longest? config.initialState r.ahead = none)
    (hrec : config.recovery = .resync) :
    r.results t config = .error (.noMatch r.offset) :: (r.pass 1).results t config := by
  have hnext : r.next t config = _ := (next_of_ready hskip hfin).trans (scan_noMatch hw hm)
  rw [if_pos hrec] at hnext
  have hrest : ({ r with skipFirst := true } : Reading).results t config =
      (r.pass 1).results t config := by
    rw [← resumed_of_skipFirst hskip]
    exact (results_resumed (r := { r with skipFirst := true }) hfin).symm
  rw [results_of_error (congrArg Prod.fst hnext), hnext, hrest]

theorem results_aborted (hskip : r.skipFirst = false) (hfin : r.finished = false)
    (hw : r.ahead ≠ []) (hm : t.longest? config.initialState r.ahead = none)
    (hrec : config.recovery ≠ .resync) : r.results t config = [.error (.noMatch r.offset)] := by
  have hnext : r.next t config = _ := (next_of_ready hskip hfin).trans (scan_noMatch hw hm)
  rw [if_neg hrec] at hnext
  rw [results_of_error (congrArg Prod.fst hnext), hnext]
  exact congrArg _ (results_of_finished rfl)

end

theorem results_shift (k : Nat) (r : Reading) :
    (r.shift k).results t config = (r.results t config).map (shifted Token.shift k) := by
  fun_induction results t config r with
  | case1 r h =>
    have hnext : ((r.shift k).next t config).1 = .ok none := by rw [next_shift, h]; rfl
    rw [results_of_over hnext]
    rfl
  | case2 r token h ih =>
    have hnext : ((r.shift k).next t config).1 = .ok (some (token.1.shift k, token.2)) := by
      rw [next_shift, h]
      rfl
    rw [results_of_token hnext, next_shift, ih]
    rfl
  | case3 r e h ih =>
    have hnext : ((r.shift k).next t config).1 = .error (e.shift k) := by rw [next_shift, h]; rfl
    rw [results_of_error hnext, next_shift, ih]
    rfl

end Reading

namespace Scanner

/-- The results of a scanner are the answers of the reading it shows. -/
theorem Shows.take_eq_results {σ : Type} [Source σ] {sc : Scanner σ} {t : Table} {config : Config}
    {r : Reading} (h : sc.Shows t config r) {n : Nat} (hn : r.left ≤ n) :
    (sc.take (fun token _ => token) n).1 = r.results t config := by
  induction n generalizing sc r with
  | zero =>
    by_cases hover : (r.next t config).1 = .ok none
    · rw [Reading.results_of_over hover]
      rfl
    · have hlt := r.left_next_lt hover
      omega
  | succ n ih =>
    obtain ⟨hresult, -, hshows⟩ := h.next
    have hless (hmore : (r.next t config).1 ≠ .ok none) : (r.next t config).2.left < r.left :=
      r.left_next_lt hmore
    cases hr : (r.next t config).1 with
    | error e =>
      have hnext : sc.next.1 = .error e := by rw [hresult, hr]; rfl
      have hlt := hless (by simp [hr])
      rw [take_succ_of_error hnext, Reading.results_of_error hr, ih hshows (by omega)]
    | ok token? =>
      cases token? with
      | none =>
        have hnext : sc.next.1 = .ok none := by rw [hresult, hr]; rfl
        rw [take_succ_of_over hnext, Reading.results_of_over hr]
      | some token =>
        have hnext : sc.next.1 = .ok (some token.1) := by rw [hresult, hr]; rfl
        have hlt := hless (by simp [hr])
        rw [take_succ_of_token hnext, Reading.results_of_token hr, ih hshows (by omega)]

theorem Shows.results {σ : Type} [Source σ] {sc : Scanner σ} {t : Table} {config : Config}
    {r : Reading} (h : sc.Shows t config r) : sc.results.1 = r.results t config := by
  have hbound := length_lt_answerBound h.stands
  have hleft := r.left_le
  rw [Scanner.results, all_eq_take]
  exact h.take_eq_results (by omega)

end Scanner

end CombLexer
