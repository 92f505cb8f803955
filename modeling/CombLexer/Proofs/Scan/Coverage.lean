/-
A scan that recovers covers its input.

`Covers w k answers` says that the answers divide `w` from offset `k` on into
pieces that follow one another without gaps: a token has the bytes of its range,
which is not empty, and a failure stands for the one byte at its offset. Under
`Recovery.resync` all answers to the end of the stream cover the input from
offset 0 (`resync_covers`). What makes this so is that a token that failed still
has its first byte at hand, so the byte is passed over without asking for input
(`Shows.failed`, `skipByte_of_peek`).
-/
import CombLexer.Proofs.Scan.Reading

namespace CombLexer

/-- The answers divide a text from an offset on into pieces. -/
inductive Covers (w : Bytes) : Nat → List (Except ScanError (Token × Bytes)) → Prop
  | done : Covers w w.length []
  | token {k n rule : Nat} {rest : List (Except ScanError (Token × Bytes))} (hlt : k < n)
      (hle : n ≤ w.length) (hrest : Covers w n rest) :
      Covers w k (.ok (⟨rule, ⟨k, n⟩⟩, (w.drop k).take (n - k)) :: rest)
  | noMatch {k : Nat} {rest : List (Except ScanError (Token × Bytes))} (hlt : k < w.length)
      (hrest : Covers w (k + 1) rest) : Covers w k (.error (.noMatch k) :: rest)

namespace Reading

/-- A reading of a text has behind its offset what the text has there. -/
structure On (r : Reading) (w : Bytes) : Prop where
  offset_le : r.offset ≤ w.length
  ahead : r.ahead = w.drop r.offset

theorem On.ahead_length {r : Reading} {w : Bytes} (h : r.On w) :
    r.ahead.length = w.length - r.offset := by rw [h.ahead, List.length_drop]

theorem pass_offset {r : Reading} {n : Nat} (hn : n ≤ r.ahead.length) :
    (r.pass n).offset = r.offset + n :=
  congrArg (r.offset + ·) (List.length_take_of_le hn)

theorem On.pass {r : Reading} {w : Bytes} (h : r.On w) (n : Nat) : (r.pass n).On w := by
  have hle := h.offset_le
  have hlen := h.ahead_length
  by_cases hn : n ≤ r.ahead.length
  · have hoffset := pass_offset hn
    refine ⟨by omega, ?_⟩
    rw [hoffset, ← List.drop_drop, ← h.ahead]
    rfl
  · have hoffset : (r.pass n).offset = w.length := by
      show r.offset + (r.ahead.take n).length = w.length
      rw [List.length_take]
      omega
    refine ⟨by omega, ?_⟩
    rw [hoffset, List.drop_length]
    exact List.drop_eq_nil_of_le (Nat.le_of_not_le hn)

theorem On.resumed {r : Reading} {w : Bytes} (h : r.On w) : r.resumed.On w := by
  unfold Reading.resumed
  split
  · exact ⟨(h.pass 1).offset_le, (h.pass 1).ahead⟩
  · exact h

/-- What is left of the text is what is ahead, whatever has been answered. -/
theorem On.next {r : Reading} {w : Bytes} (h : r.On w) (t : Table) (config : Config) :
    (r.next t config).2.On w := by
  have hspec := r.next_spec t config
  have hon := h.resumed
  generalize r.next t config = step at hspec ⊢
  cases hspec with
  | finished => exact h
  | token => exact hon.pass _
  | ended => exact ⟨hon.offset_le, hon.ahead⟩
  | skipped => exact ⟨hon.offset_le, hon.ahead⟩
  | aborted => exact ⟨hon.offset_le, hon.ahead⟩

/-- Behind a failure that is recovered from, its byte is still to be passed over. -/
theorem next_of_noMatch {t : Table} {config : Config} {r : Reading} {k : Nat}
    (hrec : config.recovery = .resync) (h : (r.next t config).1 = .error (.noMatch k)) :
    (r.next t config).2.offset = k ∧ (r.next t config).2.skipFirst = true ∧
      (r.next t config).2.finished = false := by
  have hspec := r.next_spec t config
  have hfin₀ := r.resumed_finished
  generalize r.next t config = step at h hspec ⊢
  cases hspec with
  | finished => cases h
  | ended => cases h
  | token => cases h
  | skipped hfin =>
    cases h
    exact ⟨rfl, rfl, hfin₀.trans hfin⟩
  | aborted _ _ _ hrec' => exact absurd hrec hrec'

end Reading

namespace Scanner

variable {σ : Type}

/-- The scanner behind its next `n` answers. -/
def past [Source σ] : Nat → Scanner σ → Scanner σ
  | 0, sc => sc
  | n + 1, sc => past n sc.next.2

/-- A token together with its bytes, as the scanner behind it has them. -/
def withBytes (token : Token) (sc : Scanner σ) : Token × Bytes := (token, sc.lexeme)

section
variable [Source σ] {sc : Scanner σ} {t : Table} {config : Config} {r : Reading} {w : Bytes}

section
variable {α : Type} {view : Token → Scanner σ → α}

theorem take_succ_of_over {n : Nat} (h : sc.next.1 = .ok none) :
    sc.take view (n + 1) = ([], sc.next.2) := by
  rcases hnext : sc.next with ⟨result, sc'⟩
  rw [hnext] at h
  obtain rfl : result = .ok none := h
  simp [take, hnext]

theorem take_succ_of_token {n : Nat} {token : Token} (h : sc.next.1 = .ok (some token)) :
    sc.take view (n + 1) =
      (.ok (view token sc.next.2) :: (sc.next.2.take view n).1, (sc.next.2.take view n).2) := by
  rcases hnext : sc.next with ⟨result, sc'⟩
  rw [hnext] at h
  obtain rfl : result = .ok (some token) := h
  simp [take, hnext]

theorem take_succ_of_error {n : Nat} {e : ScanError} (h : sc.next.1 = .error e) :
    sc.take view (n + 1) =
      (.error e :: (sc.next.2.take view n).1, (sc.next.2.take view n).2) := by
  rcases hnext : sc.next with ⟨result, sc'⟩
  rw [hnext] at h
  obtain rfl : result = .error e := h
  simp [take, hnext]

end

/-- The answers of a scanner cover a text from an offset on. They come to an end with its last byte,
however many more are asked for. -/
def CoversFrom (sc : Scanner σ) (w : Bytes) (k : Nat) : Prop :=
  ∃ answers last, Covers w k answers ∧ last.finished = true ∧
    ∀ count, w.length - k < count → sc.take withBytes count = (answers, last)

theorem coversFrom_over (h : sc.next.1 = .ok none) (hfin : sc.next.2.finished = true) :
    sc.CoversFrom w w.length := by
  refine ⟨[], sc.next.2, .done, hfin, fun count hcount => ?_⟩
  obtain ⟨count, rfl⟩ : ∃ n, count = n + 1 := ⟨count - 1, by omega⟩
  exact take_succ_of_over h

theorem coversFrom_token {k n rule : Nat} (h : sc.next.1 = .ok (some ⟨rule, ⟨k, n⟩⟩))
    (hlex : sc.next.2.lexeme = (w.drop k).take (n - k)) (hlt : k < n) (hle : n ≤ w.length)
    (hrest : sc.next.2.CoversFrom w n) : sc.CoversFrom w k := by
  obtain ⟨answers, last, hcovers, hlast, htake⟩ := hrest
  refine ⟨.ok (withBytes ⟨rule, ⟨k, n⟩⟩ sc.next.2) :: answers, last, ?_, hlast, ?_⟩
  · rw [withBytes, hlex]
    exact .token hlt hle hcovers
  · intro count hcount
    obtain ⟨count, rfl⟩ : ∃ n, count = n + 1 := ⟨count - 1, by omega⟩
    rw [take_succ_of_token h, htake count (by omega)]

theorem coversFrom_noMatch {k : Nat} (h : sc.next.1 = .error (.noMatch k)) (hlt : k < w.length)
    (hrest : sc.next.2.CoversFrom w (k + 1)) : sc.CoversFrom w k := by
  obtain ⟨answers, last, hcovers, hlast, htake⟩ := hrest
  refine ⟨.error (.noMatch k) :: answers, last, .noMatch hlt hcovers, hlast, ?_⟩
  intro count hcount
  obtain ⟨count, rfl⟩ : ∃ n, count = n + 1 := ⟨count - 1, by omega⟩
  rw [take_succ_of_error h, htake count (by omega)]

/-- A scan that recovers covers its text from where the next token is looked for. -/
theorem Shows.coversFrom (hrec : config.recovery = .resync) (h : sc.Shows t config r)
    (hfin : r.finished = false) (hon : r.resumed.On w) : sc.CoversFrom w r.resumed.offset := by
  -- A token takes a byte at least off what is ahead, and so does the skip behind a failure.
  induction hleft : r.resumed.ahead.length using Nat.strongRecOn generalizing sc r with
  | _ left ih =>
    obtain ⟨hresult, hlex, hshows⟩ := h.next
    rw [Reading.next_of_not_finished hfin] at hresult hlex hshows
    have hskip₀ := r.resumed_skipFirst
    have hfin₀ := r.resumed_finished.trans hfin
    generalize r.resumed = r₀ at *
    have hlen := hon.ahead_length
    have hle := hon.offset_le
    by_cases hw : r₀.ahead = []
    · rw [Reading.scan_over hw] at hresult hshows
      rw [hw, List.length_nil] at hlen
      have hend : r₀.offset = w.length := by omega
      rw [hend]
      exact coversFrom_over hresult hshows.finished
    · have hpos : 0 < r₀.ahead.length := List.length_pos_iff.2 hw
      cases hm : t.longest? config.initialState r₀.ahead with
      | some m =>
        rw [Reading.scan_token hw hm] at hresult hlex hshows
        have hmle := Table.length_le_of_longest? hm
        have hmpos := Table.length_pos_of_longest? hw hm
        have hresumed := Reading.resumed_of_not_skipFirst (r := r₀.pass m.length) hskip₀
        have hon₁ := hon.pass m.length
        have hleft₁ : (r₀.pass m.length).ahead.length = left - m.length := by
          rw [← hleft]
          exact List.length_drop
        rw [← hresumed] at hon₁ hleft₁
        have hrest := ih (left - m.length) (by omega) hshows hfin₀ hon₁ hleft₁
        rw [hresumed, Reading.pass_offset hmle] at hrest
        refine coversFrom_token hresult ?_ (by omega) (by omega) hrest
        rw [hlex _ rfl, Nat.add_sub_cancel_left, ← hon.ahead]
      | none =>
        rw [Reading.scan_noMatch hw hm, if_pos hrec] at hresult hshows
        have hon₁ := hon.pass 1
        have hleft₁ : (r₀.pass 1).ahead.length = left - 1 := by
          rw [← hleft]
          exact List.length_drop
        have hrest : sc.next.2.CoversFrom w (r₀.pass 1).offset :=
          ih (left - 1) (by omega) hshows hfin₀ ⟨hon₁.offset_le, hon₁.ahead⟩ hleft₁
        rw [Reading.pass_offset hpos] at hrest
        exact coversFrom_noMatch hresult (by omega) hrest

theorem Shows.past (h : sc.Shows t config r) (hon : r.On w) (n : Nat) :
    ∃ r', (sc.past n).Shows t config r' ∧ r'.On w := by
  induction n generalizing sc r with
  | zero => exact ⟨r, h, hon⟩
  | succ n ih => exact ih h.next.shows (hon.next t config)

/-- Behind a failure at `k` the cursor stands at `k`, with the byte that `w` has there at hand. So
the byte is passed over whatever the source would answer. -/
theorem Shows.skip_of_noMatch (hrec : config.recovery = .resync) (h : sc.Shows t config r)
    (hon : r.On w) {k : Nat} (herr : sc.next.1 = .error (.noMatch k)) :
    sc.next.2.skipFirst = true ∧ sc.next.2.finished = false ∧
      sc.next.2.buffer.startOffset = k ∧ sc.next.2.buffer.cursorOffset = k ∧
      (∃ c, w[k]? = some c ∧ sc.next.2.buffer.peek = some c) ∧
      ∀ ask : Supply σ, @Buffer.skipByte σ ask sc.next.2.buffer =
        (.ok true, (sc.next.2.buffer.pass 1).openToken) := by
  obtain ⟨hresult, -, hshows⟩ := h.next
  have herr' : (r.next t config).1 = .error (.noMatch k) := by
    rw [herr] at hresult
    cases hr : (r.next t config).1 with
    | error e => rw [hr] at hresult; cases hresult; rfl
    | ok token => rw [hr] at hresult; cases hresult
  obtain ⟨hoffset, hskip, hfin⟩ := Reading.next_of_noMatch hrec herr'
  obtain ⟨hstart, hbyte⟩ := hshows.failed hskip
  rw [hoffset] at hstart
  obtain ⟨-, hcursor, rest, -, hinput⟩ := hshows.stands
  refine ⟨hshows.skipFirst.trans hskip, hshows.finished.trans hfin, hstart,
    hcursor.trans hoffset, ?_, fun ask => Buffer.skipByte_of_peek hbyte⟩
  obtain ⟨c, hc⟩ := Option.isSome_iff_exists.1 hbyte
  refine ⟨c, ?_, hc⟩
  rw [(hon.next t config).ahead, hoffset, Buffer.ahead_eq_cons hc] at hinput
  rw [← List.head?_drop, ← hinput]
  rfl

end

/-- A source has capacity for all that it delivers. -/
theorem length_le_capacity [Source σ] {source : σ} {w : Bytes} (h : Delivers source w) :
    w.length ≤ Source.capacity source := by
  induction h with
  | ended => exact Nat.zero_le _
  | @piece s bytes rest hdel hne hrest ih =>
    have hlaw := Source.weight_add_capacity_le s
    have hweight : bytes.length ≤ (Delivery.counted bytes).weight := Nat.le_add_right _ _
    rw [hdel] at hlaw
    rw [List.length_append]
    omega

/-- The bound on the answers of a scanner is beyond what it has before it. -/
theorem length_lt_answerBound [Source σ] {sc : Scanner σ} {offset : Nat} {w : Bytes}
    (h : sc.buffer.Stands offset w) : w.length < sc.answerBound := by
  obtain ⟨-, -, rest, howes, rfl⟩ := h
  have hrest : rest.length ≤ Source.capacity sc.buffer.source := by
    cases howes with
    | ended => exact Nat.zero_le _
    | more _ hrest => exact length_le_capacity hrest
  rw [List.length_append, Buffer.ahead_length, answerBound]
  omega

/-- A scanner on a buffer covers a text: it can be made, its answers to the end of the stream
divide the text from offset 0 on, and that end is reached. Behind each failure on the way the byte
that failed is at hand, and passing over it succeeds and changes nothing but the cursor, whatever
the source would answer. -/
def CoversText [Source σ] (t : Table) (config : Config) (w : Bytes) (b : Buffer σ) : Prop :=
  ∃ sc, Scanner.new t b config = .ok sc ∧
    (∃ answers last, sc.lexemes = (answers, last) ∧ Covers w 0 answers ∧ last.finished = true ∧
      ∀ count, w.length < count → sc.take withBytes count = (answers, last)) ∧
    ∀ n k, (sc.past n).next.1 = .error (.noMatch k) →
      (sc.past n).next.2.skipFirst = true ∧ (sc.past n).next.2.finished = false ∧
        (sc.past n).next.2.buffer.startOffset = k ∧ (sc.past n).next.2.buffer.cursorOffset = k ∧
        (∃ c, w[k]? = some c ∧ (sc.past n).next.2.buffer.peek = some c) ∧
        ∀ ask : Supply σ, @Buffer.skipByte σ ask (sc.past n).next.2.buffer =
          (.ok true, ((sc.past n).next.2.buffer.pass 1).openToken)

theorem coversText_of_stands [Source σ] {t : Table} {config : Config}
    (hstate : config.initialState < t.size) (hrec : config.recovery = .resync) {b : Buffer σ}
    {w : Bytes} (h : b.Stands 0 w) : CoversText t config w b := by
  have hshows : Shows { table := t, buffer := b, config } t config ⟨0, w, false, false⟩ :=
    shows_new h
  have hon : Reading.On ⟨0, w, false, false⟩ w := ⟨Nat.zero_le _, rfl⟩
  refine ⟨_, if_pos hstate, ?_, fun n k herr => ?_⟩
  · obtain ⟨answers, last, hcovers, hlast, htake⟩ := hshows.coversFrom hrec rfl hon
    refine ⟨answers, last, ?_, hcovers, hlast, htake⟩
    rw [lexemes, all_eq_take]
    exact htake _ (length_lt_answerBound hshows.stands)
  · obtain ⟨r, hshows', hon'⟩ := hshows.past hon n
    exact hshows'.skip_of_noMatch hrec hon' herr

/-- **Exact coverage.** Under `Recovery.resync`, from a state of the tables, the answers of a
scanner cover the text that its source delivers in any pieces, or that its buffer holds. -/
theorem resync_covers (t : Table) (config : Config) (hstate : config.initialState < t.size)
    (hrec : config.recovery = .resync) (w : Bytes) :
    (∀ (σ : Type) [Source σ] (source : σ), Delivers source w →
        CoversText t config w (.ofSource source)) ∧
      CoversText t config w (.ofBytes w) :=
  ⟨fun _ _ _ h => coversText_of_stands hstate hrec (Buffer.stands_ofSource h),
    coversText_of_stands hstate hrec (Buffer.stands_ofBytes w)⟩

/-- Bytes 0, 1 and 0 in three pieces: the second fails between two tokens. -/
theorem resync_covers_backingOff :
    0 < Table.backingOff.size ∧
      CoversText Table.backingOff { recovery := .resync } [0, 1, 0]
        (.ofSource (Chunks.mk [[0], [], [1, 0]])) ∧
      ∃ sc, Scanner.new Table.backingOff (.ofSource (Chunks.mk [[0], [], [1, 0]]))
          { recovery := .resync } = .ok sc ∧
        sc.lexemes.1 =
          [.ok (⟨7, ⟨0, 1⟩⟩, [0]), .error (.noMatch 1), .ok (⟨7, ⟨2, 3⟩⟩, [0])] := by
  have hs : 0 < Table.backingOff.size := by decide
  have hdel := Chunks.delivers [[0], [], [1, 0]]
  have hcovers :=
    (resync_covers Table.backingOff { recovery := .resync } hs rfl [0, 1, 0]).1 Chunks _ hdel
  refine ⟨hs, hcovers, ?_⟩
  obtain ⟨sc, hnew, ⟨answers, last, hall, -, -, htake⟩, -⟩ := hcovers
  refine ⟨sc, hnew, ?_⟩
  obtain rfl := Except.ok.inj (hnew.symm.trans (if_pos hs))
  -- Four calls go through the text: a token, the failure, a token, and the end.
  have hshows : Shows _ Table.backingOff { recovery := .resync } ⟨0, [0, 1, 0], false, false⟩ :=
    shows_new (Buffer.stands_ofSource hdel)
  have hfirst := hshows.next
  have hsecond := hfirst.shows.next
  have hthird := hsecond.shows.next
  have hover := hthird.shows.next
  rw [hall, ← congrArg Prod.fst (htake 4 (by decide)), take_succ_of_token (hfirst.result.trans rfl),
    take_succ_of_error (hsecond.result.trans rfl), take_succ_of_token (hthird.result.trans rfl),
    take_succ_of_over (hover.result.trans rfl), withBytes, withBytes, hfirst.lexeme _ rfl,
    hthird.lexeme _ rfl]
  rfl

end Scanner

end CombLexer
