/-
How the input is delivered makes no difference to what a scanner answers.

A call is one of the three ways to move a scanner, and `replies` are the
answers to a list of calls, each with the offset that the cursor has then. On a
source that delivers a text in any pieces they are those of a reading of that
text (`Shows.replies`), and so the same as on a buffer that holds all of it
(`replies_eq_whole`).
-/
import CombLexer.Proofs.Scan.Reading

namespace CombLexer

/-- A call that moves a scanner. -/
inductive Call where
  | next
  | nextWithBytes
  | resync
  deriving DecidableEq, Repr

/-- The answer to a call. -/
inductive Reply where
  | next (result : Except ScanError (Option Token))
  | nextWithBytes (result : Except ScanError (Option (Token × Bytes)))
  | resync (result : Except ScanError Bool)

namespace Scanner

/-- Makes a call. -/
def call {σ : Type} [Source σ] (sc : Scanner σ) : Call → Reply × Scanner σ
  | .next => (.next sc.next.1, sc.next.2)
  | .nextWithBytes => (.nextWithBytes sc.nextWithBytes.1, sc.nextWithBytes.2)
  | .resync => (.resync sc.resync.1, sc.resync.2)

/-- The answers to calls, each with the offset of the cursor behind it. -/
def replies {σ : Type} [Source σ] : List Call → Scanner σ → List (Reply × Nat)
  | [], _ => []
  | c :: calls, sc =>
    ((sc.call c).1, (sc.call c).2.buffer.cursorOffset) :: replies calls (sc.call c).2

end Scanner

namespace Reading

/-- Makes a call on a reading. -/
def call (t : Table) (config : Config) (r : Reading) : Call → Reply × Reading
  | .next => (.next ((r.next t config).1.map (Option.map Prod.fst)), (r.next t config).2)
  | .nextWithBytes => (.nextWithBytes (r.next t config).1, (r.next t config).2)
  | .resync => (.resync r.resync.1, r.resync.2)

/-- The answers of a reading to calls, each with the offset behind it. -/
def replies (t : Table) (config : Config) : List Call → Reading → List (Reply × Nat)
  | [], _ => []
  | c :: calls, r =>
    ((r.call t config c).1, (r.call t config c).2.offset) ::
      replies t config calls (r.call t config c).2

end Reading

namespace Scanner

section
variable {σ : Type} [Source σ] {sc : Scanner σ} {t : Table} {config : Config} {r : Reading}

/-- A call gives the answer of the reading, and both go on together. -/
theorem Shows.call (h : sc.Shows t config r) (c : Call) :
    (sc.call c).1 = (r.call t config c).1 ∧ (sc.call c).2.Shows t config (r.call t config c).2 := by
  cases c with
  | next =>
    obtain ⟨hresult, -, hshows⟩ := h.next
    exact ⟨congrArg Reply.next hresult, hshows⟩
  | nextWithBytes =>
    obtain ⟨hresult, hshows⟩ := h.nextWithBytes
    exact ⟨congrArg Reply.nextWithBytes hresult, hshows⟩
  | resync =>
    obtain ⟨hresult, hshows⟩ := h.resync
    exact ⟨congrArg Reply.resync hresult, hshows⟩

/-- All calls give the answers of the reading. -/
theorem Shows.replies (h : sc.Shows t config r) (calls : List Call) :
    sc.replies calls = r.replies t config calls := by
  induction calls generalizing sc r with
  | nil => rfl
  | cons c calls ih =>
    obtain ⟨hreply, hshows⟩ := h.call c
    rw [Scanner.replies, Reading.replies, hreply, hshows.stands.cursorOffset, ih hshows]

end

/-- Two buffers are the same to scanners: both can be made, and give the same answers to calls. -/
def SameReplies {σ τ : Type} [Source σ] [Source τ] (t : Table) (config : Config)
    (calls : List Call) (b : Buffer σ) (b' : Buffer τ) : Prop :=
  ∃ sc sc', Scanner.new t b config = .ok sc ∧ Scanner.new t b' config = .ok sc' ∧
    sc.replies calls = sc'.replies calls

theorem new_eq {σ : Type} {t : Table} {config : Config} (hstate : config.initialState < t.size)
    (b : Buffer σ) : Scanner.new t b config = .ok { table := t, buffer := b, config } :=
  if_pos hstate

/-- A scanner on a buffer that stands at the start of a text answers as the reading of the text. -/
theorem replies_of_stands {σ : Type} [Source σ] {t : Table} (config : Config)
    (hstate : config.initialState < t.size) (calls : List Call) {b : Buffer σ} {w : Bytes}
    (h : b.Stands 0 w) :
    ∃ sc, Scanner.new t b config = .ok sc ∧
      sc.replies calls = Reading.replies t config calls ⟨0, w, false, false⟩ :=
  ⟨_, new_eq hstate b, (shows_new h).replies calls⟩

/-- Buffers that stand at the start of one text are the same to scanners. -/
theorem sameReplies_of_stands {σ τ : Type} [Source σ] [Source τ] {t : Table} {config : Config}
    (hstate : config.initialState < t.size) (calls : List Call) {b : Buffer σ} {b' : Buffer τ}
    {w : Bytes} (h : b.Stands 0 w) (h' : b'.Stands 0 w) : SameReplies t config calls b b' := by
  obtain ⟨sc, hnew, hreplies⟩ := replies_of_stands config hstate calls h
  obtain ⟨sc', hnew', hreplies'⟩ := replies_of_stands config hstate calls h'
  exact ⟨sc, sc', hnew, hnew', hreplies.trans hreplies'.symm⟩

/-- **Chunking invariance.** From a state of the tables, a scanner gives the same answers to the
same calls, with the cursor at the same offsets, on any source that delivers a text as on a buffer
that holds it: on any supply that does so, on pieces given from the start, on single deliveries
each counted right, and on reads of any sizes, interrupted or not, in chunks of any size. -/
theorem replies_eq_whole (t : Table) (config : Config) (hstate : config.initialState < t.size)
    (calls : List Call) :
    (∀ (σ : Type) [Source σ] (source : σ) (w : Bytes), Delivers source w →
        SameReplies t config calls (.ofSource source) (.ofBytes w)) ∧
      (∀ (σ : Type) [Supply σ] (supply : σ) (w : Bytes) (h : Delivers supply w),
        SameReplies t config calls (.ofSource (Ending.more supply w h)) (.ofBytes w)) ∧
      (∀ pieces : List Bytes,
        SameReplies t config calls (.ofSource (Chunks.mk pieces)) (.ofBytes pieces.flatten)) ∧
      (∀ pieces : List Bytes, (∀ bytes ∈ pieces, bytes ≠ []) →
        SameReplies t config calls (.ofSource (Feed.mk (pieces.map .counted) false))
          (.ofBytes pieces.flatten)) ∧
      ∀ (script : List Read) (chunkSize : Nat), (∀ e, Read.failure e ∉ script) →
        SameReplies t config calls (.ofScript script chunkSize) (.ofBytes (Reader.text script)) := by
  have key : ∀ (σ : Type) [Source σ] (source : σ) (w : Bytes), Delivers source w →
      SameReplies t config calls (.ofSource source) (.ofBytes w) := fun σ _ source w h =>
    sameReplies_of_stands hstate calls (Buffer.stands_ofSource h) (Buffer.stands_ofBytes w)
  refine ⟨key, fun σ _ supply w h => ?_, fun pieces => ?_, fun pieces hne => ?_,
    fun script chunkSize hok => ?_⟩
  · exact key (Ending σ) _ _ (Ending.delivers h h)
  · exact key Chunks _ _ (Chunks.delivers pieces)
  · exact key Feed _ _ (Feed.delivers pieces hne)
  · exact key Reader _ _ (Reader.delivers script hok chunkSize)

/-- Bytes 0, 1 and 0, in pieces and read one at a time. The first walk goes back behind byte 0, and
no token begins with byte 1. -/
theorem replies_eq_whole_backingOff :
    0 < Table.backingOff.size ∧
      SameReplies Table.backingOff { recovery := .resync } [.next, .nextWithBytes, .resync, .next]
        (.ofSource (Chunks.mk [[0], [], [1, 0]])) (.ofBytes [0, 1, 0]) ∧
      SameReplies Table.backingOff { recovery := .abort } [.resync, .next, .resync]
        (.ofScript [.data [0], .interrupted, .data [1, 0]] 0) (.ofBytes [0, 1, 0]) ∧
      ∃ sc sc', Scanner.new Table.backingOff (.ofBytes [0, 1, 0]) { recovery := .resync } = .ok sc ∧
        Scanner.new Table.backingOff (.ofBytes [0, 1, 0]) { recovery := .abort } = .ok sc' ∧
        sc.replies [.next, .nextWithBytes, .resync, .next] =
          [(.next (.ok (some ⟨7, ⟨0, 1⟩⟩)), 1), (.nextWithBytes (.error (.noMatch 1)), 1),
           (.resync (.ok true), 2), (.next (.ok (some ⟨7, ⟨2, 3⟩⟩)), 3)] ∧
        sc'.replies [.resync, .next, .resync] =
          [(.resync (.ok true), 1), (.next (.error (.noMatch 1)), 1), (.resync (.ok true), 2)] := by
  have hs : 0 < Table.backingOff.size := by decide
  have hw := Buffer.stands_ofBytes [0, 1, 0]
  refine ⟨hs, ?_, ?_, ?_⟩
  · exact (replies_eq_whole Table.backingOff _ hs _).2.2.1 [[0], [], [1, 0]]
  · exact (replies_eq_whole Table.backingOff _ hs _).2.2.2.2 _ 0 (by simp)
  · obtain ⟨sc, hnew, hreplies⟩ :=
      replies_of_stands { recovery := .resync } hs [.next, .nextWithBytes, .resync, .next] hw
    obtain ⟨sc', hnew', hreplies'⟩ :=
      replies_of_stands { recovery := .abort } hs [.resync, .next, .resync] hw
    exact ⟨sc, sc', hnew, hnew', hreplies.trans rfl, hreplies'.trans rfl⟩

end Scanner

end CombLexer
