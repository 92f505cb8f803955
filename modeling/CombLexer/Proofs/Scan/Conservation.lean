/-
No byte of the stream is lost, whatever is done to a buffer.

A recorder asks another supply and keeps what it appends, also where it fails
or reports 0 (`Recorder`). It makes no difference to the buffer
(`mapSource_run`), and it knows all that the buffer was fed: the bytes at hand
are the last of those, and `discarded` counts the ones before them (`Window`).
Each operation keeps that and the order of the positions (`Recorded.apply`), so
every run of operations does (`Recorded.run`). `run_conserves` says it of the
buffer without its recorder.
-/
import CombLexer.Proofs.Scan.WalkOutcome
import CombLexer.Source.Feed

namespace CombLexer

/-- A supply that keeps what it has appended. -/
structure Recorder (σ : Type) where
  source : σ
  taken : Bytes

instance {σ : Type} [Supply σ] : Supply (Recorder σ) where
  refill r :=
    let (d, source) := Supply.refill r.source
    (d, ⟨source, r.taken ++ d.appended⟩)

namespace Buffer

variable {σ τ : Type}

/-! ## Runs -/

/-- What can be done to a buffer. -/
inductive Op where
  | advance
  | markMatch (rule : Nat)
  | openToken
  | clear
  | refill
  | skipByte
  | step (t : Table) (s : Nat)

/-- The buffer that a walk from a state leaves, also where it has no answer. -/
def stepped (b : Buffer σ) (t : Table) (s : Nat) : Buffer σ :=
  match t.step s b with
  | .ok (_, b') => b'
  | .error halt => halt.buffer

/-- Does one thing to a buffer, whether it succeeds or not. -/
def apply [Supply σ] (b : Buffer σ) : Op → Buffer σ
  | .advance => b.advance
  | .markMatch rule => b.markMatch rule
  | .openToken => b.openToken
  | .clear => b.clear
  | .refill => b.refill.2
  | .skipByte => b.skipByte.2
  | .step t s => b.stepped t s

/-- Does one thing after another. -/
def run [Supply σ] (b : Buffer σ) (ops : List Op) : Buffer σ := ops.foldl apply b

theorem stepped_eq (b : Buffer σ) (t : Table) (s : Nat) :
    b.stepped t s =
      if s < t.size ∨ (b.peek = none ∧ b.atEnd = false) then (t.walk s b).2 else b := by
  unfold stepped Table.step Table.answer
  by_cases hbare : b.peek = none ∧ b.atEnd = false
  · rw [if_pos hbare, if_pos (.inr hbare)]
  · rw [if_neg hbare]
    by_cases hs : s < t.size
    · rw [if_pos hs, if_pos (.inl hs)]
      rfl
    · rw [if_neg hs, if_neg (not_or.2 ⟨hs, hbare⟩)]
      rfl

/-! ## The same buffer on another source -/

/-- The buffer with its source replaced. -/
def mapSource (f : σ → τ) (b : Buffer σ) : Buffer τ := { b with source := f b.source }

theorem mapSource_advance (f : σ → τ) (b : Buffer σ) :
    (b.mapSource f).advance = b.advance.mapSource f := by
  unfold advance
  rw [apply_ite (mapSource f)]
  rfl

theorem mapSource_compact (f : σ → τ) (b : Buffer σ) :
    (b.mapSource f).compact = b.compact.mapSource f := by
  rw [compact_eq, compact_eq]
  rfl

theorem mapSource_record (f : σ → τ) (b : Buffer σ) (m : Option Match) :
    (b.mapSource f).record m = (b.record m).mapSource f := by
  cases m <;> rfl

theorem mapSource_settle (f : σ → τ) (b : Buffer σ) :
    (b.mapSource f).settle = (b.settle.1, b.settle.2.mapSource f) := by
  obtain ⟨content, start, cursor, lastMatchEnd, matchedRule, atEnd, discarded, source⟩ := b
  cases matchedRule <;> rfl

theorem mapSource_walk (f : σ → τ) (b : Buffer σ) (t : Table) (s : Nat) :
    t.walk s (b.mapSource f) = ((t.walk s b).1, (t.walk s b).2.mapSource f) := by
  have hatEnd : (b.mapSource f).atEnd = b.atEnd := rfl
  have hahead : (b.mapSource f).ahead = b.ahead := rfl
  rw [t.walk_eq s (b.mapSource f), t.walk_eq s b, hatEnd, hahead]
  simp only [mapSource_record, mapSource_settle]
  cases b.atEnd with
  | true => rfl
  | false => cases t.after? s b.ahead <;> rfl

theorem mapSource_stepped (f : σ → τ) (b : Buffer σ) (t : Table) (s : Nat) :
    (b.mapSource f).stepped t s = (b.stepped t s).mapSource f := by
  rw [stepped_eq, stepped_eq, mapSource_walk, apply_ite (mapSource f)]
  rfl

theorem mapSource_accept (f : σ → τ) (b : Buffer σ) (d : Delivery) (source : σ) :
    (b.mapSource f).accept d (f source) =
      ((b.accept d source).1, (b.accept d source).2.mapSource f) := by
  unfold accept
  cases d.report with
  | error e => rfl
  | ok n => by_cases hn : n = 0 <;> simp only [hn, if_true, if_false] <;> rfl

section
variable [Supply σ] [Supply τ] {f : σ → τ}
  (hf : ∀ s, Supply.refill (f s) = ((Supply.refill s).1, f (Supply.refill s).2))
include hf

theorem mapSource_refill (b : Buffer σ) :
    (b.mapSource f).refill = (b.refill.1, b.refill.2.mapSource f) := by
  unfold refill
  cases hend : b.atEnd with
  | true =>
    have hend' : (b.mapSource f).atEnd = true := hend
    rw [if_pos hend', if_pos rfl]
    rfl
  | false =>
    have hend' : ¬ (b.mapSource f).atEnd = true := by simp [mapSource, hend]
    rw [if_neg hend', if_neg (by simp)]
    show (b.mapSource f).compact.accept (Supply.refill (f b.source)).1
      (Supply.refill (f b.source)).2 = _
    rw [hf, mapSource_compact, mapSource_accept]

theorem mapSource_refillIfBare (b : Buffer σ) :
    (b.mapSource f).refillIfBare = (b.refillIfBare.1, b.refillIfBare.2.mapSource f) := by
  unfold refillIfBare
  rw [mapSource_refill hf]
  by_cases hbare : b.cursor = b.content.size ∧ b.atEnd = false
  · rw [if_pos hbare]
    exact if_pos hbare
  · rw [if_neg hbare]
    exact if_neg hbare

theorem mapSource_skipByte (b : Buffer σ) :
    (b.mapSource f).skipByte = (b.skipByte.1, b.skipByte.2.mapSource f) := by
  have hopen : (b.mapSource f).openToken = b.openToken.mapSource f := rfl
  rw [skipByte_eq, skipByte_eq, hopen, mapSource_refillIfBare hf]
  rcases b.openToken.refillIfBare with ⟨_ | _, b'⟩
  · rfl
  · by_cases hbare : b'.cursor = b'.content.size
    · simp only [if_pos hbare]
      exact if_pos hbare
    · simp only [if_neg hbare]
      exact if_neg hbare

/-- A source that answers as another does makes no difference to what is done to a buffer. -/
theorem mapSource_apply (b : Buffer σ) (op : Op) :
    (b.mapSource f).apply op = (b.apply op).mapSource f := by
  cases op with
  | advance => exact mapSource_advance f b
  | markMatch rule => rfl
  | openToken => rfl
  | clear => rfl
  | refill => exact congrArg Prod.snd (mapSource_refill hf b)
  | skipByte => exact congrArg Prod.snd (mapSource_skipByte hf b)
  | step t s => exact mapSource_stepped f b t s

theorem mapSource_run (b : Buffer σ) (ops : List Op) :
    (b.mapSource f).run ops = (b.run ops).mapSource f := by
  induction ops generalizing b with
  | nil => rfl
  | cons op ops ih =>
    show ((b.mapSource f).apply op).run ops = ((b.apply op).run ops).mapSource f
    rw [mapSource_apply hf, ih]

end

/-! ## What has been fed -/

/-- The buffer on a recorder of its source. -/
def recording (b : Buffer σ) : Buffer (Recorder σ) := b.mapSource (⟨·, []⟩)

/-- The buffer without the recorder of its source. -/
def forget (b : Buffer (Recorder σ)) : Buffer σ := b.mapSource Recorder.source

/-- The bytes at hand are the last of what has been fed, and those before them have been counted. -/
structure Window (fed : Bytes) (b : Buffer σ) : Prop where
  discarded_le : b.discarded ≤ fed.length
  content_eq : b.content.toList = fed.drop b.discarded

section
variable {fed : Bytes} {b : Buffer σ}

theorem Window.length_eq (h : b.Window fed) : b.discarded + b.content.size = fed.length := by
  rw [← Array.length_toList, h.content_eq, List.length_drop]
  exact Nat.add_sub_cancel' h.discarded_le

theorem Window.compact (h : b.Window fed) (hstart : b.start ≤ b.content.size) :
    b.compact.Window fed := by
  have hdiscarded : b.compact.discarded = b.discarded + b.start := by rw [compact_eq]
  constructor
  · rw [hdiscarded, ← h.length_eq]
    exact Nat.add_le_add_left hstart _
  · rw [hdiscarded, compact_toList, h.content_eq, List.drop_drop]

theorem Window.clear (h : b.Window fed) : b.clear.Window fed := by
  constructor
  · exact Nat.le_of_eq h.length_eq
  · show [] = fed.drop (b.discarded + b.content.size)
    rw [h.length_eq, List.drop_length]

theorem Window.accept (h : b.Window fed) (d : Delivery) (source : σ) :
    (b.accept d source).2.Window (fed ++ d.appended) := by
  have hgrown : ({ b with content := b.content ++ d.appended, source } : Buffer σ).Window
      (fed ++ d.appended) := by
    constructor
    · rw [List.length_append]
      exact Nat.le_add_right_of_le h.discarded_le
    · rw [Array.toList_appendList, h.content_eq, List.drop_append_of_le_length h.discarded_le]
  unfold Buffer.accept
  cases d.report with
  | error e => exact hgrown
  | ok n =>
    by_cases hn : n = 0
    · simp only [if_pos hn]
      exact ⟨hgrown.discarded_le, hgrown.content_eq⟩
    · simp only [if_neg hn]
      exact hgrown

theorem accept_source (b : Buffer σ) (d : Delivery) (source : σ) :
    (b.accept d source).2.source = source := by
  unfold Buffer.accept
  cases d.report with
  | error e => rfl
  | ok n => by_cases hn : n = 0 <;> simp only [hn, if_true, if_false]

/-- Offsets into the stream find the bytes of the token there. -/
theorem Window.lexeme_eq (h : b.Window fed) :
    b.lexeme = (fed.take b.span.stop).drop b.span.start := by
  show b.lexeme = (fed.take (b.discarded + b.cursor)).drop (b.discarded + b.start)
  rw [Buffer.lexeme_eq, h.content_eq, List.drop_drop, List.drop_take, Nat.add_sub_add_left]

end

/-! ## Runs on a recorder -/

/-- A buffer whose recorder knows what it was fed behind the bytes that it began with. -/
structure Recorded (initial : Bytes) (b : Buffer (Recorder σ)) : Prop where
  sound : b.Sound
  window : b.Window (initial ++ b.source.taken)

section
variable {initial : Bytes} {b : Buffer (Recorder σ)}

/-- What only moves positions keeps the bytes. -/
theorem Recorded.of_sound {b' : Buffer (Recorder σ)} (h : b.Recorded initial) (hsound : b'.Sound)
    (hcontent : b'.content = b.content) (hdiscarded : b'.discarded = b.discarded)
    (hsource : b'.source = b.source) : b'.Recorded initial := by
  refine ⟨hsound, ?_, ?_⟩
  · rw [hdiscarded, hsource]
    exact h.window.discarded_le
  · rw [hcontent, hdiscarded, hsource]
    exact h.window.content_eq

theorem Recorded.openToken (h : b.Recorded initial) : b.openToken.Recorded initial :=
  h.of_sound (.of_openToken h.sound.cursor_le) rfl rfl rfl

theorem Recorded.advance (h : b.Recorded initial) : b.advance.Recorded initial := by
  refine h.of_sound h.sound.advance ?_ ?_ b.advance_source
  · unfold Buffer.advance
    split <;> rfl
  · unfold Buffer.advance
    split <;> rfl

theorem Recorded.markMatch (h : b.Recorded initial) (rule : Nat) :
    (b.markMatch rule).Recorded initial :=
  h.of_sound (h.sound.markMatch rule) rfl rfl rfl

theorem Recorded.enter (h : b.Recorded initial) (rule : Option Nat) :
    (b.enter rule).Recorded initial := by
  cases rule with
  | none => exact h
  | some rule => exact h.markMatch rule

theorem Recorded.rewind (h : b.Recorded initial) : b.rewind.Recorded initial :=
  h.of_sound h.sound.rewind rfl rfl rfl

theorem Recorded.clear (h : b.Recorded initial) : b.clear.Recorded initial :=
  ⟨.clear, h.window.clear⟩

theorem Recorded.walk (h : b.Recorded initial) (t : Table) (s : Nat) :
    (t.walk s b).2.Recorded initial := by
  fun_induction Table.walk t s b with
  | case1 s b c hc s' hs ih => exact ih (h.advance.enter _)
  | case2 s b c hc hs => simpa using h.rewind
  | case3 s b hc hend s' hs => simpa using (h.enter _).rewind
  | case4 s b hc hend hs => simpa using h.rewind
  | case5 s b hc hend => exact h

theorem Recorded.stepped (h : b.Recorded initial) (t : Table) (s : Nat) :
    (b.stepped t s).Recorded initial := by
  rw [stepped_eq]
  split
  · exact h.walk t s
  · exact h

/-- What the source appends is taken down, whether it is reported as a failure, as the end of the
input or at any length. -/
theorem Recorded.refill [Supply σ] (h : b.Recorded initial) : b.refill.2.Recorded initial := by
  refine ⟨h.sound.refill, ?_⟩
  unfold Buffer.refill
  split
  · exact h.window
  · -- Bytes are dropped before the source is asked, so also where it then fails.
    have haccept := (h.window.compact h.sound.start_le_size).accept
      (Supply.refill b.source).1 (Supply.refill b.source).2
    rw [List.append_assoc] at haccept
    show Window (initial ++ (b.compact.accept _ _).2.source.taken) _
    rw [accept_source]
    exact haccept

theorem Recorded.skipByte [Supply σ] (h : b.Recorded initial) : b.skipByte.2.Recorded initial := by
  have hasked : b.openToken.refillIfBare.2.Recorded initial := by
    unfold refillIfBare
    split
    · exact h.openToken.refill
    · exact h.openToken
  have hsound := h.sound.skipByte
  rw [skipByte_eq] at hsound ⊢
  rcases hbare : b.openToken.refillIfBare with ⟨_ | _, b'⟩
  · rw [hbare] at hasked
    exact hasked
  · simp only [hbare] at hasked hsound ⊢
    by_cases hover : b'.cursor = b'.content.size
    · rw [if_pos hover]
      exact hasked
    · rw [if_neg hover] at hsound ⊢
      exact hasked.of_sound hsound rfl rfl rfl

/-- Whatever is done to a buffer, its recorder knows what it was fed. -/
theorem Recorded.apply [Supply σ] (h : b.Recorded initial) (op : Op) :
    (b.apply op).Recorded initial := by
  cases op with
  | advance => exact h.advance
  | markMatch rule => exact h.markMatch rule
  | openToken => exact h.openToken
  | clear => exact h.clear
  | refill => exact h.refill
  | skipByte => exact h.skipByte
  | step t s => exact h.stepped t s

theorem Recorded.run [Supply σ] (h : b.Recorded initial) (ops : List Op) :
    (b.run ops).Recorded initial := by
  induction ops generalizing b with
  | nil => exact h
  | cons op ops ih => exact ih (h.apply op)

end

/-- The positions are in order, the bytes at hand are the last of those fed and the others are
counted, and the offsets of the token find its bytes among them. -/
structure Conserved (fed : Bytes) (b : Buffer σ) : Prop extends Sound b where
  content_eq : b.content.toList = fed.drop (b.startOffset - b.start)
  length_eq : b.startOffset - b.start + b.content.size = fed.length
  lexeme_eq : b.lexeme = (fed.take b.span.stop).drop b.span.start

theorem conserved_of_window {fed : Bytes} {b : Buffer σ} (hsound : b.Sound) (h : b.Window fed) :
    Conserved fed b := by
  have hdiscarded : b.startOffset - b.start = b.discarded := Nat.add_sub_cancel ..
  refine ⟨hsound, ?_, ?_, h.lexeme_eq⟩
  · rw [hdiscarded]
    exact h.content_eq
  · rw [hdiscarded]
    exact h.length_eq

/-- A run of operations conserves what the buffer was fed: the bytes that it began with and all that
a recorder, which makes no difference to the run, saw the source append. -/
def Conserves [Supply σ] (initial : Bytes) (b : Buffer σ) (ops : List Op) : Prop :=
  (b.recording.run ops).forget = b.run ops ∧
    Conserved (initial ++ (b.recording.run ops).source.taken) (b.run ops)

theorem Sound.mapSource {b : Buffer σ} (h : b.Sound) (f : σ → τ) : (b.mapSource f).Sound :=
  ⟨h.start_le, h.lastMatchEnd_le, h.cursor_le, h.unmatched⟩

theorem Window.mapSource {fed : Bytes} {b : Buffer σ} (h : b.Window fed) (f : σ → τ) :
    (b.mapSource f).Window fed :=
  ⟨h.discarded_le, h.content_eq⟩

theorem recorded_recording {initial : Bytes} {b : Buffer σ} (hsound : b.Sound)
    (hwindow : b.Window initial) : b.recording.Recorded initial := by
  refine ⟨hsound.mapSource _, ?_⟩
  show b.recording.Window (initial ++ [])
  rw [List.append_nil]
  exact hwindow.mapSource _

theorem conserves_of_window [Supply σ] {initial : Bytes} {b : Buffer σ} (hsound : b.Sound)
    (hwindow : b.Window initial) (ops : List Op) : Conserves initial b ops := by
  have hforget : b.run ops = (b.recording.run ops).forget :=
    mapSource_run (f := Recorder.source) (fun _ => rfl) b.recording ops
  obtain ⟨hsound', hwindow'⟩ := (recorded_recording hsound hwindow).run ops
  refine ⟨hforget.symm, ?_⟩
  rw [hforget]
  exact conserved_of_window (hsound'.mapSource _) (hwindow'.mapSource _)

/-- **Conservation of the stream.** Every run of operations on a fresh buffer conserves what the
buffer was fed, on any supply, on a buffer that holds its input and on a reader. -/
theorem run_conserves (ops : List Op) :
    (∀ (σ : Type) [Supply σ] (source : σ), Conserves [] (ofSource source) ops) ∧
      (∀ bytes : Bytes, Conserves bytes (ofBytes bytes) ops) ∧
      ∀ (script : List Read) (chunkSize : Nat), Conserves [] (ofScript script chunkSize) ops := by
  have key : ∀ (σ : Type) [Supply σ] (source : σ), Conserves [] (ofSource source) ops := by
    intro σ _ source
    have hwindow : (ofSource source).Window [] := ⟨Nat.le_refl 0, rfl⟩
    exact conserves_of_window (sound_ofSource source) hwindow ops
  refine ⟨key, fun bytes => ?_, fun script chunkSize => key Reader _⟩
  have hwindow : (ofBytes bytes).Window bytes := ⟨Nat.zero_le _, rfl⟩
  exact conserves_of_window (sound_ofBytes bytes) hwindow ops

/-- Two bytes come with a failure and one without; a token begins behind the first. -/
theorem run_conserves_lossy :
    let b : Buffer Feed := ofSource ⟨[⟨[5, 6], .error ⟨"lost"⟩⟩, .counted [7]], false⟩
    let ops : List Op := [.refill, .advance, .openToken, .refill, .advance]
    Conserves [] b ops ∧ (b.recording.run ops).source.taken = [5, 6, 7] ∧
      (b.run ops).content.toList = [6, 7] ∧ (b.run ops).span = ⟨1, 2⟩ ∧ (b.run ops).lexeme = [6] :=
  ⟨(run_conserves _).1 Feed _, by decide⟩

end Buffer

end CombLexer
