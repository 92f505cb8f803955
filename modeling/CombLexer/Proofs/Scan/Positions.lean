/-
The positions of a buffer: in every buffer that the operations make,
`start ≤ lastMatchEnd ≤ cursor`, the cursor lies within the bytes at hand, and
as long as no match has been found the end of the match is where the token
begins (`Buffer.Sound`).

Each operation has one lemma that says it keeps this. `openToken` needs only
the cursor to be in place (`Sound.of_openToken`), which is why a walk may leave
the other positions anywhere before a new token.
-/
import CombLexer.Scan.Walk

namespace CombLexer.Buffer

variable {σ : Type}

/-- The positions are in order and at hand, and a match not yet found ends where the token begins. -/
structure Sound (b : Buffer σ) : Prop where
  start_le : b.start ≤ b.lastMatchEnd
  lastMatchEnd_le : b.lastMatchEnd ≤ b.cursor
  cursor_le : b.cursor ≤ b.content.size
  unmatched : b.matchedRule = none → b.lastMatchEnd = b.start

theorem Sound.start_le_cursor {b : Buffer σ} (h : b.Sound) : b.start ≤ b.cursor :=
  Nat.le_trans h.start_le h.lastMatchEnd_le

theorem Sound.start_le_size {b : Buffer σ} (h : b.Sound) : b.start ≤ b.content.size :=
  Nat.le_trans h.start_le_cursor h.cursor_le

theorem sound_ofSource (source : σ) : (ofSource source).Sound :=
  ⟨Nat.le_refl 0, Nat.le_refl 0, Nat.le_refl 0, fun _ => rfl⟩

theorem sound_ofBytes (bytes : Bytes) : (ofBytes bytes).Sound :=
  ⟨Nat.le_refl 0, Nat.le_refl 0, Nat.zero_le _, fun _ => rfl⟩

theorem Sound.of_openToken {b : Buffer σ} (h : b.cursor ≤ b.content.size) : b.openToken.Sound :=
  ⟨Nat.le_refl _, Nat.le_refl _, h, fun _ => rfl⟩

theorem Sound.advance {b : Buffer σ} (h : b.Sound) : b.advance.Sound := by
  unfold Buffer.advance
  split
  · next hlt => exact ⟨h.start_le, Nat.le_succ_of_le h.lastMatchEnd_le, hlt, h.unmatched⟩
  · exact h

theorem Sound.markMatch {b : Buffer σ} (h : b.Sound) (rule : Nat) : (b.markMatch rule).Sound :=
  ⟨h.start_le_cursor, Nat.le_refl _, h.cursor_le, nofun⟩

theorem Sound.enter {b : Buffer σ} (h : b.Sound) (rule : Option Nat) : (b.enter rule).Sound := by
  cases rule with
  | none => exact h
  | some rule => exact h.markMatch rule

theorem Sound.rewind {b : Buffer σ} (h : b.Sound) : b.rewind.Sound :=
  ⟨h.start_le, Nat.le_refl _, Nat.le_trans h.lastMatchEnd_le h.cursor_le, h.unmatched⟩

/-- However a walk ends, it leaves the buffer taken back to the match. -/
@[simp] theorem settle_buffer (b : Buffer σ) : b.settle.2 = b.rewind := by
  unfold settle
  split <;> rfl

theorem Sound.clear {b : Buffer σ} : b.clear.Sound :=
  ⟨Nat.le_refl 0, Nat.le_refl 0, Nat.le_refl 0, fun _ => rfl⟩

theorem compact_toList (b : Buffer σ) : b.compact.content.toList = b.content.toList.drop b.start := by
  rw [compact_eq, Array.toList_extract, List.extract_eq_take_drop, ← Array.length_toList]
  exact List.take_of_length_le (Nat.le_of_eq (List.length_drop ..))

theorem Sound.compact {b : Buffer σ} (h : b.Sound) : b.compact.Sound := by
  have hcur := h.start_le_cursor
  have hsize := h.cursor_le
  rw [compact_eq]
  refine ⟨Nat.zero_le _, Nat.sub_le_sub_right h.lastMatchEnd_le _, ?_, fun hnone => ?_⟩
  · show b.cursor - b.start ≤ (b.content.extract b.start b.content.size).size
    rw [Array.size_extract]
    omega
  · show b.lastMatchEnd - b.start = 0
    rw [h.unmatched hnone, Nat.sub_self]

/-- What a source delivers goes behind all positions, whatever it reports. -/
theorem Sound.accept {b : Buffer σ} (h : b.Sound) (d : Delivery) (source : σ) :
    (b.accept d source).2.Sound := by
  have hsize : b.cursor ≤ (b.content ++ d.appended).size := by
    rw [← Array.length_toList, Array.toList_appendList, List.length_append, Array.length_toList]
    exact Nat.le_add_right_of_le h.cursor_le
  have hgrown : ({ b with content := b.content ++ d.appended, source } : Buffer σ).Sound :=
    ⟨h.start_le, h.lastMatchEnd_le, hsize, h.unmatched⟩
  unfold Buffer.accept
  cases d.report with
  | error e => exact hgrown
  | ok n =>
    by_cases hn : n = 0
    · simp only [if_pos hn]
      exact ⟨hgrown.start_le, hgrown.lastMatchEnd_le, hgrown.cursor_le, hgrown.unmatched⟩
    · simp only [if_neg hn]
      exact hgrown

theorem Sound.refill [Supply σ] {b : Buffer σ} (h : b.Sound) : b.refill.2.Sound := by
  unfold Buffer.refill
  split
  · exact h
  · exact h.compact.accept _ _

theorem Sound.of_refill [Supply σ] {b b' : Buffer σ} {result : Except ScanError Unit} (h : b.Sound)
    (hr : b.refill = (result, b')) : b'.Sound := by
  have hsound := h.refill
  rwa [hr] at hsound

/-- The buffer in which a byte to pass over is looked for: more input is asked for where none is
at hand. -/
def refillIfBare [Supply σ] (b : Buffer σ) : Except ScanError Unit × Buffer σ :=
  if b.cursor = b.content.size ∧ b.atEnd = false then b.refill else (.ok (), b)

/-- Passing over a byte, in three steps: a new token, a byte at hand, the cursor behind it. -/
theorem skipByte_eq [Supply σ] (b : Buffer σ) :
    b.skipByte =
      match b.openToken.refillIfBare with
      | (.error e, b) => (.error e, b)
      | (.ok (), b) =>
        if b.cursor = b.content.size then (.ok false, b)
        else (.ok true, { b with cursor := b.cursor + 1 }.openToken) := by
  simp only [skipByte, ← refillIfBare.eq_def]
  rcases b.openToken.refillIfBare with ⟨_ | _, _⟩ <;> rfl

theorem Sound.skipByte [Supply σ] {b : Buffer σ} (h : b.Sound) : b.skipByte.2.Sound := by
  have hasked : b.openToken.refillIfBare.2.Sound := by
    unfold refillIfBare
    split
    · exact (Sound.of_openToken h.cursor_le).refill
    · exact Sound.of_openToken h.cursor_le
  rw [skipByte_eq]
  split
  · next heq => rw [heq] at hasked; exact hasked
  · next b' heq =>
    rw [heq] at hasked
    split
    · exact hasked
    · next hne =>
      exact Sound.of_openToken (Nat.lt_of_le_of_ne hasked.cursor_le hne)

theorem Sound.of_skipByte [Supply σ] {b b' : Buffer σ} {result : Except ScanError Bool}
    (h : b.Sound) (hs : b.skipByte = (result, b')) : b'.Sound := by
  have hsound := h.skipByte
  rwa [hs] at hsound

/-- A walk keeps the positions of its token in order, suspended or not. -/
theorem Sound.walk {b : Buffer σ} (h : b.Sound) (t : Table) (s : Nat) : (t.walk s b).2.Sound := by
  fun_induction Table.walk t s b with
  | case1 s b c hc s' hs ih => exact ih (h.advance.enter _)
  | case2 s b c hc hs => simpa using h.rewind
  | case3 s b hc hend s' hs => simpa using (h.enter _).rewind
  | case4 s b hc hend hs => simpa using h.rewind
  | case5 s b hc hend => exact h

theorem Sound.of_walk {b b' : Buffer σ} {t : Table} {s : Nat} {outcome : Except ScanError Outcome}
    (h : b.Sound) (hw : t.walk s b = (outcome, b')) : b'.Sound := by
  have hsound := h.walk t s
  rwa [hw] at hsound

end CombLexer.Buffer
