/-
Tables never crash a walk, and never keep it going for ever.

`Arrays.walkWithin` is the walk as a loop over arrays that nobody has validated:
it reads them by index, moves the cursor only over a byte, and has a limit on
its rounds. On tables it comes to the outcome of `Table.walk` within one round
for each byte at hand and two more for the end of the input (`walkWithin_eq`).
`Table.never_crashes` puts this together with the reads of a single state, and
says of a walk that is suspended that it can be taken up again.
-/
import CombLexer.Proofs.Scan.WalkOutcome
import CombLexer.Proofs.Table.Bounds

namespace CombLexer

open Fallible

variable {σ : Type}

/-- Moves the cursor over the byte at it, which must be at hand. -/
def Buffer.advanceAt (b : Buffer σ) : Except Crash (Buffer σ) :=
  if b.cursor < b.content.size then .ok { b with cursor := b.cursor + 1 }
  else .error (.pastInput b.cursor)

/-- Walks on from `s` for at most the given number of rounds, with chains of at most `states`
states. `endTaken` says whether the end of the input has been looked up already. -/
def Arrays.walkWithin (a : Arrays) (states : Nat) :
    Nat → Bool → Nat → Buffer σ → Except Crash (Except ScanError Outcome × Buffer σ)
  | 0, _, _, _ => .error .endless
  | rounds + 1, endTaken, s, b =>
    match b.peek with
    | some c => do
      match ← a.targetWithin c.toNat states s with
      | none => return b.settle
      | some s' =>
        let b ← b.advanceAt
        a.walkWithin states rounds endTaken s' (b.enter (← a.ruleAt s'))
    | none =>
      if b.atEnd = false then return (.ok (.suspended s), b)
      else if endTaken then return b.settle
      else do
        match ← a.targetWithin endOfInput states s with
        | none => return b.settle
        | some s' => a.walkWithin states rounds true s' (b.enter (← a.ruleAt s'))

theorem Buffer.advanceAt_of_peek {b : Buffer σ} {c : UInt8} (h : b.peek = some c) :
    b.advanceAt = .ok b.advance := by
  have hlt := (Buffer.advance_cursor h).1
  rw [Buffer.advanceAt, if_pos hlt, Buffer.advance, if_pos hlt]

theorem Buffer.settle_ne_suspended (b : Buffer σ) {s : Nat} :
    b.settle.1 ≠ .ok (.suspended s) := by
  unfold settle
  split <;> simp

@[simp] theorem Buffer.enter_peek (b : Buffer σ) (rule : Option Nat) :
    (b.enter rule).peek = b.peek := by
  cases rule <;> rfl

/-- With the end of the input taken, the next round is the last. -/
theorem Arrays.walkWithin_endTaken (a : Arrays) {states rounds s : Nat} {b : Buffer σ}
    (hpeek : b.peek = none) (hend : b.atEnd = true) :
    a.walkWithin states (rounds + 1) true s b = .ok b.settle := by
  rw [Arrays.walkWithin, hpeek]
  exact (if_neg (by simp [hend])).trans (if_pos rfl)

namespace Table

variable {t : Table}

/-- On tables the loop is the walk: one round for each byte at hand, one for the end of the input
and one to see that it has been taken. -/
theorem walkWithin_eq {states rounds s : Nat} {b : Buffer σ} (hstates : t.size ≤ states)
    (hs : s < t.size) (hrounds : b.unread + 2 ≤ rounds) :
    t.walkWithin states rounds false s b = .ok (t.walk s b) := by
  obtain ⟨rounds, rfl⟩ : ∃ n, rounds = n + 1 := ⟨rounds - 1, by omega⟩
  fun_induction Table.walk t s b generalizing rounds with
  | case1 s b c hc s' hs' ih =>
    have hlt := resolve?_lt hs'
    obtain ⟨hcursor, hadvance⟩ := Buffer.advance_cursor hc
    obtain ⟨rounds, rfl⟩ : ∃ n, rounds = n + 1 := ⟨rounds - 1, by omega⟩
    rw [Arrays.walkWithin, hc]
    simp only [targetWithin_eq hs hstates, hs', Buffer.advanceAt_of_peek hc, ruleAt_eq hlt, ok_bind]
    refine ih hlt rounds ?_
    simp only [Buffer.unread, Buffer.enter_content, Buffer.enter_cursor, Buffer.advance_size] at *
    omega
  | case2 s b c hc hs' =>
    rw [Arrays.walkWithin, hc]
    simp only [targetWithin_eq hs hstates, hs', ok_bind]
    rfl
  | case3 s b hc hend s' hs' =>
    have hlt := resolve?_lt hs'
    obtain ⟨rounds, rfl⟩ : ∃ n, rounds = n + 1 := ⟨rounds - 1, by omega⟩
    rw [Arrays.walkWithin, hc]
    simp only [targetWithin_eq hs hstates, hs', ruleAt_eq hlt, hend, ok_bind]
    refine t.walkWithin_endTaken ?_ ?_
    · rw [Buffer.enter_peek, hc]
    · rw [Buffer.enter_atEnd, hend]
  | case4 s b hc hend hs' =>
    rw [Arrays.walkWithin, hc]
    simp only [targetWithin_eq hs hstates, hs', hend, ok_bind]
    rfl
  | case5 s b hc hend =>
    rw [Arrays.walkWithin, hc]
    simp only [hend]
    rfl

/-- Where a walk is suspended, it has come to a state, the bytes at hand are used up, and more may
still come. -/
theorem of_walk_suspended {s s' : Nat} {b b' : Buffer σ} (hs : s < t.size)
    (h : t.walk s b = (.ok (.suspended s'), b')) :
    s' < t.size ∧ b'.atEnd = false ∧ b'.content.size = b.content.size ∧
      b'.cursor = max b.cursor b.content.size := by
  fun_induction Table.walk t s b with
  | case1 s b c hc s₁ hs₁ ih =>
    obtain ⟨hcursor, hadvance⟩ := Buffer.advance_cursor hc
    obtain ⟨hlt, hend, hsize, hmax⟩ := ih (resolve?_lt hs₁) h
    simp only [Buffer.enter_content, Buffer.enter_cursor, Buffer.advance_size] at hsize hmax
    refine ⟨hlt, hend, hsize, ?_⟩
    omega
  | case2 s b c hc hs₁ => exact absurd (congrArg Prod.fst h) b.settle_ne_suspended
  | case3 s b hc hend s₁ hs₁ => exact absurd (congrArg Prod.fst h) (Buffer.settle_ne_suspended _)
  | case4 s b hc hend hs₁ => exact absurd (congrArg Prod.fst h) b.settle_ne_suspended
  | case5 s b hc hend =>
    have hle : b.content.size ≤ b.cursor := Array.getElem?_eq_none_iff.1 hc
    cases h
    exact ⟨hs, Bool.eq_false_iff.2 hend, rfl, (Nat.max_eq_left hle).symm⟩

/-- **No crash and no endless loop.** From a state of tables, whatever they were made by, every
symbol is looked up inside the arrays, in no more states of a chain than there are, and what is
found is a state again. So a walk comes to its outcome on every buffer, and where it is suspended
it has read all bytes at hand and can be taken up from the state it names. -/
theorem never_crashes (t : Table) {s : Nat} (hs : s < t.size) :
    (∀ c, t.edgeAt s c = .ok (t.edge? s c)) ∧ t.fallbackAt s = .ok (t.fallback? s) ∧
      t.ruleAt s = .ok (t.rule? s) ∧
      (∀ c states, t.size ≤ states → t.targetWithin c states s = .ok (t.resolve? s c)) ∧
      (∀ c target, t.resolve? s c = some target → target < t.size) ∧
      ∀ (σ : Type) (b : Buffer σ),
        t.step s b = .ok (t.walk s b) ∧
        (∀ states rounds, t.size ≤ states → b.unread + 2 ≤ rounds →
          t.walkWithin states rounds false s b = .ok (t.walk s b)) ∧
        ∀ s' b', t.walk s b = (.ok (.suspended s'), b') →
          s' < t.size ∧ b'.atEnd = false ∧
            (b.cursor ≤ b.content.size → b'.cursor = b'.content.size) ∧
            ∀ b'' : Buffer σ, t.step s' b'' = .ok (t.walk s' b'') := by
  refine ⟨fun c => edgeAt_eq hs, fallbackAt_eq hs, ruleAt_eq hs,
    fun c states hstates => targetWithin_eq hs hstates, fun c target => resolve?_lt,
    fun σ b => ⟨step_eq hs b, ?_, ?_⟩⟩
  · intro states rounds hstates hrounds
    exact walkWithin_eq hstates hs hrounds
  · intro s' b' hwalk
    obtain ⟨hlt, hend, hsize, hcursor⟩ := of_walk_suspended hs hwalk
    refine ⟨hlt, hend, fun hle => ?_, fun b'' => step_eq hlt b''⟩
    omega

/-- Tables of two states: byte 0 leads from the first to the second, which accepts rule 7 and falls
back on the first. The base of the second lies far outside the slots. -/
def leaning : Table where
  base := #[.ofNat 0, .ofNat 4294967294]
  fallback := #[none, .ofNat 0]
  check := #[.ofNat 0]
  transition := #[.ofNat 1]
  accept := #[none, .ofNat 7]
  sound := by decide

/-- Byte 0, with more to come: the chain ends with its second state, and the walk is suspended
behind the byte. -/
theorem never_crashes_leaning :
    1 < leaning.size ∧ leaning.targetWithin 0 2 1 = .ok (some 1) ∧
      ∃ b', leaning.walkWithin 2 3 false 1 { content := #[0], source := Exhausted.exhausted } =
          .ok (.ok (.suspended 1), b') ∧
        b'.atEnd = false ∧ b'.cursor = b'.content.size := by
  have hs : 1 < leaning.size := by decide
  obtain ⟨-, -, -, htarget, -, hbuffers⟩ := leaning.never_crashes hs
  obtain ⟨-, hwithin, hsuspended⟩ :=
    hbuffers Exhausted { content := #[0], source := Exhausted.exhausted }
  have hwalk := leaning.walk_eq 1 { content := #[0], source := Exhausted.exhausted }
  obtain ⟨-, hend, hcursor, -⟩ := hsuspended 1 _ hwalk
  exact ⟨hs, htarget 0 2 (by decide), _, (hwithin 2 3 (by decide) (by decide)).trans
    (congrArg _ hwalk), hend, hcursor (by decide)⟩

/-- Without the check on targets, the slot of a state may hold the word for an absent cell, and the
next look at the arrays crashes. -/
example :
    let a : Arrays := ⟨#[some 0], #[none], #[some 0], #[none], #[none]⟩
    a.walkWithin 1 4 false 0 (Buffer.ofBytes [0, 0]) =
      .error (.outside .accept Cell.absentWord) := by
  rfl

end Table

end CombLexer
