/-
Walking the tables over a buffer.

`walk` reads bytes for as long as the tables have a target for them, remembers
the last state on the way that accepts a rule, and takes the cursor back to
there in the end: the longest match. Behind the last byte of the input the end
itself is looked up, once. Where no byte is at hand but the input goes on, the
walk is suspended; `drive` asks for more input and walks on until there is a
result.
-/
import CombLexer.Scan.Buffer

namespace CombLexer

inductive Outcome where
  | matched (rule : Nat)
  | suspended (state : Nat)
  deriving DecidableEq, Repr

namespace Buffer

variable {σ : Type}

/-- Records the rule of the state that has been reached, if it accepts one. -/
def enter (b : Buffer σ) : Option Nat → Buffer σ
  | some rule => b.markMatch rule
  | none => b

/-- Ends a walk: the cursor goes back to the end of the longest match, which is the outcome. -/
def settle (b : Buffer σ) : Except ScanError Outcome × Buffer σ :=
  match b.matchedRule with
  | some rule => (.ok (.matched rule), b.rewind)
  | none => (.error (.noMatch b.startOffset), b.rewind)

theorem advance_size (b : Buffer σ) : b.advance.content.size = b.content.size := by
  unfold advance
  split <;> rfl

theorem advance_cursor {b : Buffer σ} {c : UInt8} (h : b.peek = some c) :
    b.cursor < b.content.size ∧ b.advance.cursor = b.cursor + 1 := by
  obtain ⟨hlt, _⟩ := Array.getElem?_eq_some_iff.1 h
  exact ⟨hlt, by simp [advance, hlt]⟩

@[simp] theorem enter_content (b : Buffer σ) (rule : Option Nat) :
    (b.enter rule).content = b.content := by cases rule <;> rfl

@[simp] theorem enter_cursor (b : Buffer σ) (rule : Option Nat) :
    (b.enter rule).cursor = b.cursor := by cases rule <;> rfl

@[simp] theorem enter_source (b : Buffer σ) (rule : Option Nat) :
    (b.enter rule).source = b.source := by cases rule <;> rfl

@[simp] theorem enter_atEnd (b : Buffer σ) (rule : Option Nat) :
    (b.enter rule).atEnd = b.atEnd := by cases rule <;> rfl

@[simp] theorem advance_source (b : Buffer σ) : b.advance.source = b.source := by
  unfold advance
  split <;> rfl

@[simp] theorem advance_atEnd (b : Buffer σ) : b.advance.atEnd = b.atEnd := by
  unfold advance
  split <;> rfl

@[simp] theorem settle_source (b : Buffer σ) : b.settle.2.source = b.source := by
  unfold settle
  split <;> rfl

@[simp] theorem settle_atEnd (b : Buffer σ) : b.settle.2.atEnd = b.atEnd := by
  unfold settle
  split <;> rfl

end Buffer

variable {σ : Type}

/-- Walks on from `s` over the bytes at hand. -/
def Table.walk (t : Table) (s : Nat) (b : Buffer σ) : Except ScanError Outcome × Buffer σ :=
  match _hc : b.peek with
  | some c =>
    match t.resolve? s c.toNat with
    | some s' => t.walk s' (b.advance.enter (t.rule? s'))
    | none => b.settle
  | none =>
    if b.atEnd then
      match t.resolve? s endOfInput with
      | some s' => (b.enter (t.rule? s')).settle
      | none => b.settle
    else (.ok (.suspended s), b)
  termination_by b.content.size - b.cursor
  decreasing_by
    have := Buffer.advance_cursor _hc
    simp only [Buffer.enter_content, Buffer.enter_cursor, Buffer.advance_size]
    omega

/-- A walk asks for no input. -/
theorem Table.walk_source (t : Table) (s : Nat) (b : Buffer σ) :
    (t.walk s b).2.source = b.source ∧ (t.walk s b).2.atEnd = b.atEnd := by
  fun_induction Table.walk t s b with
  | case1 s b c hc s' hs ih => simpa using ih
  | case2 s b c hc hs => simp
  | case3 s b hc hend s' hs => simp
  | case4 s b hc hend hs => simp
  | case5 s b hc hend => simp

/-- Why a walk from a state has no answer, and the buffer that it leaves. -/
structure Halt (σ : Type) where
  fault : Fault
  buffer : Buffer σ

/-- Walks from a state, which must be one of the tables' unless no symbol is looked up. -/
def Table.step (t : Table) (s : Nat) (b : Buffer σ) :
    Except (Halt σ) (Except ScanError Outcome × Buffer σ) :=
  if b.peek = none ∧ b.atEnd = false then .ok (t.walk s b)
  else (t.answer s (t.walk s b)).mapError fun fault => ⟨fault, b⟩

structure Stop where
  offset : Nat
  state : Nat
  deriving DecidableEq, Repr

/-- A walk to its end, with all input that it needed. -/
structure Drive (σ : Type) where
  stops : List Stop
  result : Except ScanError Nat
  buffer : Buffer σ

/-- The same walk with an earlier stop. -/
def Drive.behind (d : Drive σ) (stop : Stop) : Drive σ := { d with stops := stop :: d.stops }

/-- Walks from a state to a result, asking for more input wherever the walk is suspended. -/
def Table.drive [Source σ] (t : Table) (s : Nat) (b : Buffer σ) : Drive σ :=
  match _hw : t.walk s b with
  | (.error e, b') => ⟨[], .error e, b'⟩
  | (.ok (.matched rule), b') => ⟨[], .ok rule, b'⟩
  | (.ok (.suspended s'), b') =>
    let stop : Stop := ⟨b'.cursorOffset, s'⟩
    match _hr : b'.refill with
    | (.error e, b'') => ⟨[stop], .error e, b''⟩
    | (.ok (), b'') => (t.drive s' b'').behind stop
  termination_by b.pending
  decreasing_by
    have hkeep : b'.source = b.source ∧ b'.atEnd = b.atEnd := by
      have h := t.walk_source s b
      rwa [_hw] at h
    have hlt := Buffer.pending_refill_lt _hr
    have heq : b'.pending = b.pending := by unfold Buffer.pending; rw [hkeep.1, hkeep.2]
    omega

/-- Walks from a state to a result. The state must be one of the tables' unless the source fails
before a symbol is looked up; where it is not, the buffer has taken in that symbol and no more. -/
def Table.driveFrom [Source σ] (t : Table) (s : Nat) (b : Buffer σ) :
    Except (Halt σ) (Drive σ) :=
  match b.fill with
  | (.error _, _) => .ok (t.drive s b)
  | (.ok (), b') => (t.answer s (t.drive s b)).mapError fun fault => ⟨fault, b'⟩

end CombLexer
