/-
The buffer: a window on the input, with the positions of the token that is
being looked for.

`start`, `lastMatchEnd` and `cursor` are indices into `content`. Bytes before
`start` are dropped when more input is asked for, and `discarded` counts them,
so offsets into the stream never change. `pending` bounds how often a buffer
can still be refilled; `pending_refill_lt` is why waiting for input
comes to an end.
-/
import CombLexer.Scan.Error
import CombLexer.Source.Reader

namespace CombLexer

/-- A range of bytes of the stream. -/
structure Span where
  start : Nat
  stop : Nat
  deriving DecidableEq, Repr

def Span.length (s : Span) : Nat := s.stop - s.start

def Span.isEmpty (s : Span) : Bool := s.start == s.stop

/-- A window on the input that a source delivers. -/
structure Buffer (σ : Type) where
  content : Array UInt8 := #[]
  start : Nat := 0
  cursor : Nat := 0
  lastMatchEnd : Nat := 0
  matchedRule : Option Nat := none
  atEnd : Bool := false
  /-- How many bytes have been dropped from the front. -/
  discarded : Nat := 0
  source : σ

namespace Buffer

variable {σ : Type}

def ofSource (source : σ) : Buffer σ := { source }

/-- A buffer that holds all of its input. -/
def ofBytes (bytes : Bytes) : Buffer Exhausted :=
  { content := bytes.toArray, atEnd := true, source := .exhausted }

def ofScript (script : List Read) (chunkSize : Nat) : Buffer Reader :=
  ofSource (.ofScript script chunkSize)

/-! ## Reading and marking -/

/-- The byte at the cursor, if it is at hand. -/
def peek (b : Buffer σ) : Option UInt8 := b.content[b.cursor]?

/-- Moves the cursor behind the byte at it, if one is at hand. -/
def advance (b : Buffer σ) : Buffer σ :=
  if b.cursor < b.content.size then { b with cursor := b.cursor + 1 } else b

def advanceBy (b : Buffer σ) : Nat → Buffer σ
  | 0 => b
  | n + 1 => b.advance.advanceBy n

/-- Records a match that ends at the cursor. -/
def markMatch (b : Buffer σ) (rule : Nat) : Buffer σ :=
  { b with lastMatchEnd := b.cursor, matchedRule := some rule }

/-- Begins a token at the cursor. -/
def openToken (b : Buffer σ) : Buffer σ :=
  { b with start := b.cursor, lastMatchEnd := b.cursor, matchedRule := none }

/-- Takes the cursor back to the end of the longest match. -/
def rewind (b : Buffer σ) : Buffer σ := { b with cursor := b.lastMatchEnd }

/-- Drops everything at hand. -/
def clear (b : Buffer σ) : Buffer σ :=
  { b with
    content := #[], start := 0, cursor := 0, lastMatchEnd := 0, matchedRule := none
    discarded := b.discarded + b.content.size }

/-! ## What is seen of a buffer -/

/-- The bytes from the start of the token to the cursor. -/
def lexeme (b : Buffer σ) : Bytes := (b.content.extract b.start b.cursor).toList

def startOffset (b : Buffer σ) : Nat := b.discarded + b.start

def cursorOffset (b : Buffer σ) : Nat := b.discarded + b.cursor

def span (b : Buffer σ) : Span := ⟨b.startOffset, b.cursorOffset⟩

/-- How many bytes are at hand behind the cursor. -/
def unread (b : Buffer σ) : Nat := b.content.size - b.cursor

/-- Whether the input has been read to its end. -/
def isDone (b : Buffer σ) : Bool := b.atEnd && b.cursor == b.content.size

/-! ## Asking for more -/

/-- Drops the bytes before the token, if there are any. -/
def compact (b : Buffer σ) : Buffer σ :=
  if b.start = 0 then b
  else
    { b with
      content := b.content.extract b.start b.content.size
      start := 0
      cursor := b.cursor - b.start
      lastMatchEnd := b.lastMatchEnd - b.start
      discarded := b.discarded + b.start }

/-- Dropping bytes moves the positions and keeps the rest. -/
theorem compact_eq (b : Buffer σ) :
    b.compact =
      { b with
        content := b.content.extract b.start b.content.size
        start := 0
        cursor := b.cursor - b.start
        lastMatchEnd := b.lastMatchEnd - b.start
        discarded := b.discarded + b.start } := by
  unfold compact
  split
  · rename_i h
    cases b
    simp_all
  · rfl

/-- Takes in what a source has delivered. -/
def accept (b : Buffer σ) (d : Delivery) (source : σ) : Except ScanError Unit × Buffer σ :=
  let b := { b with content := b.content ++ d.appended, source }
  match d.report with
  | .error error => (.error (.source error), b)
  | .ok n => (.ok (), if n = 0 then { b with atEnd := true } else b)

/-- Asks the source for more input. Behind the end that fails and changes nothing. -/
def refill [Supply σ] (b : Buffer σ) : Except ScanError Unit × Buffer σ :=
  if b.atEnd then (.error (.exhausted b.cursorOffset), b)
  else
    let (d, source) := Supply.refill b.source
    b.compact.accept d source

/-- Passes over the byte at the cursor and begins a token behind it. The answer says whether there
was a byte. More input is asked for once, and only if no byte is at hand. -/
def skipByte [Supply σ] (b : Buffer σ) : Except ScanError Bool × Buffer σ :=
  let b := b.openToken
  let (result, b) :=
    if b.cursor = b.content.size ∧ b.atEnd = false then b.refill else (.ok (), b)
  match result with
  | .error e => (.error e, b)
  | .ok () =>
    if b.cursor = b.content.size then (.ok false, b)
    else (.ok true, { b with cursor := b.cursor + 1 }.openToken)

/-! ## How often that can go on -/

/-- A bound on how many more refills succeed. -/
def pending [Source σ] (b : Buffer σ) : Nat :=
  if b.atEnd then 0 else Source.capacity b.source + 1

/-- Every refill that succeeds lowers the bound. -/
theorem pending_refill_lt [Source σ] {b b' : Buffer σ}
    (h : b.refill = (.ok (), b')) : b'.pending < b.pending := by
  unfold refill at h
  split at h
  · cases h
  · rename_i hend
    have hlaw := Source.weight_add_capacity_le b.source
    unfold accept at h
    revert h
    generalize Supply.refill b.source = r at hlaw ⊢
    obtain ⟨d, source⟩ := r
    intro h
    simp only at h hlaw
    split at h
    · cases h
    · rename_i n hn
      simp only [Prod.mk.injEq, true_and] at h
      subst h
      have hpend : b.pending = Source.capacity b.source + 1 := by simp [pending, hend]
      rw [hpend]
      by_cases hzero : n = 0
      · simp [pending, hzero]
      · have hw : 1 ≤ d.weight := by
          simp [Delivery.weight, Delivery.isProgress, hn, hzero]
        have hend' : b.compact.atEnd = false := by simpa [compact_eq] using hend
        simp only [hzero, if_false, pending, hend', Bool.false_eq_true]
        omega

/-- Asks for input until a byte is at hand or the input is over. -/
def fill [Source σ] (b : Buffer σ) : Except ScanError Unit × Buffer σ :=
  if b.peek = none ∧ b.atEnd = false then
    match _h : b.refill with
    | (.error e, b') => (.error e, b')
    | (.ok (), b') => b'.fill
  else (.ok (), b)
  termination_by b.pending
  decreasing_by exact pending_refill_lt _h

end Buffer

end CombLexer
