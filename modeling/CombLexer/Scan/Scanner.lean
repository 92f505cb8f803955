/-
The scanner: a buffer cut into tokens, one call at a time.

`next` waits for input, walks the tables from the initial state and
reports the rule with the range it covers. Behind an error a scanner is
finished, except that under `Recovery.resync` input that no rule matches makes
the next call pass over one byte first. `resync` reopens a finished scanner.
`results` are the answers of `next` up to the end of the stream.
-/
import CombLexer.Note
import CombLexer.Scan.Config
import CombLexer.Scan.Walk

namespace CombLexer

/-- A rule together with the range of input that it matched. -/
structure Token where
  rule : Nat
  span : Span
  deriving DecidableEq, Repr

/-- A scan under way. -/
structure Scanner (σ : Type) where
  table : Table
  buffer : Buffer σ
  config : Config
  /-- Whether one byte is passed over before the next token. -/
  skipFirst : Bool := false
  finished : Bool := false
  journal : Array Note := #[]

variable {σ : Type}

structure Attempt (σ : Type) where
  result : Except ScanError (Option Token)
  notes : List Note
  buffer : Buffer σ

/-- Looks for a token from the cursor on. -/
def Table.attempt [Source σ] (t : Table) (initialState : Nat) (b : Buffer σ) : Attempt σ :=
  match b.openToken.fill with
  | (.error e, b) => ⟨.error e, [], b⟩
  | (.ok (), b) =>
    if b.isDone then ⟨.ok none, [], b⟩
    else
      let d := t.drive initialState b
      let refills := d.stops.map fun stop => Note.refill stop.offset stop.state
      match d.result with
      | .error e => ⟨.error e, refills, d.buffer⟩
      | .ok rule =>
        let span := d.buffer.span
        ⟨.ok (some ⟨rule, span⟩), refills ++ [.token rule span.start span.stop], d.buffer⟩

namespace Scanner

/-- A scanner on a buffer. The initial state must be one of the tables'. -/
def new (table : Table) (buffer : Buffer σ) (config : Config) : Except Fault (Scanner σ) :=
  if config.initialState < table.size then .ok { table, buffer, config }
  else .error (.initialState config.initialState table.size)

/-- A scanner on a reader, which reads in chunks of the configured size. -/
def ofScript (table : Table) (script : List Read) (config : Config) :
    Except Fault (Scanner Reader) :=
  new table (.ofScript script config.chunkSize) config

/-- Whether the search for tokens goes on behind an error. -/
def continues (config : Config) : ScanError → Bool
  | .noMatch _ => config.recovery = .resync
  | _ => false

/-- Looks for the next token and takes its outcome in. -/
def scanOn [Source σ] (sc : Scanner σ) : Except ScanError (Option Token) × Scanner σ :=
  let a := sc.table.attempt sc.config.initialState sc.buffer
  let sc := { sc with buffer := a.buffer, journal := sc.journal ++ a.notes }
  match a.result with
  | .ok token => (.ok token, { sc with finished := token.isNone })
  | .error e =>
    if continues sc.config e then (.error e, { sc with skipFirst := true })
    else (.error e, { sc with finished := true })

/-- The next token, nothing at the end of the stream, or an error. -/
def next [Source σ] (sc : Scanner σ) : Except ScanError (Option Token) × Scanner σ :=
  if sc.finished then (.ok none, sc)
  else if sc.skipFirst then
    let offset := sc.buffer.startOffset
    match sc.buffer.skipByte with
    | (.error e, buffer) => (.error e, { sc with buffer, skipFirst := false, finished := true })
    | (.ok _, buffer) =>
      { sc with buffer, skipFirst := false, journal := sc.journal.push (.skipped offset) }.scanOn
  else sc.scanOn

def lexeme (sc : Scanner σ) : Bytes := sc.buffer.lexeme

def nextWithBytes [Source σ] (sc : Scanner σ) :
    Except ScanError (Option (Token × Bytes)) × Scanner σ :=
  let (result, sc) := sc.next
  (result.map fun token? => token?.map fun token => (token, sc.lexeme), sc)

/-- Passes over one byte at the current position and reopens the scan. The answer says whether
there was a byte. -/
def resync [Source σ] (sc : Scanner σ) : Except ScanError Bool × Scanner σ :=
  let (result, buffer) := sc.buffer.skipByte
  (result, { sc with buffer, skipFirst := false, finished := false })

/-! ## Many tokens -/

/-- More answers than there can be before the end of the stream: all but the last two use up a
byte. -/
def answerBound [Source σ] (sc : Scanner σ) : Nat :=
  sc.buffer.unread + Source.capacity sc.buffer.source + 2

/-- The next answers up to the end of the stream, `count` at most, each token as `view` sees it
together with the scanner behind it. -/
def take [Source σ] {α : Type} (view : Token → Scanner σ → α) :
    Nat → Scanner σ → List (Except ScanError α) × Scanner σ
  | 0, sc => ([], sc)
  | count + 1, sc =>
    match sc.next with
    | (.ok none, sc) => ([], sc)
    | (.ok (some token), sc) =>
      let (rest, sc') := take view count sc
      (.ok (view token sc) :: rest, sc')
    | (.error e, sc) =>
      let (rest, sc') := take view count sc
      (.error e :: rest, sc')

/-- The same answers behind those found so far. No scanner is kept while the next one works. -/
def takeOnto [Source σ] {α : Type} (view : Token → Scanner σ → α)
    (found : Array (Except ScanError α)) :
    Nat → Scanner σ → Array (Except ScanError α) × Scanner σ
  | 0, sc => (found, sc)
  | count + 1, sc =>
    match sc.next with
    | (.ok none, sc) => (found, sc)
    | (.ok (some token), sc) => takeOnto view (found.push (.ok (view token sc))) count sc
    | (.error e, sc) => takeOnto view (found.push (.error e)) count sc

theorem takeOnto_eq [Source σ] {α : Type} (view : Token → Scanner σ → α)
    (found : Array (Except ScanError α)) (count : Nat) (sc : Scanner σ) :
    takeOnto view found count sc
      = (found ++ (take view count sc).1.toArray, (take view count sc).2) := by
  fun_induction takeOnto view found count sc with
  | case1 found sc => simp [take]
  | case2 found count sc sc' hn => simp [take, hn]
  | case3 found count sc token sc' hn ih => simp [take, hn, ih]
  | case4 found count sc e sc' hn ih => simp [take, hn, ih]

/-- All answers up to the end of the stream, each token as `view` sees it. -/
def all [Source σ] {α : Type} (view : Token → Scanner σ → α) (sc : Scanner σ) :
    List (Except ScanError α) × Scanner σ :=
  let (found, sc) := takeOnto view #[] sc.answerBound sc
  (found.toList, sc)

/-- All answers are those that can be taken before the bound is reached. -/
theorem all_eq_take [Source σ] {α : Type} (view : Token → Scanner σ → α) (sc : Scanner σ) :
    sc.all view = take view sc.answerBound sc := by
  simp [all, takeOnto_eq]

def results [Source σ] (sc : Scanner σ) : List (Except ScanError Token) × Scanner σ :=
  sc.all fun token _ => token

/-- All answers up to the end of the stream, tokens with their bytes. -/
def lexemes [Source σ] (sc : Scanner σ) : List (Except ScanError (Token × Bytes)) × Scanner σ :=
  sc.all fun token sc => (token, sc.lexeme)

/-- The next tokens with their bytes up to the end of the stream, `count` at most, behind those
found so far; or the first error on the way. -/
def collectOnto [Source σ] (found : Array (Token × Bytes)) :
    Nat → Scanner σ → Except ScanError (List (Token × Bytes)) × Scanner σ
  | 0, sc => (.ok found.toList, sc)
  | count + 1, sc =>
    match sc.nextWithBytes with
    | (.ok none, sc) => (.ok found.toList, sc)
    | (.error e, sc) => (.error e, sc)
    | (.ok (some token), sc) => collectOnto (found.push token) count sc

def collect [Source σ] (sc : Scanner σ) : Except ScanError (List (Token × Bytes)) × Scanner σ :=
  collectOnto #[] sc.answerBound sc

end Scanner

end CombLexer
