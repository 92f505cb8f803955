/-
The tool that puts the scanner to the test on random texts in the sample
language, or on a text from a file.

A text is cut into pieces of random sizes, and a size can be 0, so cutting until
the text is used up comes to an end almost surely but not always. `check` draws
at most two sizes for each byte and 64 more, and what these leave of the text
is its last piece. Where fewer sizes use the text up, the limit makes no
difference; where not, the last piece can have more than 64 bytes, and the
choices that follow are others than without a limit.
-/
import CombLexer.Crosscheck
import CombLexer.Sample.Automaton
import CombLexer.Tool.Host
import CombLexer.Tool.Path

namespace CombLexer.Tool.Crosscheck

open CombLexer.Crosscheck (Verdict)

variable {m : Type → Type} [Monad m] [Host m]

/-- A number that a variable holds, or the default. -/
def numberOr (name : String) (otherwise : Nat) : Job m Nat := do
  let value ← setting? name
  return (value.bind fun text => Decimal.parse? Config.wordLimit text.toUTF8.toList).getD otherwise

/-- Whether a verdict is good, in a word. -/
def statusWord (agrees : Bool) : String := if agrees then "OK" else "MISMATCH!"

def reportVerdict (times : String) : Verdict → Job m Unit
  | .unscannable way e => report ("[" ++ way ++ "] " ++ e.message)
  | .scanned count chunkDifference pieceDifference => do
    chunkDifference.forM report
    report ("[fuzz] " ++ times ++ " | tokens = " ++ toString count ++ " -> "
      ++ statusWord chunkDifference.isEmpty)
    pieceDifference.forM report

/-- Cuts a text into random pieces, compares, and says what came of it. The answer says whether
everything agrees. -/
def check {ρ : Type} [RandomSource ρ] (table : Table) (r : ρ) (text : Bytes)
    (known : Option (List (Sample.Kind × Bytes))) : Job m (Bool × ρ) := do
  let (chunks, r) := CombLexer.Crosscheck.randomChunks (2 * text.length + 64) text r
  let (whole, wholeTime) ←
    ExceptT.lift (Host.timed fun _ => CombLexer.Crosscheck.scanWhole table text)
  let (chunked, chunkedTime) ←
    ExceptT.lift (Host.timed fun _ => CombLexer.Crosscheck.scanChunks table chunks)
  let verdict := CombLexer.Crosscheck.judge text whole chunked known
  reportVerdict
    ("whole " ++ toString wholeTime ++ " ms | chunked " ++ toString chunkedTime ++ " ms over "
      ++ toString chunks.length ++ " chunks")
    verdict
  return (verdict.agrees, r)

/-- The generator of random choices that a number selects. -/
def seeded (seed : Nat) : WordStream := { given := [], state := .ofNat seed }

def replay (table : Table) (path : String) : Job m UInt32 := do
  report ("[replay] reading " ++ path)
  let text ← orFail ("failed to read " ++ path) (← ExceptT.lift (Host.load path))
  let seed ← numberOr "FUZZ_SEED" 42
  let (agrees, _) ← check table (seeded seed) text none
  return if agrees then 0 else 1

/-- What a series of random texts is to be like. -/
structure Series where
  length : Nat
  count : Nat
  seed : Nat
  keepIn : Option String

def keep (directory : String) (seed i : Nat) (text : Bytes) : Job m Unit := do
  let name := "case_s" ++ toString seed ++ "_i" ++ toString i ++ "_n" ++ toString text.length ++ ".lx"
  let path := Path.join directory name
  orFail ("failed to write " ++ path) (← ExceptT.lift (Host.save path text))
  report ("[save] wrote " ++ path)

/-- Checks random texts from number `i` on, `count` of them, up to the first that fails. -/
def checkFrom {ρ : Type} [RandomSource ρ] (table : Table) (s : Series) : Nat → Nat → ρ → Job m Bool
  | 0, _, _ => return true
  | count + 1, i, r => do
    let (pieces, r) := (Sample.Generator.pieces s.length).run r
    let text := Sample.Piece.join pieces
    report ("[fuzz] iter " ++ toString i ++ ": generated " ++ toString text.length ++ " bytes, "
      ++ toString pieces.length ++ " tokens")
    if let some directory := s.keepIn then keep directory s.seed i text
    let (agrees, r) ← check table r text (some (pieces.map Sample.Piece.labelled))
    if agrees then checkFrom table s count (i + 1) r else return false

def checkSeries (table : Table) (s : Series) : Job m UInt32 := do
  report ("[fuzz] len=" ++ toString s.length ++ " iters=" ++ toString s.count ++ " seed="
    ++ toString s.seed)
  if let some directory := s.keepIn then
    orFail ("failed to create " ++ directory) (← ExceptT.lift (Host.makeDirectories directory))
  if ← checkFrom table s s.count 0 (seeded s.seed) then
    report "[fuzz] all iterations matched"
    return 0
  else return 1

def series : Job m Series := do
  let keeps := (← setting? "FUZZ_SAVE") = some "1"
  let directory := (← setting? "FUZZ_DIR").getD "fuzz-cases"
  return {
    length := ← numberOr "FUZZ_LEN" 100000
    count := ← numberOr "FUZZ_ITERS" 8
    seed := ← numberOr "FUZZ_SEED" 42
    keepIn := if keeps then some directory else none }

def job : Job m UInt32 := do
  match Sample.table with
  | .error e => throw { context := e.message }
  | .ok table =>
    match ← setting? "FUZZ_INPUT" with
    | some path => replay table path
    | none => do checkSeries table (← series)

end CombLexer.Tool.Crosscheck
