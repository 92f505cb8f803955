/-
Scanning one text in two ways and comparing what comes out.

A text is scanned whole and in pieces of random sizes, and the two token lists
must agree; where the tokens are known beforehand, they must agree with those
too. `run` is the whole comparison, with the messages that go with it.
-/
import CombLexer.Random
import CombLexer.Sample.Generator
import CombLexer.Scan.Scanner
import CombLexer.Source.Chunks
import CombLexer.Text.Quoted
import CombLexer.Text.Utf8

namespace CombLexer.Crosscheck

/-! ## Pieces -/

/-- Cuts pieces of random sizes from 0 to 64 off the front of a text, until it is used up. At most
`count` sizes are drawn; what they leave is the last piece. -/
def randomChunks {ρ : Type} [RandomSource ρ] : Nat → Bytes → ρ → List Bytes × ρ
  | _, [], r => ([], r)
  | 0, b :: rest, r => ([b :: rest], r)
  | count + 1, b :: rest, r =>
    let (size, r) := RandomSource.below 65 (by decide) r
    let (chunks, r) := randomChunks count ((b :: rest).drop size) r
    ((b :: rest).take size :: chunks, r)

/-! ## Token lists -/

def tokens {σ : Type} [Source σ] (sc : Scanner σ) : Except ScanError (List Token) :=
  sc.collect.1.map fun found => found.map Prod.fst

def scanner {σ : Type} (table : Table) (buffer : Buffer σ) : Scanner σ :=
  { table, buffer, config := {} }

/-- The tokens that texts of the given kinds are, the first one at `start`. -/
def expected (start : Nat) : List (Sample.Kind × Bytes) → List Token
  | [] => []
  | (kind, text) :: rest =>
    ⟨kind.rule, ⟨start, start + text.length⟩⟩ :: expected (start + text.length) rest

/-- The first place where two lists differ; if one is the beginning of the other, its length. -/
def firstDifference? : List Token → List Token → Option Nat
  | [], [] => none
  | x :: xs, y :: ys => if x = y then (firstDifference? xs ys).map (· + 1) else some 0
  | _, _ => some 0

/-! ## Messages -/

/-- The line and the column of a byte, both counted from 1. -/
def lineAndColumn (text : Bytes) (offset : Nat) : Nat × Nat :=
  let before := text.take offset
  (1 + before.count 10, 1 + (before.reverse.takeWhile (· ≠ 10)).length)

/-- A token with its text, as it is shown where lists differ. -/
def showToken (text : Bytes) : Option Token → String
  | none => "None"
  | some t =>
    let kind := ((Sample.Kind.ofRule? t.rule).map Sample.Kind.name).getD ""
    let lexeme := (text.take t.span.stop).drop t.span.start
    "Some((" ++ Quoted.quote kind.toList ++ ", " ++ toString t.span.start ++ ", "
      ++ toString t.span.stop ++ ", " ++ Quoted.quote (Utf8.lossy lexeme) ++ "))"

structure Named where
  name : String
  tokens : List Token

def placeLine (text : Bytes) (a b : Named) (j : Nat) : String :=
  "#" ++ Decimal.zeroPadded 6 j ++ " " ++ a.name ++ "=" ++ showToken text a.tokens[j]? ++ " "
    ++ b.name ++ "=" ++ showToken text b.tokens[j]?

def headline (a b : Named) (i : Nat) : String :=
  "[diff] " ++ a.name ++ " vs " ++ b.name ++ ": first divergence at token " ++ toString i
    ++ " (counts " ++ toString a.tokens.length ++ " / " ++ toString b.tokens.length ++ ")"

/-- What is said about two lists that first differ at `i`: the tokens around that place, and where
in the text it is. -/
def differenceLines (text : Bytes) (a b : Named) (i : Nat) : List String :=
  let stop := min (i + 4) (max a.tokens.length b.tokens.length)
  let places := (List.range stop).filter (i - 2 ≤ ·)
  let position := match a.tokens[i]?.or b.tokens[i]? with
    | none => []
    | some t =>
      let (line, column) := lineAndColumn text t.span.start
      ["    at line " ++ toString line ++ ", col " ++ toString column]
  headline a b i :: (places.map (placeLine text a b) ++ position)

/-- What is said about two lists; nothing if they agree. -/
def compare (text : Bytes) (a b : Named) : List String :=
  match firstDifference? a.tokens b.tokens with
  | none => []
  | some i => differenceLines text a b i

/-! ## The comparison -/

inductive Verdict where
  /-- The text cannot be scanned; the name says which way it was tried. -/
  | unscannable (way : String) (error : ScanError)
  | scanned (count : Nat) (chunkDifference pieceDifference : List String)

def Verdict.agrees : Verdict → Bool
  | unscannable .. => false
  | scanned _ chunkDifference pieceDifference =>
    chunkDifference.isEmpty && pieceDifference.isEmpty

/-- The tokens of a text that is there as a whole. -/
def scanWhole (table : Table) (text : Bytes) : Except ScanError (List Token) :=
  tokens (scanner table (.ofBytes text))

/-- The tokens of a text that comes in pieces. -/
def scanChunks (table : Table) (chunks : List Bytes) : Except ScanError (List Token) :=
  tokens (scanner table (.ofSource (Chunks.mk chunks)))

/-- Compares the tokens of both scans with each other and with those that are known, if any are. -/
def judge (text : Bytes) (whole chunked : Except ScanError (List Token))
    (known : Option (List (Sample.Kind × Bytes))) : Verdict :=
  match whole, chunked with
  | .error e, _ => .unscannable "whole" e
  | .ok _, .error e => .unscannable "chunked" e
  | .ok whole, .ok chunked =>
    .scanned whole.length (compare text ⟨"whole", whole⟩ ⟨"chunked", chunked⟩)
      (match known with
        | none => []
        | some pieces => compare text ⟨"whole", whole⟩ ⟨"generator", expected 0 pieces⟩)

/-- Scans a text whole and in the given pieces and compares. -/
def run (table : Table) (text : Bytes) (chunks : List Bytes)
    (known : Option (List (Sample.Kind × Bytes))) : Verdict :=
  judge text (scanWhole table text) (scanChunks table chunks) known

end CombLexer.Crosscheck
