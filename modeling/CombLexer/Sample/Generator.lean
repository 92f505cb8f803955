/-
Random input in the sample language, together with the tokens that it is made
of.

Every piece but a parenthesis is followed by blanks, and the blanks behind a
comment begin with a line feed, so neighbouring pieces never join into a longer
token. No piece is empty (`Piece.nonempty`), which is why a text of any length
is reached.
-/
import CombLexer.Bytes
import CombLexer.Random
import CombLexer.Sample.Kind

namespace CombLexer.Sample

structure Piece where
  kind : Kind
  text : Bytes
  /-- There is at least one byte. -/
  nonempty : 0 < text.length

namespace Generator

variable {ρ : Type} [RandomSource ρ]

/-! ## Choices -/

def below (n : Nat) (hn : 0 < n) : StateM ρ (Fin n) := fun r => RandomSource.below n hn r

def toss (odds : Nat) : StateM ρ Bool := fun r => RandomSource.toss odds r

def pick (set : Bytes) (h : 0 < set.length) : StateM ρ UInt8 := do
  return set.get (← below set.length h)

/-- Makes the same kind of choice `count` times. -/
def many (choice : StateM ρ UInt8) : Nat → StateM ρ Bytes
  | 0 => return []
  | count + 1 => do
    let b ← choice
    return b :: (← many choice count)

def tenth : Nat := 1844674407370955264

def sevenTenths : Nat := 12912720851596685312

/-! ## Bytes -/

/-- What a name can begin with. -/
def letters : Bytes := Bytes.ascii "abcdefghijklmnopqrstuvwxyzABCDEFGHIJKLMNOPQRSTUVWXYZ_"

def digits : Bytes := Bytes.ascii "0123456789"

def blanks : Bytes := Bytes.ascii " \t\r\n"

def commentBody : Bytes := Bytes.ascii "abcdefghijklmnopqrstuvwxyz0123456789 =-.()\"\t"

def stringBody : Bytes := Bytes.ascii "abcdefghijklmnopqrstuvwxyz 0123456789=-.()\t\\"

def letter : StateM ρ UInt8 := pick letters (by decide)

def digit : StateM ρ UInt8 := pick digits (by decide)

/-- A random byte behind the first one of a name. -/
def letterOrDigit : StateM ρ UInt8 := do
  if ← toss sevenTenths then letter else digit

/-! ## Pieces -/

def keyword : Piece := ⟨.let, Bytes.ascii "let", by decide⟩

/-- A name, or the keyword if that is what came out. -/
def name : StateM ρ Piece := do
  if ← toss tenth then return keyword
  else
    let more ← below 12 (by decide)
    let first ← letter
    let rest ← many letterOrDigit more
    let kind : Kind := if first :: rest = keyword.text then .let else .ident
    return ⟨kind, first :: rest, by simp⟩

/-- A number of one to eight digits. -/
def number : StateM ρ Piece := do
  let more ← below 8 (by decide)
  let first ← digit
  let rest ← many digit more
  return ⟨.int, first :: rest, by simp⟩

def comment : StateM ρ Piece := do
  let length ← below 41 (by decide)
  let body ← many (pick commentBody (by decide)) length
  return ⟨.lineComment, 45 :: 45 :: body, by simp⟩

def string : StateM ρ Piece := do
  let length ← below 25 (by decide)
  let body ← many (pick stringBody (by decide)) length
  return ⟨.string, 34 :: (body ++ [34]), by simp⟩

def signs : List Piece :=
  [⟨.assign, Bytes.ascii "=", by decide⟩, ⟨.eqEq, Bytes.ascii "==", by decide⟩,
   ⟨.minus, Bytes.ascii "-", by decide⟩, ⟨.arrow, Bytes.ascii "->", by decide⟩,
   ⟨.dot, Bytes.ascii ".", by decide⟩, ⟨.ellipsis, Bytes.ascii "...", by decide⟩,
   ⟨.leftParen, Bytes.ascii "(", by decide⟩, ⟨.rightParen, Bytes.ascii ")", by decide⟩]

def sign : StateM ρ Piece := do
  return signs.get (← below signs.length (by decide))

/-- One to four blanks; behind a comment, a line feed and up to four more. -/
def white (behindComment : Bool) : StateM ρ Piece := do
  let blank := pick blanks (by decide)
  if behindComment then
    let more ← below 5 (by decide)
    let rest ← many blank more
    return ⟨.white, 10 :: rest, by simp⟩
  else
    let more ← below 4 (by decide)
    let first ← blank
    let rest ← many blank more
    return ⟨.white, first :: rest, by simp⟩

/-- A piece that is no blank: of a hundred, thirty are names, fifteen numbers, seven comments,
eight strings and forty signs. -/
def token : StateM ρ Piece := do
  let roll ← below 100 (by decide)
  if roll.val < 30 then name
  else if roll.val < 45 then number
  else if roll.val < 52 then comment
  else if roll.val < 60 then string
  else sign

/-- Whether a piece may touch the next one. -/
def standsAlone (p : Piece) : Bool := p.kind == .leftParen || p.kind == .rightParen

/-- Pieces until a text of `length` bytes has grown to the target. -/
def piecesFrom (target length : Nat) : StateM ρ (List Piece) :=
  if length < target then do
    let piece ← token
    if standsAlone piece then
      let rest ← piecesFrom target (length + piece.text.length)
      return piece :: rest
    else
      let blank ← white (piece.kind == .lineComment)
      let rest ← piecesFrom target (length + piece.text.length + blank.text.length)
      return piece :: blank :: rest
  else return []
  termination_by target - length
  decreasing_by
    all_goals
      have := piece.nonempty
      omega

/-- Pieces with at least `target` bytes together. -/
def pieces (target : Nat) : StateM ρ (List Piece) := piecesFrom target 0

end Generator

def Piece.labelled (p : Piece) : Kind × Bytes := (p.kind, p.text)

/-- The text that pieces make up. -/
def Piece.join (pieces : List Piece) : Bytes := pieces.flatMap Piece.text

end CombLexer.Sample
