/-
The tokens of JSON.

`tokens?` reads a whole byte string as JSON tokens, without asking what they
make up together. It is strict: white space is the space, the tab, the line feed
and the carriage return, with no byte order mark and no comments; numbers have
no plus sign and no zero before other digits, and a digit on both sides of the
point; strings have no control characters but in escapes.

A number is kept if it is an integer of not too many digits, written without a
fraction or an exponent; minus zero is not, since it is read as a number that is
no integer. A string is kept if what it says is text: bytes that are no UTF-8
and escapes of surrogates that are not in pairs say nothing. Others are tokens
too, for they may stand where their value does not matter.
-/
import CombLexer.Text.Decimal
import CombLexer.Text.Utf8

namespace CombLexer.Json

inductive Token where
  | openObject
  | closeObject
  | openArray
  | closeArray
  | comma
  | colon
  | literal
  /-- A number, with its value if it is an integer in at most `digitLimit` plain digits. Minus zero
  is none. -/
  | number (value : Option Int)
  /-- A string, with its text if it is well-formed Unicode. -/
  | string (text : Option (List Char))
  deriving DecidableEq, Repr

/-! ## Numbers -/

def takeDigits (bytes : Bytes) : Bytes × Bytes :=
  (bytes.takeWhile Decimal.isDigit, bytes.dropWhile Decimal.isDigit)

/-- Takes the integral digits off the front: a zero, or digits that begin with another one. -/
def takeIntegral? : Bytes → Option (Bytes × Bytes)
  | 0x30 :: rest => some ([0x30], rest)
  | bytes => match takeDigits bytes with
    | ([], _) => none
    | found => some found

/-- Takes a fraction off the front. The flag says whether there was one; one without digits is
refused. -/
def takeFraction? : Bytes → Option (Bool × Bytes)
  | 0x2E :: rest => match takeDigits rest with
    | ([], _) => none
    | (_, rest) => some (true, rest)
  | bytes => some (false, bytes)

def dropSign : Bytes → Bytes
  | 0x2B :: rest => rest
  | 0x2D :: rest => rest
  | bytes => bytes

/-- Takes an exponent off the front. The flag says whether there was one; one without digits is
refused. -/
def takeExponent? : Bytes → Option (Bool × Bytes)
  | b :: rest =>
    if b = 0x65 ∨ b = 0x45 then
      match takeDigits (dropSign rest) with
      | ([], _) => none
      | (_, rest) => some (true, rest)
    else some (false, b :: rest)
  | [] => some (false, [])

/-- How many digits the value of an integer may have. No cell of a table has more. -/
def digitLimit : Nat := 10

def integer? (negative : Bool) (ds : Bytes) : Option Int :=
  if digitLimit < ds.length then none
  else
    let n := Decimal.ofDigits ds
    if negative then if n = 0 then none else some (-n) else some n

/-- Takes a number behind its sign off the front. -/
def takeNumber? (negative : Bool) (bytes : Bytes) : Option (Token × Bytes) := do
  let (ds, rest) ← takeIntegral? bytes
  let (fraction, rest) ← takeFraction? rest
  let (exponent, rest) ← takeExponent? rest
  return (.number (if fraction || exponent then none else integer? negative ds), rest)

/-! ## Strings -/

inductive Piece where
  | byte (b : UInt8)
  /-- A unit of UTF-16, given by four hexadecimal digits. -/
  | unit (n : Nat)

def hexValue? (b : UInt8) : Option Nat :=
  if 0x30 ≤ b ∧ b ≤ 0x39 then some (b.toNat - 0x30)
  else if 0x41 ≤ b ∧ b ≤ 0x46 then some (b.toNat - 0x37)
  else if 0x61 ≤ b ∧ b ≤ 0x66 then some (b.toNat - 0x57)
  else none

/-- The byte that a letter behind a backslash stands for. -/
def escaped? (b : UInt8) : Option UInt8 :=
  if b = 0x22 ∨ b = 0x5C ∨ b = 0x2F then some b
  else if b = 0x62 then some 0x08
  else if b = 0x66 then some 0x0C
  else if b = 0x6E then some 0x0A
  else if b = 0x72 then some 0x0D
  else if b = 0x74 then some 0x09
  else none

/-- Takes a string up to its closing quote off the front. Control characters are refused. -/
def takePieces? : Bytes → Option (List Piece × Bytes)
  | [] => none
  | 0x22 :: rest => some ([], rest)
  | 0x5C :: 0x75 :: a :: b :: c :: d :: rest => do
    let n := 4096 * (← hexValue? a) + 256 * (← hexValue? b) + 16 * (← hexValue? c) + (← hexValue? d)
    let (pieces, rest) ← takePieces? rest
    return (.unit n :: pieces, rest)
  | 0x5C :: b :: rest => do
    let byte ← escaped? b
    let (pieces, rest) ← takePieces? rest
    return (.byte byte :: pieces, rest)
  | b :: rest =>
    if b < 0x20 then none
    else do
      let (pieces, rest) ← takePieces? rest
      return (.byte b :: pieces, rest)

/-- The bytes that pieces stand for. Two units that are surrogates of each other make up one
character; a surrogate alone makes up none. -/
def assemble? : List Piece → Option Bytes
  | [] => some []
  | .byte b :: rest => (assemble? rest).map (b :: ·)
  | .unit n :: rest =>
    if n < 0xD800 ∨ 0xE000 ≤ n then
      (assemble? rest).map (String.utf8EncodeChar (Char.ofNat n) ++ ·)
    else if n < 0xDC00 then
      match rest with
      | .unit m :: rest =>
        if 0xDC00 ≤ m ∧ m < 0xE000 then
          let code := 0x10000 + (n - 0xD800) * 1024 + (m - 0xDC00)
          (assemble? rest).map (String.utf8EncodeChar (Char.ofNat code) ++ ·)
        else none
      | _ => none
    else none

def text? (pieces : List Piece) : Option (List Char) := (assemble? pieces).bind Utf8.strict?

/-! ## All tokens -/

/-- Whether a byte is white space between tokens. -/
def isSpace (b : UInt8) : Bool := b = 0x20 || b = 0x09 || b = 0x0A || b = 0x0D

/-- Takes one token off the front of `b :: rest`, where `b` is no white space. -/
def takeToken? (b : UInt8) (rest : Bytes) : Option (Token × Bytes) :=
  if b = 0x7B then some (.openObject, rest)
  else if b = 0x7D then some (.closeObject, rest)
  else if b = 0x5B then some (.openArray, rest)
  else if b = 0x5D then some (.closeArray, rest)
  else if b = 0x2C then some (.comma, rest)
  else if b = 0x3A then some (.colon, rest)
  else if b = 0x22 then (takePieces? rest).map fun (pieces, rest) => (.string (text? pieces), rest)
  else if b = 0x2D then takeNumber? true rest
  else if Decimal.isDigit b then takeNumber? false (b :: rest)
  else match b :: rest with
    | 0x74 :: 0x72 :: 0x75 :: 0x65 :: rest => some (.literal, rest)
    | 0x66 :: 0x61 :: 0x6C :: 0x73 :: 0x65 :: rest => some (.literal, rest)
    | 0x6E :: 0x75 :: 0x6C :: 0x6C :: rest => some (.literal, rest)
    | _ => none

/-- The tokens of a byte string, read with at most `fuel` steps. -/
def tokensWithin? : Nat → Bytes → Option (List Token)
  | _, [] => some []
  | 0, _ :: _ => none
  | fuel + 1, b :: rest =>
    if isSpace b then tokensWithin? fuel rest
    else do
      let (token, rest) ← takeToken? b rest
      return token :: (← tokensWithin? fuel rest)

/-- The tokens of a byte string. Each step takes at least one byte. -/
def tokens? (bytes : Bytes) : Option (List Token) := tokensWithin? bytes.length bytes

end CombLexer.Json
