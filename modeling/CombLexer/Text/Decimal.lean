/-
Natural numbers in decimal: their digits as bytes (`digits`), reading them
back (`parse?`), and padding a written field to a width.

`parse?` takes a number the way a machine word is given on a command line: an
optional plus sign, then digits only, below a limit.
-/
import CombLexer.Bytes

namespace CombLexer.Decimal

def isDigit (b : UInt8) : Bool := 0x30 ≤ b && b ≤ 0x39

def digitValue (b : UInt8) : Nat := b.toNat - 0x30

/-- The decimal digits of a number, the first one not zero unless the number is. -/
def digits (n : Nat) : Bytes :=
  if n < 10 then [UInt8.ofNat (0x30 + n)]
  else digits (n / 10) ++ [UInt8.ofNat (0x30 + n % 10)]

def ofDigits (ds : Bytes) : Nat := ds.foldl (fun n d => 10 * n + digitValue d) 0

/-- The number that digits behind the digits of `n` make up with them, as long as it stays below
`limit`. -/
def ofDigitsBelow? (limit : Nat) : Nat → Bytes → Option Nat
  | n, [] => if n < limit then some n else none
  | n, d :: ds => if n < limit then ofDigitsBelow? limit (10 * n + digitValue d) ds else none

theorem le_foldl_digits (n : Nat) (ds : Bytes) :
    n ≤ ds.foldl (fun n d => 10 * n + digitValue d) n := by
  induction ds generalizing n with
  | nil => exact Nat.le_refl n
  | cons d ds ih => exact Nat.le_trans (by omega) (ih (10 * n + digitValue d))

/-- Stopping at the limit loses nothing that is below it. -/
theorem ofDigitsBelow?_eq (limit n : Nat) (ds : Bytes) :
    ofDigitsBelow? limit n ds =
      let value := ds.foldl (fun n d => 10 * n + digitValue d) n
      if value < limit then some value else none := by
  induction ds generalizing n with
  | nil => rfl
  | cons d ds ih =>
    rw [ofDigitsBelow?, ih]
    have hle := le_foldl_digits n (d :: ds)
    simp only [List.foldl_cons] at hle ⊢
    split
    · rfl
    · exact (if_neg (by omega)).symm

/-- Reads a number below `limit`: an optional `+`, then at least one digit and nothing else. -/
def parse? (limit : Nat) (text : Bytes) : Option Nat :=
  let ds := if text.head? = some 0x2B then text.drop 1 else text
  if ds ≠ [] ∧ ds.all isDigit then ofDigitsBelow? limit 0 ds else none

/-- Fills `text` up with blanks on the left to `width` characters. -/
def padLeft (width : Nat) (text : String) : String :=
  String.ofList (List.replicate (width - text.length) ' ') ++ text

/-- Fills `text` up with blanks on the right to `width` characters. -/
def padRight (width : Nat) (text : String) : String :=
  text ++ String.ofList (List.replicate (width - text.length) ' ')

/-- Fills the digits of `n` up with zeros to `width` characters. -/
def zeroPadded (width n : Nat) : String :=
  let text := toString n
  String.ofList (List.replicate (width - text.length) '0') ++ text

end CombLexer.Decimal
