/-
Text in double quotes, with escapes for what would not be seen: the quote and
the backslash, the three common blanks of a line and NUL by a letter, and
other hidden characters by their code point.
-/
import CombLexer.Text.Hidden

namespace CombLexer.Quoted

def hexDigit (n : Nat) : Char := Char.ofNat (if n < 10 then 0x30 + n else 0x57 + n)

/-- The hexadecimal digits of a number, the first one not zero unless the number is. -/
def hexDigits (n : Nat) : List Char :=
  if n < 16 then [hexDigit n] else hexDigits (n / 16) ++ [hexDigit (n % 16)]

def byCode (c : Char) : List Char := ['\\', 'u', '\x7b'] ++ hexDigits c.toNat ++ ['\x7d']

/-- A character within quotes. -/
def escape (c : Char) : List Char :=
  if c = '"' ∨ c = '\\' then ['\\', c]
  else if c = '\n' then ['\\', 'n']
  else if c = '\r' then ['\\', 'r']
  else if c = '\t' then ['\\', 't']
  else if c = Char.ofNat 0 then ['\\', '0']
  else if Hidden.isHidden c then byCode c
  else [c]

def quote (text : List Char) : String := String.ofList ('"' :: text.flatMap escape ++ ['"'])

end CombLexer.Quoted
