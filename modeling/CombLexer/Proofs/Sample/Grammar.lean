/-
The grammar of the sample language.

`Grammar.first?` reads the first token off a text, class of bytes by class of
bytes, without an automaton.
-/
import CombLexer.Bytes
import CombLexer.Sample.Kind

namespace CombLexer.Sample

namespace Grammar

/-! ## Classes of bytes -/

def char (b : UInt8) : Char := Char.ofNat b.toNat

def nameStart (b : UInt8) : Bool := (char b).isAlpha || char b == '_'

def nameByte (b : UInt8) : Bool := (char b).isAlphanum || char b == '_'

def digit (b : UInt8) : Bool := (char b).isDigit

def blank (b : UInt8) : Bool := [' ', '\t', '\r', '\n'].contains (char b)

def quote : UInt8 := 34

def lineFeed : UInt8 := 10

/-- What a comment consists of. -/
def lineByte (b : UInt8) : Bool := b != lineFeed

/-- What a string consists of, between its quotes. -/
def stringByte (b : UInt8) : Bool := b != quote && b != lineFeed

/-! ## How the classes lie -/

/-- What a computation finds of every byte holds of all of them. -/
theorem forall_byte {P : UInt8 → Prop} (h : ∀ n : Fin 256, P (UInt8.ofNat n)) (b : UInt8) :
    P b := by
  have hb := h ⟨b.toNat, b.toNat_lt⟩
  rwa [UInt8.ofNat_toNat] at hb

theorem nameByte_of_nameStart {b : UInt8} (h : nameStart b) : nameByte b := by
  simp only [nameStart, nameByte, Char.isAlphanum, Bool.or_eq_true] at *
  exact h.imp_left .inl

theorem nameByte_of_digit {b : UInt8} (h : digit b) : nameByte b := by
  simp only [digit, nameByte, Char.isAlphanum, Bool.or_eq_true] at *
  exact .inl (.inr h)

/-- No name begins with a digit. -/
theorem nameStart_of_digit : ∀ b : UInt8, digit b → nameStart b = false :=
  forall_byte (by decide +kernel)

theorem blank_cases : ∀ b : UInt8, blank b → b = 32 ∨ b = 9 ∨ b = 13 ∨ b = 10 :=
  forall_byte (by decide +kernel)

/-- Blanks are in no name. -/
theorem nameByte_of_blank {b : UInt8} (h : blank b) : nameByte b = false := by
  rcases blank_cases b h with rfl | rfl | rfl | rfl <;> decide

theorem blank_of_nameByte {b : UInt8} (h : nameByte b) : blank b = false :=
  Bool.eq_false_iff.2 fun hb => by simp [nameByte_of_blank hb] at h

/-- So a class of bytes that are all in names has no blanks. -/
theorem eq_false_of_blank {p : UInt8 → Bool} {b : UInt8} (hp : p b → nameByte b) (h : blank b) :
    p b = false :=
  Bool.eq_false_iff.2 fun hb => by simp [blank_of_nameByte (hp hb)] at h

/-! ## The first token -/

/-- The signs, longer ones before those they begin with. -/
def signs : List (Kind × Bytes) :=
  [(.eqEq, Bytes.ascii "=="), (.assign, Bytes.ascii "="), (.arrow, Bytes.ascii "->"),
   (.minus, Bytes.ascii "-"), (.ellipsis, Bytes.ascii "..."), (.dot, Bytes.ascii "."),
   (.leftParen, Bytes.ascii "("), (.rightParen, Bytes.ascii ")")]

/-- The comment or the sign that a text begins with. -/
def mark? (w : Bytes) : Option (Kind × Bytes) :=
  if (Bytes.ascii "--").isPrefixOf w then some (.lineComment, w.takeWhile lineByte)
  else signs.find? fun sign => sign.2.isPrefixOf w

/-- What a string has behind its opening quote: everything up to the next quote, if that is on the
line, and everything there is, if the line has no quote and ends with the text. -/
def string? (w : Bytes) : Option (Kind × Bytes) :=
  match w.dropWhile stringByte with
  | [] => some (.unterminatedString, w)
  | b :: _ => if b = quote then some (.string, w.takeWhile stringByte ++ [quote]) else none

/-- The first token of a text: its kind and its bytes. -/
def first? : Bytes → Option (Kind × Bytes)
  | [] => none
  | b :: rest =>
    let w := b :: rest
    if nameStart b then
      let name := w.takeWhile nameByte
      some (if name = Bytes.ascii "let" then .let else .ident, name)
    else if digit b then some (.int, w.takeWhile digit)
    else if blank b then some (.white, w.takeWhile blank)
    else if b = quote then (string? rest).map fun (k, text) => (k, quote :: text)
    else mark? w

end Grammar

end CombLexer.Sample
