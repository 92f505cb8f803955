/-
Byte strings and the little-endian numbers written in them.

A number of a fixed width is a list of base-256 digits, least significant
first (`littleEndian`, `ofLittleEndian`); `ofLittleEndian_littleEndian` says
that reading undoes writing for numbers that fit the width. Two bytes are also
read as a signed number in two's complement (`signed16`).
-/
namespace CombLexer

abbrev Bytes := List UInt8

namespace Bytes

/-- The bytes of an ASCII text, one a character. -/
def ascii (text : String) : Bytes := text.toList.map fun c => UInt8.ofNat c.toNat

/-- A number below `256 ^ width` in `width` bytes, least significant first. -/
def littleEndian : Nat → Nat → Bytes
  | 0, _ => []
  | width + 1, n => UInt8.ofNat (n % 256) :: littleEndian width (n / 256)

/-- The number that bytes stand for, least significant first. -/
def ofLittleEndian : Bytes → Nat
  | [] => 0
  | b :: rest => b.toNat + 256 * ofLittleEndian rest

/-- The limit below which the numbers of `width` bytes lie: 256 to the power `width`. -/
def limit : Nat → Nat
  | 0 => 1
  | width + 1 => 256 * limit width

/-- Two bytes, the low one first, as a number from -32768 to 32767. -/
def signed16 (low high : UInt8) : Int :=
  Int.bmod (low.toNat + 256 * high.toNat) 65536

@[simp] theorem length_littleEndian (width n : Nat) : (littleEndian width n).length = width := by
  induction width generalizing n with
  | zero => rfl
  | succ width ih => simp [littleEndian, ih]

/-- Reading a number undoes writing it, up to the width. -/
theorem ofLittleEndian_littleEndian (width n : Nat) :
    ofLittleEndian (littleEndian width n) = n % limit width := by
  induction width generalizing n with
  | zero => simp [littleEndian, ofLittleEndian, limit, Nat.mod_one]
  | succ width ih =>
    have low : (UInt8.ofNat (n % 256)).toNat = n % 256 := by simp
    rw [littleEndian, ofLittleEndian, ih, low, limit, Nat.mod_mul]

end Bytes

end CombLexer
