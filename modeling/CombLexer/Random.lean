/-
Random choices.

`RandomSource` is anything that picks a number below a bound and tosses a coin
with given odds. `WordStream` makes such choices out of 64-bit words: words
that are given, and behind them those of the splitmix64 generator. A number
below `n` is the upper half of the product of `n` and a half word, corrected by
a second word where the lower half is too near to overflowing.
-/
namespace CombLexer

/-- Types whose values make random choices. -/
class RandomSource (ρ : Type) where
  /-- Picks a number below `n`. -/
  below (n : Nat) (hn : 0 < n) : ρ → Fin n × ρ
  /-- Tosses a coin that shows `true` in about `odds` of 2^64 cases. -/
  toss (odds : Nat) : ρ → Bool × ρ

/-- Words that are given, and a generator for those behind them. -/
structure WordStream where
  given : List UInt64
  state : UInt64
  used : Nat := 0

namespace WordStream

/-- The word that the generator makes of its state. -/
def mix (s : UInt64) : UInt64 :=
  let z := (s ^^^ (s >>> 30)) * 0xBF58476D1CE4E5B9
  let z := (z ^^^ (z >>> 27)) * 0x94D049BB133111EB
  z ^^^ (z >>> 31)

def next (w : WordStream) : UInt64 × WordStream :=
  match w.given with
  | word :: given => (word, { w with given, used := w.used + 1 })
  | [] =>
    let state := w.state + 0x9E3779B97F4A7C15
    (mix state, { w with state, used := w.used + 1 })

def nextHalf (w : WordStream) : Nat × WordStream :=
  let (word, w) := w.next
  (word.toNat % 4294967296, w)

theorem nextHalf_lt (w : WordStream) : w.nextHalf.1 < 4294967296 := Nat.mod_lt _ (by decide)

/-- The upper half of a product of two half words. -/
def high (m : Nat) : Nat := m / 4294967296

/-- The lower half of a product of two half words. -/
def low (m : Nat) : Nat := m % 4294967296

/-- A half word makes a number below the bound. -/
theorem high_mul_lt {x n : Nat} (hx : x < 4294967296) (hn : 0 < n) : high (x * n) < n := by
  unfold high
  exact Nat.div_lt_of_lt_mul (Nat.mul_lt_mul_of_pos_right hx hn)

/-- Where the correction applies there is room for it below the bound. -/
theorem high_mul_succ_lt {x n : Nat} (hx : x < 4294967296)
    (hlow : 4294967296 < low (x * n) + n) : high (x * n) + 1 < n := by
  have hle : x * n ≤ 4294967295 * n := Nat.mul_le_mul_right n (by omega)
  unfold low at hlow
  unfold high
  omega

def below (n : Nat) (hn : 0 < n) (w : WordStream) : Fin n × WordStream :=
  let m := w.nextHalf.1 * n
  if h : 4294967296 < low m + n then
    let w' := w.nextHalf.2
    let extra := high (w'.nextHalf.1 * n)
    if 4294967296 ≤ low m + extra then
      (⟨high m + 1, high_mul_succ_lt w.nextHalf_lt h⟩, w'.nextHalf.2)
    else (⟨high m, high_mul_lt w.nextHalf_lt hn⟩, w'.nextHalf.2)
  else (⟨high m, high_mul_lt w.nextHalf_lt hn⟩, w.nextHalf.2)

/-- A coin: whether the next word is below the odds. -/
def toss (odds : Nat) (w : WordStream) : Bool × WordStream :=
  let (word, w) := w.next
  (word.toNat < odds, w)

instance : RandomSource WordStream where
  below := below
  toss := toss

end WordStream

end CombLexer
