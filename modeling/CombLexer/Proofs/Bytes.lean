/-
Facts about byte strings: fixed-width numbers are written as they are read, and
a run of a class of bytes ends where the rest does not go on with that class.
-/
import CombLexer.Bytes

namespace CombLexer

namespace Bytes

theorem ofLittleEndian_lt (bytes : Bytes) : ofLittleEndian bytes < limit bytes.length := by
  induction bytes with
  | nil => decide
  | cons b rest ih =>
    have hb : b.toNat < 256 := b.toNat_lt
    simp only [ofLittleEndian, List.length_cons, limit]
    omega

/-- Writing a number undoes reading it. -/
theorem littleEndian_ofLittleEndian (bytes : Bytes) :
    littleEndian bytes.length (ofLittleEndian bytes) = bytes := by
  induction bytes with
  | nil => rfl
  | cons b rest ih =>
    have hb : b.toNat < 256 := b.toNat_lt
    have hlow : (b.toNat + 256 * ofLittleEndian rest) % 256 = b.toNat := by omega
    have hhigh : (b.toNat + 256 * ofLittleEndian rest) / 256 = ofLittleEndian rest := by omega
    simp only [List.length_cons, littleEndian, ofLittleEndian, hlow, hhigh, ih, UInt8.ofNat_toNat]

end Bytes

/-! ## Runs of a class -/

/-- A text does not go on with a class of bytes. -/
def Stops (p : UInt8 → Bool) (rest : Bytes) : Prop := ∀ b ∈ rest.head?, p b = false

theorem stops_cons {p : UInt8 → Bool} {b : UInt8} {rest : Bytes} (h : p b = false) :
    Stops p (b :: rest) := fun b' hb' => by
  cases hb'
  exact h

theorem stops_append {p : UInt8 → Bool} {text : Bytes} (htext : 0 < text.length)
    (h : Stops p text) (rest : Bytes) : Stops p (text ++ rest) := by
  cases text with
  | nil => cases htext
  | cons b text => exact stops_cons (h b rfl)

/-- A run of bytes of a class ends where the class does. -/
theorem takeWhile_append_of_stops {p : UInt8 → Bool} {run rest : Bytes} (hrun : ∀ b ∈ run, p b)
    (hrest : Stops p rest) : (run ++ rest).takeWhile p = run := by
  have hnone : rest.takeWhile p = [] := by
    cases rest with
    | nil => rfl
    | cons b rest => exact List.takeWhile_cons_of_neg (by simp [hrest b rfl])
  rw [List.takeWhile_append_of_pos hrun, hnone, List.append_nil]

theorem dropWhile_append_of_stops {p : UInt8 → Bool} {run rest : Bytes} (hrun : ∀ b ∈ run, p b)
    (hrest : Stops p rest) : (run ++ rest).dropWhile p = rest := by
  have hall : rest.dropWhile p = rest := by
    cases rest with
    | nil => rfl
    | cons b rest => exact List.dropWhile_cons_of_neg (by simp [hrest b rfl])
  rw [List.dropWhile_append_of_pos hrun, hall]

end CombLexer
