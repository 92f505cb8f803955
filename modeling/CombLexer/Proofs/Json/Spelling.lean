/-
JSON texts are read back lexeme by lexeme.

A `Lexeme` is what a writer of tables puts down at once: a mark, an integer in
decimal, or the name of an array. `Spells` says that a byte string holds lexemes
one after another, with any white space before, between and behind them. Where no
integer stands next to another, the tokens of such a string are those of its
lexemes (`tokensWithin?_of_spells`), by one lemma for each kind: digits are read
as the number that they were written for (`takeNumber?_digits`), and a name
without escapes as itself (`takePieces?_plain`, `strict?_ascii`).
-/
import CombLexer.Proofs.Bytes
import CombLexer.Table.Json

namespace CombLexer

/-! ## Decimal digits -/

namespace Decimal

theorem isDigit_ofNat : ∀ d < 10, isDigit (UInt8.ofNat (0x30 + d)) := by decide

theorem digitValue_ofNat : ∀ d < 10, digitValue (UInt8.ofNat (0x30 + d)) = d := by decide

theorem isDigit_digits (n : Nat) : ∀ b ∈ digits n, isDigit b := by
  fun_induction digits n with
  | case1 n h =>
    intro b hb
    rw [List.mem_singleton.1 hb]
    exact isDigit_ofNat n h
  | case2 n h ih =>
    intro b hb
    rcases List.mem_append.1 hb with hb | hb
    · exact ih b hb
    · rw [List.mem_singleton.1 hb]
      exact isDigit_ofNat _ (Nat.mod_lt _ (by decide))

/-- Digits stand for the number that they are written for. -/
theorem ofDigits_digits (n : Nat) : ofDigits (digits n) = n := by
  fun_induction digits n with
  | case1 n h =>
    have hdigit := digitValue_ofNat n h
    simp only [ofDigits, List.foldl_cons, List.foldl_nil, hdigit]
    omega
  | case2 n h ih =>
    have hlast := digitValue_ofNat (n % 10) (Nat.mod_lt _ (by decide))
    unfold ofDigits at ih ⊢
    rw [List.foldl_append, ih]
    simp only [List.foldl_cons, List.foldl_nil, hlast]
    omega

theorem digits_ne_nil (n : Nat) : digits n ≠ [] := by
  rw [digits]
  split <;> simp

/-- Only zero is written with a leading zero. -/
theorem digits_eq_cons {n : Nat} (hn : 0 < n) : ∃ d ds, digits n = d :: ds ∧ d ≠ 0x30 := by
  fun_induction digits n with
  | case1 n h =>
    have hne : ∀ m < 10, 0 < m → UInt8.ofNat (0x30 + m) ≠ 0x30 := by decide
    exact ⟨_, [], rfl, hne n h hn⟩
  | case2 n h ih =>
    obtain ⟨d, ds, hds, hd⟩ := ih (by omega)
    exact ⟨d, ds ++ [_], by rw [hds]; rfl, hd⟩

/-- A greater number has no fewer digits. -/
theorem length_digits_le {n m : Nat} (h : n ≤ m) : (digits n).length ≤ (digits m).length := by
  fun_induction digits n generalizing m with
  | case1 n hn => exact List.length_pos_iff.2 (digits_ne_nil m)
  | case2 n hn ih =>
    have hrest := ih (Nat.div_le_div_right (c := 10) h)
    have hm : ¬ m < 10 := by omega
    rw [digits.eq_def m, if_neg hm]
    simp only [List.length_append, List.length_singleton]
    omega

end Decimal

/-- The characters of ASCII stand for themselves. -/
theorem Utf8.strict?_ascii {text : List Char} (h : ∀ c ∈ text, c.toNat < 0x80) :
    Utf8.strict? (text.map fun c => UInt8.ofNat c.toNat) = some text := by
  induction text with
  | nil => simp [Utf8.strict?]
  | cons c text ih =>
    have hc : c.toNat < 0x80 := h c List.mem_cons_self
    have hrest := ih fun c' hc' => h c' (List.mem_cons_of_mem _ hc')
    have hnat : (UInt8.ofNat c.toNat).toNat = c.toNat := by
      rw [UInt8.toNat_ofNat']
      omega
    have hlead : UInt8.ofNat c.toNat < 0x80 := by
      rw [UInt8.lt_iff_toNat_lt, hnat]
      exact hc
    rw [List.map_cons, Utf8.strict?]
    simp only [Utf8.leading, if_pos hlead, hnat, Char.ofNat_toNat, hrest, Option.map_some]

namespace Json

/-! ## Numbers -/

/-- What a number may go on with. -/
def numberByte (b : UInt8) : Bool := Decimal.isDigit b || b == 0x2E || b == 0x65 || b == 0x45

theorem stops_digit {rest : Bytes} (h : Stops numberByte rest) : Stops Decimal.isDigit rest := by
  intro b hb
  have := h b hb
  simp only [numberByte, Bool.or_eq_false_iff] at this
  exact this.1.1.1

theorem takeIntegral?_digits (n : Nat) {rest : Bytes} (hrest : Stops Decimal.isDigit rest) :
    takeIntegral? (Decimal.digits n ++ rest) = some (Decimal.digits n, rest) := by
  rcases Nat.eq_zero_or_pos n with rfl | hn
  · simp [Decimal.digits, takeIntegral?]
  · have hdigits := Decimal.isDigit_digits n
    have htake : takeDigits (Decimal.digits n ++ rest) = (Decimal.digits n, rest) := by
      rw [takeDigits, takeWhile_append_of_stops hdigits hrest,
        dropWhile_append_of_stops hdigits hrest]
    obtain ⟨d, ds, hds, hd⟩ := Decimal.digits_eq_cons hn
    rw [hds, List.cons_append] at htake ⊢
    unfold takeIntegral?
    split
    · next heq =>
      cases heq
      exact absurd rfl hd
    · rw [htake]

theorem takeFraction?_none {rest : Bytes} (h : Stops numberByte rest) :
    takeFraction? rest = some (false, rest) := by
  unfold takeFraction?
  split
  · next rest =>
    have := h 0x2E rfl
    simp [numberByte] at this
  · rfl

theorem takeExponent?_none {rest : Bytes} (h : Stops numberByte rest) :
    takeExponent? rest = some (false, rest) := by
  cases rest with
  | nil => rfl
  | cons b rest =>
    have hb := h b rfl
    simp only [numberByte, Bool.or_eq_false_iff, beq_eq_false_iff_ne] at hb
    exact if_neg (not_or.2 ⟨hb.1.2, hb.2⟩)

/-- Digits are read as a number where nothing behind them belongs to it. -/
theorem takeNumber?_digits (negative : Bool) (n : Nat) {rest : Bytes}
    (h : Stops numberByte rest) :
    takeNumber? negative (Decimal.digits n ++ rest) =
      some (.number (integer? negative (Decimal.digits n)), rest) := by
  simp [takeNumber?, takeIntegral?_digits n (stops_digit h), takeFraction?_none h,
    takeExponent?_none h]

/-! ## Names -/

/-- The bytes that stand for themselves in a string. -/
def plain (b : UInt8) : Bool := 0x20 ≤ b && b != 0x22 && b != 0x5C

theorem takePieces?_plain {text : Bytes} (h : ∀ b ∈ text, plain b) (rest : Bytes) :
    takePieces? (text ++ 0x22 :: rest) = some (text.map .byte, rest) := by
  induction text with
  | nil => simp [takePieces?]
  | cons b text ih =>
    have hb := h b List.mem_cons_self
    have hrest := ih fun b' hb' => h b' (List.mem_cons_of_mem _ hb')
    simp only [plain, Bool.and_eq_true, decide_eq_true_eq, bne_iff_ne] at hb
    obtain ⟨⟨hlow, hquote⟩, hback⟩ := hb
    rw [List.cons_append, takePieces?.eq_def]
    split
    · next heq => cases heq
    · next heq => exact absurd (List.cons.inj heq).1 hquote
    · next heq => exact absurd (List.cons.inj heq).1 hback
    · next heq => exact absurd (List.cons.inj heq).1 hback
    · next heq =>
      obtain ⟨rfl, rfl⟩ := List.cons.inj heq
      rw [if_neg (UInt8.not_lt.2 hlow), hrest]
      rfl

theorem assemble?_bytes (text : Bytes) : assemble? (text.map .byte) = some text := by
  induction text with
  | nil => rfl
  | cons b text ih => simp [assemble?, ih]

theorem name_plain (part : Part) :
    (∀ b ∈ Bytes.ascii part.name, plain b) ∧ ∀ c ∈ part.name.toList, c.toNat < 0x80 := by
  have hall : (Bytes.ascii part.name).all plain ∧
      part.name.toList.all fun c => decide (c.toNat < 0x80) := by
    cases part <;> decide
  simpa using hall

/-- The name of an array is read as itself. -/
theorem takePieces?_name (part : Part) (rest : Bytes) :
    ∃ pieces, takePieces? (Bytes.ascii part.name ++ 0x22 :: rest) = some (pieces, rest) ∧
      text? pieces = some part.name.toList := by
  obtain ⟨hplain, hascii⟩ := name_plain part
  refine ⟨_, takePieces?_plain hplain rest, ?_⟩
  rw [text?, assemble?_bytes, Option.bind_some]
  exact Utf8.strict?_ascii hascii

/-! ## Lexemes -/

/-- What a writer of tables puts down at once. -/
inductive Lexeme where
  | openObject
  | closeObject
  | openArray
  | closeArray
  | comma
  | colon
  | integer (n : Int)
  | name (part : Part)
  deriving DecidableEq

namespace Lexeme

/-- How a lexeme is written: an integer in decimal without leading zeros, a name in quotes. -/
def text : Lexeme → Bytes
  | openObject => [0x7B]
  | closeObject => [0x7D]
  | openArray => [0x5B]
  | closeArray => [0x5D]
  | comma => [0x2C]
  | colon => [0x3A]
  | integer n => Json.integer n
  | name part => 0x22 :: (Bytes.ascii part.name ++ [0x22])

/-- The token that a lexeme is read as. An integer with too many digits has no value. -/
def token : Lexeme → Token
  | openObject => .openObject
  | closeObject => .closeObject
  | openArray => .openArray
  | closeArray => .closeArray
  | comma => .comma
  | colon => .colon
  | integer n =>
    .number (if digitLimit < (Decimal.digits n.natAbs).length then none else some n)
  | name part => .string (some part.name.toList)

end Lexeme

/-- A byte string holds lexemes one after another, with any white space around them. -/
inductive Spells : List Lexeme → Bytes → Prop
  | done {space : Bytes} (hspace : ∀ b ∈ space, isSpace b) : Spells [] space
  | next {space behind : Bytes} {x : Lexeme} {rest : List Lexeme} (hspace : ∀ b ∈ space, isSpace b)
      (hrest : Spells rest behind) : Spells (x :: rest) (space ++ (x.text ++ behind))

/-- No integer stands next to another. -/
def Apart : List Lexeme → Prop
  | .integer _ :: .integer _ :: _ => False
  | _ :: rest => Apart rest
  | [] => True

/-- What is written without white space is one of the spellings. -/
theorem spells_flatMap (lexemes : List Lexeme) : Spells lexemes (lexemes.flatMap Lexeme.text) := by
  induction lexemes with
  | nil => exact .done (by simp)
  | cons x rest ih =>
    have hspace : ∀ b ∈ ([] : Bytes), isSpace b := nofun
    exact .next hspace ih

theorem takeToken?_digit {b : UInt8} (hb : Decimal.isDigit b) (rest : Bytes) :
    isSpace b = false ∧ takeToken? b rest = takeNumber? false (b :: rest) := by
  have hne : ∀ c : UInt8, Decimal.isDigit c = false → b ≠ c := by
    rintro c hc rfl
    rw [hb] at hc
    cases hc
  refine ⟨?_, ?_⟩
  · simp [isSpace, hne 0x20 rfl, hne 0x09 rfl, hne 0x0A rfl, hne 0x0D rfl]
  · rw [takeToken?, if_neg (hne _ rfl), if_neg (hne _ rfl), if_neg (hne _ rfl), if_neg (hne _ rfl),
      if_neg (hne _ rfl), if_neg (hne _ rfl), if_neg (hne _ rfl), if_neg (hne _ rfl), if_pos hb]

/-- An integer is read with its sign. -/
theorem integer?_digits (n : Int) :
    integer? (decide (n < 0)) (Decimal.digits n.natAbs) =
      if digitLimit < (Decimal.digits n.natAbs).length then none else some n := by
  unfold integer?
  split
  · rfl
  · rw [Decimal.ofDigits_digits]
    by_cases hneg : n < 0
    · simp only [hneg, decide_true, if_true]
      rw [if_neg (by omega)]
      congr 1
      omega
    · simp only [hneg, decide_false, Bool.false_eq_true, if_false]
      congr 1
      omega

theorem takeToken?_integer (n : Int) {rest : Bytes} (h : Stops numberByte rest) :
    ∃ b more, integer n = b :: more ∧ isSpace b = false ∧
      takeToken? b (more ++ rest) = some ((Lexeme.integer n).token, rest) := by
  have hnumber := takeNumber?_digits (decide (n < 0)) n.natAbs h
  rw [integer?_digits] at hnumber
  by_cases hneg : n < 0
  · rw [decide_eq_true hneg] at hnumber
    exact ⟨0x2D, _, if_pos hneg, rfl, hnumber⟩
  · rw [decide_eq_false hneg] at hnumber
    have hdigits := Decimal.isDigit_digits n.natAbs
    obtain ⟨d, ds, hds⟩ := List.exists_cons_of_ne_nil (Decimal.digits_ne_nil n.natAbs)
    have hd := hdigits d (by simp [hds])
    obtain ⟨hspace, htake⟩ := takeToken?_digit hd (ds ++ rest)
    refine ⟨d, ds, by rw [integer, if_neg hneg, hds], hspace, ?_⟩
    rw [htake, ← List.cons_append, ← hds]
    exact hnumber

/-- **A lexeme is read as its token**, where nothing behind an integer belongs to it. -/
theorem takeToken?_text (x : Lexeme) {rest : Bytes}
    (h : ∀ n, x = .integer n → Stops numberByte rest) :
    ∃ b more, x.text = b :: more ∧ isSpace b = false ∧
      takeToken? b (more ++ rest) = some (x.token, rest) := by
  cases x with
  | integer n => exact takeToken?_integer n (h n rfl)
  | name part =>
    obtain ⟨pieces, hpieces, htext⟩ := takePieces?_name part rest
    refine ⟨0x22, _, rfl, rfl, ?_⟩
    show (takePieces? (Bytes.ascii part.name ++ [0x22] ++ rest)).map _ = _
    rw [List.append_assoc, List.singleton_append, hpieces]
    simp [htext, Lexeme.token]
  | _ => exact ⟨_, [], rfl, rfl, rfl⟩

/-- Neither white space nor a lexeme that is no integer goes on with a number. -/
theorem stops_of_spells {lexemes : List Lexeme} {data : Bytes} (h : Spells lexemes data)
    (hhead : ∀ n, lexemes.head? ≠ some (.integer n)) : Stops numberByte data := by
  have hspace : ∀ (space rest : Bytes), (∀ b ∈ space, isSpace b) → Stops numberByte rest →
      Stops numberByte (space ++ rest) := by
    intro space rest hspace hrest
    cases space with
    | nil => exact hrest
    | cons b space =>
      have hb := hspace b List.mem_cons_self
      simp only [isSpace, Bool.or_eq_true, decide_eq_true_eq] at hb
      rcases hb with ((rfl | rfl) | rfl) | rfl <;> exact stops_cons (by decide)
  cases h with
  | done hs =>
    have := hspace data [] hs nofun
    rwa [List.append_nil] at this
  | @next _ behind x rest hs hrest =>
    refine hspace _ _ hs ?_
    cases x with
    | integer n => exact absurd rfl (hhead n)
    | _ => exact stops_cons (by decide)

theorem tokensWithin?_space {space : Bytes} (hspace : ∀ b ∈ space, isSpace b) (fuel : Nat)
    (data : Bytes) : tokensWithin? (space.length + fuel) (space ++ data) = tokensWithin? fuel data := by
  induction space with
  | nil => simp
  | cons b space ih =>
    have hb := hspace b List.mem_cons_self
    have hrest := ih fun b' hb' => hspace b' (List.mem_cons_of_mem _ hb')
    have hlen : (b :: space).length + fuel = space.length + fuel + 1 := by
      simp only [List.length_cons]
      omega
    rw [hlen, List.cons_append, tokensWithin?, if_pos hb, hrest]

/-- **A text is read back**: its tokens are those of the lexemes that it spells. -/
theorem tokensWithin?_of_spells {lexemes : List Lexeme} {data : Bytes} (h : Spells lexemes data)
    (hapart : Apart lexemes) {fuel : Nat} (hfuel : data.length ≤ fuel) :
    tokensWithin? fuel data = some (lexemes.map Lexeme.token) := by
  induction h generalizing fuel with
  | @done space hspace =>
    obtain ⟨more, rfl⟩ := Nat.exists_eq_add_of_le hfuel
    have := tokensWithin?_space hspace more []
    rw [List.append_nil] at this
    rw [this]
    cases more <;> rfl
  | @next space behind x rest hspace hrest ih =>
    have hbehind : ∀ n, x = .integer n → Stops numberByte behind := by
      rintro n rfl
      refine stops_of_spells hrest fun m hm => ?_
      cases rest with
      | nil => cases hm
      | cons y rest =>
        cases hm
        exact hapart
    have hapart' : Apart rest := by
      cases x <;> first | exact hapart | skip
      cases rest with
      | nil => trivial
      | cons y rest => cases y <;> first | exact hapart | exact hapart.elim
    obtain ⟨b, more, htext, hb, htake⟩ := takeToken?_text x hbehind
    rw [htext] at hfuel ⊢
    simp only [List.length_append, List.length_cons] at hfuel
    obtain ⟨spare, rfl⟩ : ∃ spare, fuel = space.length + (spare + 1) :=
      ⟨fuel - space.length - 1, by omega⟩
    have hrest' : tokensWithin? spare behind = some (rest.map Lexeme.token) :=
      ih hapart' (by omega)
    rw [tokensWithin?_space hspace, List.cons_append, tokensWithin?, if_neg (by simp [hb]), htake]
    simp [hrest']

end Json

end CombLexer
