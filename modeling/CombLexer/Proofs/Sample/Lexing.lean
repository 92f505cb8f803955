/-
The automaton of the sample language reads the tokens of its grammar.

A state of the automaton reads tokens on its own terms (`State.longest?`), which
are what the tables find (`longest?_id`). There is one lemma for each kind of
state on what it reads behind the bytes that lead to it; together they say that
the start state reads the tokens of the grammar (`longest?_start`).
-/
import CombLexer.Proofs.Sample.Grammar
import CombLexer.Proofs.Sample.Lookup
import CombLexer.Proofs.Scan.Chunking
import CombLexer.Proofs.Table.Longest

namespace CombLexer.Sample

open Grammar

/-! ## What a state reads -/

namespace State

/-- The longest token behind a state, with the bytes that it has there. Reaching the state may be a
token by itself. -/
def longest? (s : State) : Bytes → Option (Kind × Bytes)
  | [] => (((s.target? endOfInput).bind kind?).or s.kind?).map (·, [])
  | b :: w =>
    (((s.target? b.toNat).bind (·.longest? w)).map fun (k, text) => (k, b :: text)).or
      (s.kind?.map (·, []))

theorem prefix_of_longest? {s : State} {w : Bytes} {k : Kind} {text : Bytes}
    (h : s.longest? w = some (k, text)) : text <+: w := by
  induction w generalizing s k text with
  | nil =>
    obtain ⟨_, -, heq⟩ := Option.map_eq_some_iff.1 h
    cases heq
    exact List.prefix_refl []
  | cons b w ih =>
    rw [longest?, Option.or_eq_some_iff] at h
    obtain hmore | ⟨-, hhere⟩ := h
    · obtain ⟨⟨k', text'⟩, hrest, heq⟩ := Option.map_eq_some_iff.1 hmore
      cases heq
      obtain ⟨s', -, hrest⟩ := Option.bind_eq_some_iff.1 hrest
      exact (List.prefix_cons_inj b).2 (ih hrest)
    · obtain ⟨_, -, heq⟩ := Option.map_eq_some_iff.1 hhere
      cases heq
      exact List.nil_prefix

end State

/-- The match that a token makes. -/
def matched (token : Kind × Bytes) : Match := ⟨token.2.length, token.1.rule⟩

/-- The tables find what the states read: the longest match of a state, or else its own rule. -/
theorem longest?_id {t : Table} (h : table = .ok t) (s : State) (w : Bytes) :
    (t.longest? s.id w).or ((t.rule? s.id).map (⟨0, ·⟩)) =
      (s.longest? w).map matched := by
  induction w generalizing s with
  | nil =>
    rw [Table.longest?_nil, resolve?_id h, rule?_id h, State.longest?]
    cases s.target? endOfInput with
    | none => cases s.kind? <;> rfl
    | some s' =>
      simp only [Option.map_some, Option.bind_some, rule?_id h]
      cases s'.kind? with
      | none => cases s.kind? <;> rfl
      | some k => rfl
  | cons b w ih =>
    rw [Table.longest?_cons, resolve?_id h, rule?_id h, State.longest?]
    cases s.target? b.toNat with
    | none => cases s.kind? <;> rfl
    | some s' =>
      -- A match behind the byte is longer by that byte, and comes before the state's own rule.
      have hrest : ((t.longest? s'.id w).map (·.behind 1)).or ((t.rule? s'.id).map (⟨1, ·⟩)) =
          ((s'.longest? w).map fun (k, text) => (k, b :: text)).map matched := by
        have hbehind := congrArg (Option.map (Match.behind 1)) (ih s')
        rw [Option.map_or, Option.map_map, Option.map_map] at hbehind
        rw [Option.map_map]
        exact hbehind
      simp only [Option.map_some, Option.bind_some, hrest, Option.map_or]
      cases s.kind? <;> rfl

/-! ## The targets on bytes -/

theorem nameStart_eq (b : UInt8) : nameStart b = beginsName b.toNat := by
  revert b
  exact forall_byte (by decide +kernel)

theorem nameByte_eq (b : UInt8) : nameByte b = continuesName b.toNat := by
  revert b
  exact forall_byte (by decide +kernel)

theorem digit_eq (b : UInt8) : digit b = isDigit b.toNat := by
  revert b
  exact forall_byte (by decide +kernel)

theorem blank_eq (b : UInt8) : blank b = isWhite b.toNat := by
  revert b
  exact forall_byte (by decide +kernel)

namespace State

/-- The state behind a byte, by the classes of the grammar. -/
def behind? (s : State) (b : UInt8) : Option State :=
  match s with
  | start =>
    if b = 108 then some l
    else if nameStart b then some ident
    else if digit b then some int
    else if blank b then some white
    else if b = 61 then some assign
    else if b = 45 then some minus
    else if b = 46 then some dot
    else if b = 40 then some leftParen
    else if b = 41 then some rightParen
    else if b = quote then some string
    else none
  | l => if b = 101 then some le else if nameByte b then some ident else none
  | le => if b = 116 then some «let» else if nameByte b then some ident else none
  | ident | «let» => if nameByte b then some ident else none
  | int => if digit b then some int else none
  | white => if blank b then some white else none
  | assign => if b = 61 then some eqEq else none
  | minus => if b = 62 then some arrow else if b = 45 then some lineComment else none
  | lineComment => if lineByte b then some lineComment else none
  | dot => if b = 46 then some dotDot else none
  | dotDot => if b = 46 then some ellipsis else none
  | string => if b = quote then some stringDone else if stringByte b then some string else none
  | eqEq | arrow | ellipsis | leftParen | rightParen | stringDone | stringEnd => none

theorem target?_byte (s : State) (b : UInt8) : s.target? b.toNat = s.behind? b := by
  have hb : b.toNat < 256 := b.toNat_lt
  have heq (c : UInt8) : b = c ↔ b.toNat = c.toNat := UInt8.toNat_inj.symm
  -- Where two of the targets hang on one byte, that byte is looked at first.
  cases s
  case l =>
    by_cases h : b.toNat = 101 <;>
      simp [target?, edge?, fallback?, behind?, nameByte_eq, heq, h]
  case le =>
    by_cases h : b.toNat = 116 <;>
      simp [target?, edge?, fallback?, behind?, nameByte_eq, heq, h]
  case string =>
    by_cases h : b.toNat = 34 <;> by_cases h' : b.toNat = 10 <;>
      simp [target?, edge?, fallback?, behind?, stringByte, quote, lineFeed, heq, hb, h, h']
  all_goals
    simp [target?, edge?, fallback?, first?, behind?, nameStart_eq, nameByte_eq, digit_eq, blank_eq,
      lineByte, quote, lineFeed, heq, hb]

/-- Only strings look at the end of the input. -/
theorem target?_endOfInput (s : State) :
    s.target? endOfInput = if s = string then some stringEnd else none := by
  cases s <;> rfl

theorem longest?_nil {s : State} {k : Kind} (hk : s.kind? = some k) :
    s.longest? [] = some (k, []) := by
  have hs : s ≠ string := by
    rintro rfl
    cases hk
  rw [longest?, target?_endOfInput, if_neg hs, hk]
  rfl

theorem longest?_cons (s : State) (b : UInt8) (w : Bytes) :
    s.longest? (b :: w) =
      (((s.behind? b).bind (·.longest? w)).map fun (k, text) => (k, b :: text)).or
        (s.kind?.map (·, [])) := by
  rw [longest?, target?_byte]

theorem longest?_of_some {s s' : State} {b : UInt8} {w text : Bytes} {k : Kind}
    (hb : s.behind? b = some s') (h : s'.longest? w = some (k, text)) :
    s.longest? (b :: w) = some (k, b :: text) := by
  rw [longest?_cons, hb, Option.bind_some, h]
  rfl

theorem longest?_of_none {s : State} {b : UInt8} (hb : s.behind? b = none) (w : Bytes) :
    s.longest? (b :: w) = s.kind?.map (·, []) := by
  rw [longest?_cons, hb]
  rfl

/-- A state without a target on what follows reads nothing. -/
theorem longest?_stop {s : State} {k : Kind} (hk : s.kind? = some k) {w : Bytes}
    (hw : ∀ b ∈ w.head?, s.behind? b = none) : s.longest? w = some (k, []) := by
  cases w with
  | nil => exact longest?_nil hk
  | cons b w =>
    rw [longest?_of_none (hw b rfl), hk]
    rfl

/-! ## What the states read -/

/-- A state that a class of bytes leads back to reads all of them. -/
theorem longest?_loop {s : State} {k : Kind} {p : UInt8 → Bool} (hk : s.kind? = some k)
    (hstep : ∀ b, s.behind? b = if p b then some s else none) (w : Bytes) :
    s.longest? w = some (k, w.takeWhile p) := by
  induction w with
  | nil => exact longest?_nil hk
  | cons b w ih =>
    by_cases hb : p b
    · rw [longest?_of_some ((hstep b).trans (if_pos hb)) ih, List.takeWhile_cons_of_pos hb]
    · rw [longest?_of_none ((hstep b).trans (if_neg hb)), hk, List.takeWhile_cons_of_neg hb]
      rfl

theorem longest?_ident (w : Bytes) : ident.longest? w = some (.ident, w.takeWhile nameByte) :=
  longest?_loop (s := ident) rfl (fun _ => rfl) w

/-- What a state reads that has come so far with the keyword that only `rest` is missing. -/
def Awaits (s : State) (rest : Bytes) : Prop :=
  ∀ w : Bytes, s.longest? w =
    some (if w.takeWhile nameByte = rest then .let else .ident, w.takeWhile nameByte)

theorem awaits_let : «let».Awaits [] := by
  intro w
  cases w with
  | nil => rfl
  | cons b w =>
    by_cases hb : nameByte b
    · have hident : «let».behind? b = some ident := if_pos hb
      rw [longest?_of_some hident (longest?_ident w), List.takeWhile_cons_of_pos hb]
      rfl
    · have hnone : «let».behind? b = none := if_neg hb
      rw [longest?_of_none hnone, List.takeWhile_cons_of_neg hb]
      rfl

/-- The byte that keeps the keyword alive leads on, and other bytes of a name lead to names. -/
theorem awaits_cons {s s' : State} {c : UInt8} {rest : Bytes} (hk : s.kind? = some .ident)
    (hc : nameByte c)
    (hstep : ∀ b, s.behind? b = if b = c then some s' else if nameByte b then some ident else none)
    (h : s'.Awaits rest) : s.Awaits (c :: rest) := by
  intro w
  cases w with
  | nil => exact longest?_nil hk
  | cons b w =>
    by_cases hbc : b = c
    · subst hbc
      rw [longest?_of_some ((hstep b).trans (if_pos rfl)) (h w), List.takeWhile_cons_of_pos hc]
      simp only [List.cons.injEq, true_and]
    · by_cases hb : nameByte b
      · have hident : s.behind? b = some ident := by rw [hstep, if_neg hbc, if_pos hb]
        rw [longest?_of_some hident (longest?_ident w), List.takeWhile_cons_of_pos hb,
          if_neg (by simp [hbc])]
      · have hnone : s.behind? b = none := by rw [hstep, if_neg hbc, if_neg hb]
        rw [longest?_of_none hnone, hk, List.takeWhile_cons_of_neg hb]
        rfl

theorem awaits_le : le.Awaits (Bytes.ascii "t") :=
  awaits_cons rfl (by decide) (fun _ => rfl) awaits_let

theorem awaits_l : l.Awaits (Bytes.ascii "et") :=
  awaits_cons rfl (by decide) (fun _ => rfl) awaits_le

theorem longest?_string (w : Bytes) : string.longest? w = string? w := by
  induction w with
  | nil => rfl
  | cons b w ih =>
    by_cases hquote : b = quote
    · subst hquote
      exact longest?_of_some rfl (longest?_stop (s := stringDone) rfl fun _ _ => rfl)
    · by_cases hb : stringByte b
      · have hstep : string.behind? b = some string := (if_neg hquote).trans (if_pos hb)
        rw [longest?_cons, hstep, Option.bind_some, ih, string?, string?,
          List.dropWhile_cons_of_pos hb, List.takeWhile_cons_of_pos hb]
        cases w.dropWhile stringByte with
        | nil => rfl
        | cons b' rest => by_cases hb' : b' = quote <;> simp [hb', kind?]
      · have hnone : string.behind? b = none := (if_neg hquote).trans (if_neg hb)
        rw [longest?_of_none hnone, string?, List.dropWhile_cons_of_neg hb]
        exact (if_neg hquote).symm

theorem longest?_minus (w : Bytes) : start.longest? (45 :: w) = mark? (45 :: w) := by
  rcases w with _ | ⟨c, w⟩
  · rfl
  by_cases hcomment : c = 45
  · subst hcomment
    have hbody := longest?_loop (s := lineComment) rfl (fun _ => rfl) w
    exact longest?_of_some rfl (longest?_of_some rfl hbody)
  by_cases harrow : c = 62
  · subst harrow
    have hstop : arrow.longest? w = some (.arrow, []) := longest?_stop rfl fun _ _ => rfl
    exact longest?_of_some rfl (longest?_of_some rfl hstop)
  have hnone : minus.behind? c = none := by rw [behind?, if_neg harrow, if_neg hcomment]
  rw [longest?_of_some rfl (longest?_of_none hnone w)]
  simp [mark?, signs, Bytes.ascii, Ne.symm hcomment, Ne.symm harrow]

theorem longest?_assign (w : Bytes) : start.longest? (61 :: w) = mark? (61 :: w) := by
  rcases w with _ | ⟨c, w⟩
  · rfl
  by_cases heq : c = 61
  · subst heq
    have hstop : eqEq.longest? w = some (.eqEq, []) := longest?_stop rfl fun _ _ => rfl
    exact longest?_of_some rfl (longest?_of_some rfl hstop)
  have hnone : assign.behind? c = none := if_neg heq
  rw [longest?_of_some rfl (longest?_of_none hnone w)]
  simp [mark?, signs, Bytes.ascii, Ne.symm heq]

/-- Two dots are no token, so without a third one the first is read alone. -/
theorem longest?_dot (w : Bytes) : start.longest? (46 :: w) = mark? (46 :: w) := by
  rcases w with _ | ⟨c, w⟩
  · rfl
  by_cases hdot : c = 46
  · subst hdot
    rcases w with _ | ⟨c, w⟩
    · rfl
    by_cases hdot' : c = 46
    · subst hdot'
      have hstop : ellipsis.longest? w = some (.ellipsis, []) := longest?_stop rfl fun _ _ => rfl
      exact longest?_of_some rfl (longest?_of_some rfl (longest?_of_some rfl hstop))
    have htarget : dotDot.behind? c = none := if_neg hdot'
    have hnone : dotDot.longest? (c :: w) = none := longest?_of_none htarget w
    have hdots : dot.longest? (46 :: c :: w) = some (.dot, []) := by
      rw [longest?_cons]
      show ((dotDot.longest? (c :: w)).map _).or _ = _
      rw [hnone]
      rfl
    rw [longest?_of_some rfl hdots]
    simp [mark?, signs, Bytes.ascii, Ne.symm hdot']
  have hnone : dot.behind? c = none := if_neg hdot
  rw [longest?_of_some rfl (longest?_of_none hnone w)]
  simp [mark?, signs, Bytes.ascii, Ne.symm hdot]

/-- The byte that begins the keyword leads to a state of its own, other letters to names. -/
theorem longest?_name {b : UInt8} (hb : nameStart b) (w : Bytes) :
    start.longest? (b :: w) =
      some (if (b :: w).takeWhile nameByte = Bytes.ascii "let" then .let else .ident,
        (b :: w).takeWhile nameByte) := by
  rw [List.takeWhile_cons_of_pos (nameByte_of_nameStart hb)]
  by_cases hl : b = 108
  · subst hl
    have hlet : (108 :: w.takeWhile nameByte = Bytes.ascii "let") ↔
        w.takeWhile nameByte = Bytes.ascii "et" := List.cons_inj_right 108
    rw [longest?_of_some rfl (awaits_l w)]
    simp only [hlet]
  · have hident : start.behind? b = some ident := by rw [behind?, if_neg hl, if_pos hb]
    have hlet : b :: w.takeWhile nameByte ≠ Bytes.ascii "let" := fun h => hl (List.cons.inj h).1
    rw [longest?_of_some hident (longest?_ident w), if_neg hlet]

theorem longest?_digits {b : UInt8} (hb : digit b) (w : Bytes) :
    start.longest? (b :: w) = some (.int, (b :: w).takeWhile digit) := by
  have hl : b ≠ 108 := by
    rintro rfl
    exact absurd hb (by decide)
  have hint : start.behind? b = some int := by
    simp [behind?, hl, nameStart_of_digit b hb, hb]
  have hrun := longest?_loop (s := int) rfl (fun _ => rfl) w
  rw [longest?_of_some hint hrun, List.takeWhile_cons_of_pos hb]

theorem longest?_blanks {b : UInt8} (hb : blank b) (w : Bytes) :
    start.longest? (b :: w) = some (.white, (b :: w).takeWhile blank) := by
  have hwhite : start.behind? b = some white := by
    rcases blank_cases b hb with rfl | rfl | rfl | rfl <;> decide
  have hrun := longest?_loop (s := white) rfl (fun _ => rfl) w
  rw [longest?_of_some hwhite hrun, List.takeWhile_cons_of_pos hb]

theorem longest?_quote (w : Bytes) :
    start.longest? (quote :: w) = (string? w).map fun (k, text) => (k, quote :: text) := by
  have hstring : start.behind? quote = some string := by decide
  rw [longest?_cons, hstring, Option.bind_some, longest?_string]
  exact Option.or_none

/-- A byte that begins no token of another kind begins a comment, a sign or nothing. -/
theorem longest?_mark {b : UInt8} (hname : ¬ nameStart b) (hdigit : ¬ digit b) (hblank : ¬ blank b)
    (hquote : b ≠ quote) (w : Bytes) : start.longest? (b :: w) = mark? (b :: w) := by
  by_cases hminus : b = 45
  · rw [hminus, longest?_minus]
  by_cases hassign : b = 61
  · rw [hassign, longest?_assign]
  by_cases hdot : b = 46
  · rw [hdot, longest?_dot]
  by_cases hleft : b = 40
  · rw [hleft]
    exact longest?_of_some rfl (longest?_stop (s := leftParen) rfl fun _ _ => rfl)
  by_cases hright : b = 41
  · rw [hright]
    exact longest?_of_some rfl (longest?_stop (s := rightParen) rfl fun _ _ => rfl)
  have hl : b ≠ 108 := by
    rintro rfl
    exact hname (by decide)
  have hnone : start.behind? b = none := by
    rw [behind?, if_neg hl, if_neg hname, if_neg hdigit, if_neg hblank, if_neg hassign,
      if_neg hminus, if_neg hdot, if_neg hleft, if_neg hright, if_neg hquote]
  rw [longest?_of_none hnone]
  simp [kind?, mark?, signs, Bytes.ascii, Ne.symm hminus, Ne.symm hassign, Ne.symm hdot,
    Ne.symm hleft, Ne.symm hright]

/-- The start state reads the tokens of the grammar. -/
theorem longest?_start (w : Bytes) : start.longest? w = Grammar.first? w := by
  cases w with
  | nil => rfl
  | cons b w =>
    rw [Grammar.first?]
    by_cases hname : nameStart b
    · rw [if_pos hname, longest?_name hname]
    by_cases hdigit : digit b
    · rw [if_neg hname, if_pos hdigit, longest?_digits hdigit]
    by_cases hblank : blank b
    · rw [if_neg hname, if_neg hdigit, if_pos hblank, longest?_blanks hblank]
    rw [if_neg hname, if_neg hdigit, if_neg hblank]
    by_cases hquote : b = quote
    · rw [if_pos hquote, hquote, longest?_quote]
    · rw [if_neg hquote, longest?_mark hname hdigit hblank hquote]

end State

/-! ## What a scanner answers -/

theorem prefix_of_first? {w text : Bytes} {k : Kind} (h : Grammar.first? w = some (k, text)) :
    text <+: w :=
  State.prefix_of_longest? ((State.longest?_start w).trans h)

/-- From the start state the tables find the tokens of the grammar. -/
theorem longest?_table {t : Table} (h : table = .ok t) (w : Bytes) :
    t.longest? State.start.id w = (Grammar.first? w).map matched := by
  rw [← State.longest?_start, ← longest?_id h, rule?_id h]
  exact Option.or_none.symm

section
variable {t : Table} (h : table = .ok t) {config : Config}
  (hstart : config.initialState = State.start.id)
include h hstart

theorem initialState_lt : config.initialState < t.size := by
  rw [hstart, size_table h]
  exact State.start.id_lt

theorem scan_of_some {r : Reading} {k : Kind} {text : Bytes} (hr : r.ahead ≠ [])
    (hfirst : Grammar.first? r.ahead = some (k, text)) :
    r.scan t config =
      (.ok (some (⟨k.rule, ⟨r.offset, r.offset + text.length⟩⟩, text)), r.pass text.length) := by
  have hlongest : t.longest? config.initialState r.ahead = some ⟨text.length, k.rule⟩ := by
    rw [hstart, longest?_table h, hfirst]
    rfl
  have htake : r.ahead.take text.length = text :=
    (List.prefix_iff_eq_take.1 (prefix_of_first? hfirst)).symm
  rw [Reading.scan_token hr hlongest, htake]

theorem scan_of_none {r : Reading} (hr : r.ahead ≠ []) (hfirst : Grammar.first? r.ahead = none) :
    (r.scan t config).1 = .error (.noMatch r.offset) := by
  have hlongest : t.longest? config.initialState r.ahead = none := by
    rw [hstart, longest?_table h, hfirst]
    rfl
  rw [Reading.scan_noMatch hr hlongest]

end

/-- The answer of a scanner to a text, as far as its first token goes. -/
def firstAnswer (w : Bytes) : Except ScanError (Option (Token × Bytes)) :=
  match Grammar.first? w with
  | some (k, text) => .ok (some (⟨k.rule, ⟨0, text.length⟩⟩, text))
  | none => .error (.noMatch 0)

/-- A scanner on a buffer can be made, and its first answer is the first token of a text, asked for
with its bytes or without. -/
def BeginsWith {σ : Type} [Source σ] (t : Table) (config : Config) (w : Bytes) (b : Buffer σ) :
    Prop :=
  ∃ sc, Scanner.new t b config = .ok sc ∧ sc.nextWithBytes.1 = firstAnswer w ∧
    sc.next.1 = (firstAnswer w).map (Option.map Prod.fst)

theorem beginsWith_of_stands {σ : Type} [Source σ] {t : Table} (h : table = .ok t)
    {config : Config} (hstart : config.initialState = State.start.id) {w : Bytes} (hw : w ≠ [])
    {b : Buffer σ} (hb : b.Stands 0 w) : BeginsWith t config w b := by
  have hanswer : (Reading.next t config ⟨0, w, false, false⟩).1 = firstAnswer w := by
    show (Reading.scan t config ⟨0, w, false, false⟩).1 = _
    unfold firstAnswer
    cases hfirst : Grammar.first? w with
    | none => exact scan_of_none h hstart hw hfirst
    | some token =>
      rw [scan_of_some h hstart hw hfirst]
      simp only [Nat.zero_add]
  have hshows : Scanner.Shows { table := t, buffer := b, config } t config ⟨0, w, false, false⟩ :=
    Scanner.shows_new hb
  refine ⟨_, Scanner.new_eq (initialState_lt h hstart) b, ?_, ?_⟩
  · rw [hshows.nextWithBytes.1, hanswer]
  · rw [hshows.next.result, hanswer]

/-- **The automaton reads the grammar.** The tables of the sample language can be made, and from
their start state the first answer on a text is its first token by the grammar, whether a buffer
holds the text or a source delivers it in any pieces; a text that does not begin with a token fails
at offset 0. -/
theorem nextWithBytes_eq_firstAnswer (config : Config)
    (hstart : config.initialState = State.start.id) (w : Bytes) (hw : w ≠ []) :
    ∃ t, table = .ok t ∧ BeginsWith t config w (.ofBytes w) ∧
      ∀ (σ : Type) [Source σ] (source : σ), Delivers source w →
        BeginsWith t config w (.ofSource source) := by
  obtain ⟨t, h⟩ := exists_table
  exact ⟨t, h, beginsWith_of_stands h hstart hw (Buffer.stands_ofBytes w),
    fun σ _ source hdel => beginsWith_of_stands h hstart hw (Buffer.stands_ofSource hdel)⟩

/-- Two dots and a letter, with a cut between the dots. -/
theorem nextWithBytes_eq_firstAnswer_dots :
    ∃ t, table = .ok t ∧ ∃ sc,
      Scanner.new t (.ofSource (Chunks.mk [[46], [46, 120]])) {} = .ok sc ∧
        sc.nextWithBytes.1 = .ok (some (⟨Kind.dot.rule, ⟨0, 1⟩⟩, [46])) := by
  obtain ⟨t, h, -, hchunks⟩ :=
    nextWithBytes_eq_firstAnswer {} rfl (Bytes.ascii "..x") (by decide)
  obtain ⟨sc, hnew, hnext, -⟩ := hchunks Chunks _ (Chunks.delivers [[46], [46, 120]])
  exact ⟨t, h, sc, hnew, hnext⟩

end CombLexer.Sample
