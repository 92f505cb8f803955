/-
Pieces of the sample language that stay apart when their texts are joined.

`Piece.Reads` says that a piece is the first token of its text with some text
behind it. There is one lemma for each kind of piece on what that text must not
begin with. Where all pieces of a list are read so (`Separated`), a scan of the
joined text gives the tokens that the pieces are, whole or in pieces
(`meets_of_separated`).
-/
import CombLexer.Proofs.Bytes
import CombLexer.Proofs.Sample.Lexing
import CombLexer.Proofs.Scan.Coverage
import CombLexer.Sample.Generator

namespace CombLexer

namespace Scanner

/-- Where no answer is an error, the tokens are collected from all of them. -/
theorem collectOnto_of_take {σ : Type} [Source σ] {sc : Scanner σ} {count : Nat}
    {found : Array (Token × Bytes)} {tokens : List (Token × Bytes)}
    (h : (sc.take withBytes count).1 = tokens.map .ok) :
    (sc.collectOnto found count).1 = .ok (found.toList ++ tokens) := by
  induction count generalizing sc found tokens with
  | zero =>
    obtain rfl : tokens = [] := List.map_eq_nil_iff.1 h.symm
    rw [List.append_nil]
    rfl
  | succ count ih =>
    obtain ⟨result, sc', hnext⟩ : ∃ result sc', sc.next = (result, sc') := ⟨_, _, rfl⟩
    have hbytes : sc.nextWithBytes =
        (result.map fun token? => token?.map fun token => (token, sc'.lexeme), sc') := by
      rw [nextWithBytes, hnext]
    unfold collectOnto
    simp only [take, hnext] at h
    rw [hbytes]
    rcases result with e | _ | token
    · cases tokens <;> cases h
    · obtain rfl : tokens = [] := List.map_eq_nil_iff.1 h.symm
      simp [Except.map]
    · cases tokens with
      | nil => cases h
      | cons token' tokens =>
        obtain ⟨htoken, hrest⟩ := List.cons.inj h
        cases htoken
        have hcollect : (sc'.collectOnto (found.push (token, sc'.lexeme)) count).1 =
            .ok ((found.push (token, sc'.lexeme)).toList ++ tokens) := ih hrest
        rw [Array.toList_push, List.append_assoc] at hcollect
        exact hcollect

end Scanner

namespace Sample

open Grammar

/-- A piece is the first token of its text with `rest` behind it. -/
def Piece.Reads (p : Piece) (rest : Bytes) : Prop :=
  Grammar.first? (p.text ++ rest) = some (p.kind, p.text)

/-- Each piece is the first token of the text that it and the pieces behind it make up. -/
def Separated : List Piece → Prop
  | [] => True
  | p :: pieces => p.Reads (Piece.join pieces) ∧ Separated pieces

/-! ## What may stand behind a piece -/

theorem first?_name {b : UInt8} {run rest : Bytes} (hb : nameStart b) (hrun : ∀ c ∈ run, nameByte c)
    (hrest : Stops nameByte rest) :
    Grammar.first? (b :: run ++ rest) =
      some (if b :: run = Bytes.ascii "let" then .let else .ident, b :: run) := by
  have hall : ∀ c ∈ b :: run, nameByte c := List.forall_mem_cons.2 ⟨nameByte_of_nameStart hb, hrun⟩
  have htake : (b :: (run ++ rest)).takeWhile nameByte = b :: run :=
    takeWhile_append_of_stops hall hrest
  rw [List.cons_append, Grammar.first?, if_pos hb, htake]

theorem first?_number {b : UInt8} {run rest : Bytes} (hrun : ∀ c ∈ b :: run, digit c)
    (hrest : Stops digit rest) :
    Grammar.first? (b :: run ++ rest) = some (.int, b :: run) := by
  have hb := hrun b List.mem_cons_self
  have htake : (b :: (run ++ rest)).takeWhile digit = b :: run :=
    takeWhile_append_of_stops hrun hrest
  rw [List.cons_append, Grammar.first?, nameStart_of_digit b hb, if_pos hb, htake]
  rfl

theorem first?_white {b : UInt8} {run rest : Bytes} (hrun : ∀ c ∈ b :: run, blank c)
    (hrest : Stops blank rest) :
    Grammar.first? (b :: run ++ rest) = some (.white, b :: run) := by
  have hb := hrun b List.mem_cons_self
  have hname : nameStart b = false := eq_false_of_blank nameByte_of_nameStart hb
  have hdigit : digit b = false := eq_false_of_blank nameByte_of_digit hb
  have htake : (b :: (run ++ rest)).takeWhile blank = b :: run :=
    takeWhile_append_of_stops hrun hrest
  rw [List.cons_append, Grammar.first?, hname, hdigit, if_pos hb, htake]
  rfl

theorem first?_comment {body rest : Bytes} (hbody : ∀ c ∈ body, lineByte c)
    (hrest : Stops lineByte rest) :
    Grammar.first? (45 :: 45 :: body ++ rest) = some (.lineComment, 45 :: 45 :: body) := by
  have hall : ∀ c ∈ 45 :: 45 :: body, lineByte c :=
    List.forall_mem_cons.2 ⟨by decide, List.forall_mem_cons.2 ⟨by decide, hbody⟩⟩
  have htake : (45 :: 45 :: (body ++ rest)).takeWhile lineByte = 45 :: 45 :: body :=
    takeWhile_append_of_stops hall hrest
  show some (Kind.lineComment, (45 :: 45 :: (body ++ rest)).takeWhile lineByte) = _
  rw [htake]

/-- A closed string may have anything behind it. -/
theorem first?_string {body rest : Bytes} (hbody : ∀ c ∈ body, stringByte c) :
    Grammar.first? (34 :: (body ++ [34]) ++ rest) = some (.string, 34 :: (body ++ [34])) := by
  have hquote : Stops stringByte (34 :: rest) := fun b hb => by
    cases hb
    rfl
  have hstring : string? (body ++ 34 :: rest) = some (.string, body ++ [34]) := by
    rw [string?, dropWhile_append_of_stops hbody hquote, takeWhile_append_of_stops hbody hquote]
    rfl
  rw [List.cons_append, List.append_assoc]
  show (string? (body ++ 34 :: rest)).map _ = _
  rw [hstring]
  rfl

/-! ## Scanning joined pieces -/

/-- The tokens that pieces are, each with its text, the first one at an offset. -/
def tokensFrom (offset : Nat) : List Piece → List (Token × Bytes)
  | [] => []
  | p :: pieces =>
    (⟨p.kind.rule, ⟨offset, offset + p.text.length⟩⟩, p.text) ::
      tokensFrom (offset + p.text.length) pieces

theorem length_tokensFrom (offset : Nat) (pieces : List Piece) :
    (tokensFrom offset pieces).length = pieces.length := by
  induction pieces generalizing offset with
  | nil => rfl
  | cons p pieces ih => exact congrArg (· + 1) (ih _)

/-- The token of a piece lies behind the texts of the pieces before it. -/
theorem getElem?_tokensFrom (offset : Nat) {pieces : List Piece} {i : Nat} {p : Piece}
    (h : pieces[i]? = some p) :
    (tokensFrom offset pieces)[i]? =
      some (⟨p.kind.rule, ⟨offset + (Piece.join (pieces.take i)).length,
        offset + (Piece.join (pieces.take (i + 1))).length⟩⟩, p.text) := by
  induction pieces generalizing offset i with
  | nil => cases h
  | cons q pieces ih =>
    cases i with
    | zero =>
      cases h
      simp [tokensFrom, Piece.join]
    | succ i =>
      have hlater := ih (offset + q.text.length) h
      rw [tokensFrom, List.getElem?_cons_succ, hlater]
      simp [Piece.join, Nat.add_assoc]

theorem length_le_join (pieces : List Piece) : pieces.length ≤ (Piece.join pieces).length := by
  induction pieces with
  | nil => exact Nat.le_refl 0
  | cons p pieces ih =>
    have hpos := p.nonempty
    rw [Piece.join, List.flatMap_cons, List.length_append, List.length_cons]
    change pieces.length ≤ (pieces.flatMap Piece.text).length at ih
    omega

section
variable {σ : Type} [Source σ] {t : Table} (h : table = .ok t) {config : Config}
  (hstart : config.initialState = State.start.id)
include h hstart

theorem scan_reads {p : Piece} {rest : Bytes} (offset : Nat) (hp : p.Reads rest) :
    Reading.scan t config ⟨offset, p.text ++ rest, false, false⟩ =
      (.ok (some (⟨p.kind.rule, ⟨offset, offset + p.text.length⟩⟩, p.text)),
        ⟨offset + p.text.length, rest, false, false⟩) := by
  have hne : p.text ++ rest ≠ [] :=
    List.append_ne_nil_of_left_ne_nil (List.length_pos_iff.1 p.nonempty) rest
  rw [scan_of_some h hstart (r := ⟨offset, p.text ++ rest, false, false⟩) hne hp]
  simp [Reading.pass]

/-- A scan of pieces that stay apart answers with one token for each, and then is over. -/
theorem take_of_separated {pieces : List Piece} (hsep : Separated pieces) {sc : Scanner σ}
    {offset : Nat} (hshows : sc.Shows t config ⟨offset, Piece.join pieces, false, false⟩)
    {count : Nat} (hcount : pieces.length < count) :
    (sc.take Scanner.withBytes count).1 = (tokensFrom offset pieces).map .ok := by
  induction pieces generalizing sc offset count with
  | nil =>
    obtain ⟨count, rfl⟩ : ∃ n, count = n + 1 := ⟨count - 1, by omega⟩
    rw [Scanner.take_succ_of_over hshows.next.result]
    rfl
  | cons p pieces ih =>
    obtain ⟨count, rfl⟩ : ∃ n, count = n + 1 := ⟨count - 1, by omega⟩
    obtain ⟨hreads, hsep⟩ := hsep
    have hread := scan_reads h hstart offset hreads
    have hnext := hshows.next
    rw [show Reading.next t config ⟨offset, Piece.join (p :: pieces), false, false⟩ = _ from hread]
      at hnext
    obtain ⟨hresult, hlexeme, hshows⟩ := hnext
    rw [Scanner.take_succ_of_token hresult, ih hsep hshows (by simpa using hcount),
      Scanner.withBytes, hlexeme _ rfl]
    rfl

end

/-- A scan of a buffer meets pieces: a scanner on it can be made, no answer up to the end of the
stream is an error, and the tokens are as many as the pieces, each with the kind and the text of its
piece. The ranges follow one another from offset 0 up to the length of the joined text. -/
def Meets {σ : Type} [Source σ] (t : Table) (config : Config) (pieces : List Piece) (b : Buffer σ) :
    Prop :=
  ∃ (sc : Scanner σ) (tokens : List (Token × Bytes)),
    Scanner.new t b config = .ok sc ∧ sc.lexemes.1 = tokens.map .ok ∧
    sc.collect.1 = .ok tokens ∧ tokens.length = pieces.length ∧
    ∀ (i : Nat) (p : Piece), pieces[i]? = some p →
      tokens[i]? = some (⟨p.kind.rule, ⟨(Piece.join (pieces.take i)).length,
        (Piece.join (pieces.take (i + 1))).length⟩⟩, p.text)

theorem meets_of_separated {σ : Type} [Source σ] {t : Table} (h : table = .ok t) {config : Config}
    (hstart : config.initialState = State.start.id) {pieces : List Piece}
    (hsep : Separated pieces) {b : Buffer σ} (hb : b.Stands 0 (Piece.join pieces)) :
    Meets t config pieces b := by
  have hshows : Scanner.Shows { table := t, buffer := b, config } t config
      ⟨0, Piece.join pieces, false, false⟩ := Scanner.shows_new hb
  have hcount := Nat.lt_of_le_of_lt (length_le_join pieces)
    (Scanner.length_lt_answerBound hshows.stands)
  have htake := take_of_separated h hstart hsep hshows hcount
  refine ⟨_, tokensFrom 0 pieces, Scanner.new_eq (initialState_lt h hstart) b, ?_, ?_,
    length_tokensFrom 0 pieces, fun i p hp => ?_⟩
  · rw [Scanner.lexemes, Scanner.all_eq_take]
    exact htake
  · exact Scanner.collectOnto_of_take htake
  · rw [getElem?_tokensFrom 0 hp, Nat.zero_add, Nat.zero_add]

end Sample

end CombLexer
