/-
Generated input is read back piece by piece.

`Always` says what holds of a random result whatever is chosen on the way, with
one rule for each way to put choices together. By these rules every piece that
is no blank stays apart from what the generator puts behind it (`always_token`),
and blanks from what does not begin with a blank. What is kept by putting such
pieces before others holds of all that is generated (`always_piecesFrom`): the
pieces are separated, so a scan of their text meets them all (`pieces_meets`),
and there is as much text as was asked for (`target_le_length_pieces`).
-/
import CombLexer.Proofs.Sample.Separation

namespace CombLexer.Sample

open Grammar

/-! ## Pieces -/

/-- A piece does not begin with a blank, and stays apart from what the generator may put behind it:
anything behind a parenthesis, a line feed behind a comment, and a blank behind other pieces. -/
structure Apart (p : Piece) : Prop where
  begins : Stops blank p.text
  reads : ∀ b rest, blank b → (p.kind = .lineComment → b = lineFeed) → p.Reads (b :: rest)
  alone : Generator.standsAlone p → ∀ rest, p.Reads rest

/-- Only parentheses may touch the next piece. -/
theorem not_standsAlone {p : Piece} (hleft : p.kind ≠ .leftParen) (hright : p.kind ≠ .rightParen) :
    ¬ Generator.standsAlone p := by
  simp [Generator.standsAlone, hleft, hright]

theorem apart_name {b : UInt8} {run : Bytes} {p : Piece} (hb : nameStart b)
    (hrun : ∀ c ∈ run, nameByte c) (htext : p.text = b :: run)
    (hkind : p.kind = if b :: run = Bytes.ascii "let" then .let else .ident) : Apart p := by
  refine ⟨?_, fun c rest hc _ => ?_, fun halone => ?_⟩
  · rw [htext]
    exact stops_cons (blank_of_nameByte (nameByte_of_nameStart hb))
  · rw [Piece.Reads, htext, hkind]
    exact first?_name hb hrun (stops_cons (nameByte_of_blank hc))
  · refine absurd halone (not_standsAlone ?_ ?_) <;> rw [hkind] <;> split <;> nofun

theorem apart_number {b : UInt8} {run : Bytes} {p : Piece} (hrun : ∀ c ∈ b :: run, digit c)
    (htext : p.text = b :: run) (hkind : p.kind = .int) : Apart p := by
  refine ⟨?_, fun c rest hc _ => ?_, fun halone => ?_⟩
  · rw [htext]
    exact stops_cons (blank_of_nameByte (nameByte_of_digit (hrun b List.mem_cons_self)))
  · rw [Piece.Reads, htext, hkind]
    exact first?_number hrun (stops_cons (eq_false_of_blank nameByte_of_digit hc))
  · exact absurd halone (not_standsAlone (by simp [hkind]) (by simp [hkind]))

theorem apart_comment {body : Bytes} {p : Piece} (hbody : ∀ c ∈ body, lineByte c)
    (htext : p.text = 45 :: 45 :: body) (hkind : p.kind = .lineComment) : Apart p := by
  refine ⟨?_, fun c rest _ hc => ?_, fun halone => ?_⟩
  · rw [htext]
    exact stops_cons (by decide)
  · rw [Piece.Reads, htext, hkind, hc hkind]
    exact first?_comment hbody (stops_cons (by decide))
  · exact absurd halone (not_standsAlone (by simp [hkind]) (by simp [hkind]))

theorem apart_string {body : Bytes} {p : Piece} (hbody : ∀ c ∈ body, stringByte c)
    (htext : p.text = 34 :: (body ++ [34])) (hkind : p.kind = .string) : Apart p := by
  have hreads (rest : Bytes) : p.Reads rest := by
    rw [Piece.Reads, htext, hkind]
    exact first?_string hbody
  refine ⟨?_, fun c rest _ _ => hreads _, fun _ => hreads⟩
  rw [htext]
  exact stops_cons (by decide)

/-- A sign that is no parenthesis is read alone before each of the four blanks. -/
theorem apart_sign {p : Piece} (hbegins : Stops blank p.text)
    (hreads : ∀ rest, p.Reads (32 :: rest) ∧ p.Reads (9 :: rest) ∧ p.Reads (13 :: rest) ∧
      p.Reads (10 :: rest))
    (halone : Generator.standsAlone p → ∀ rest, p.Reads rest) : Apart p := by
  refine ⟨hbegins, fun b rest hb _ => ?_, halone⟩
  obtain ⟨hspace, htab, hreturn, hfeed⟩ := hreads rest
  rcases blank_cases b hb with rfl | rfl | rfl | rfl
  · exact hspace
  · exact htab
  · exact hreturn
  · exact hfeed

theorem apart_signs : ∀ p ∈ Generator.signs, Apart p := by
  intro p hp
  simp only [Generator.signs, List.mem_cons, List.not_mem_nil, or_false] at hp
  rcases hp with rfl | rfl | rfl | rfl | rfl | rfl | rfl | rfl
  all_goals refine apart_sign (stops_cons (by decide)) (fun _ => ⟨rfl, rfl, rfl, rfl⟩) ?_
  all_goals first | exact fun _ _ => rfl | exact nofun

theorem reads_white {b : UInt8} {run rest : Bytes} {p : Piece} (hrun : ∀ c ∈ b :: run, blank c)
    (htext : p.text = b :: run) (hkind : p.kind = .white) (hrest : Stops blank rest) :
    p.Reads rest := by
  rw [Piece.Reads, htext, hkind]
  exact first?_white hrun hrest

namespace Generator

variable {ρ : Type} {α β : Type}

/-! ## What holds whatever is chosen -/

/-- A random result has a property whatever choices are made. -/
def Always (choice : StateM ρ α) (P : α → Prop) : Prop := ∀ r, P (choice r).1

theorem always_pure {P : α → Prop} {a : α} (h : P a) : Always (pure a : StateM ρ α) P := fun _ => h

theorem always_bind {P : α → Prop} {Q : β → Prop} {choice : StateM ρ α} {next : α → StateM ρ β}
    (h : Always choice P) (hnext : ∀ a, P a → Always (next a) Q) : Always (choice >>= next) Q :=
  fun r => hnext _ (h r) _

/-- Where nothing needs to be known of the first choice. -/
theorem always_bind_any {Q : β → Prop} {choice : StateM ρ α} {next : α → StateM ρ β}
    (hnext : ∀ a, Always (next a) Q) : Always (choice >>= next) Q :=
  fun _ => hnext _ _

theorem always_ite {P : α → Prop} {c : Prop} [Decidable c] {choice choice' : StateM ρ α}
    (h : c → Always choice P) (h' : ¬ c → Always choice' P) :
    Always (if c then choice else choice') P := by
  split
  · next hc => exact h hc
  · next hc => exact h' hc

theorem always_many {P : UInt8 → Prop} {choice : StateM ρ UInt8} (h : Always choice P)
    (count : Nat) : Always (many choice count) fun bytes => ∀ b ∈ bytes, P b := by
  induction count with
  | zero => exact always_pure nofun
  | succ count ih =>
    refine always_bind h fun b hb => always_bind ih fun bytes hbytes => ?_
    exact always_pure (List.forall_mem_cons.2 ⟨hb, hbytes⟩)

theorem Always.mono {P Q : α → Prop} {choice : StateM ρ α} (h : Always choice P)
    (hpq : ∀ a, P a → Q a) : Always choice Q := fun r => hpq _ (h r)

section
variable [RandomSource ρ]

/-- A byte that is picked has what all bytes to pick from have. -/
theorem always_pick {P : UInt8 → Prop} {set : Bytes} {hset : 0 < set.length} (h : ∀ b ∈ set, P b) :
    Always (pick set hset : StateM ρ UInt8) P :=
  always_bind_any fun i => always_pure (h _ (List.get_mem set i))

theorem always_letter : Always (letter : StateM ρ UInt8) fun b => nameStart b := by
  have h : ∀ b ∈ letters, nameStart b := by decide +kernel
  exact always_pick h

theorem always_digit : Always (digit : StateM ρ UInt8) fun b => Grammar.digit b := by
  have h : ∀ b ∈ digits, Grammar.digit b := by decide +kernel
  exact always_pick h

theorem always_letterOrDigit : Always (letterOrDigit : StateM ρ UInt8) fun b => nameByte b := by
  have hdigits : ∀ b ∈ digits, nameByte b := by decide +kernel
  exact always_bind_any fun _ =>
    always_ite (fun _ => always_letter.mono fun _ => nameByte_of_nameStart)
      (fun _ => always_pick hdigits)

theorem always_name : Always (name : StateM ρ Piece) Apart := by
  have hkeyword : ∀ b ∈ Bytes.ascii "et", nameByte b := by decide +kernel
  refine always_bind_any fun _ => always_ite (fun _ => ?_) (fun _ => ?_)
  · exact always_pure (apart_name (by decide) hkeyword rfl rfl)
  · refine always_bind_any fun more => always_bind always_letter fun b hb => ?_
    refine always_bind (always_many always_letterOrDigit _) fun run hrun => ?_
    exact always_pure (apart_name hb hrun rfl rfl)

theorem always_number : Always (number : StateM ρ Piece) Apart := by
  refine always_bind_any fun more => always_bind always_digit fun b hb => ?_
  refine always_bind (always_many always_digit _) fun run hrun => ?_
  exact always_pure (apart_number (List.forall_mem_cons.2 ⟨hb, hrun⟩) rfl rfl)

theorem always_comment : Always (comment : StateM ρ Piece) Apart := by
  have hset : ∀ b ∈ commentBody, lineByte b := by decide +kernel
  refine always_bind_any fun length => ?_
  refine always_bind (always_many (always_pick hset) _) fun body hbody => ?_
  exact always_pure (apart_comment hbody rfl rfl)

theorem always_string : Always (string : StateM ρ Piece) Apart := by
  have hset : ∀ b ∈ stringBody, stringByte b := by decide +kernel
  refine always_bind_any fun length => ?_
  refine always_bind (always_many (always_pick hset) _) fun body hbody => ?_
  exact always_pure (apart_string hbody rfl rfl)

theorem always_sign : Always (sign : StateM ρ Piece) Apart :=
  always_bind_any fun i => always_pure (apart_signs _ (List.get_mem signs i))

/-- Every piece that is no blank stays apart from what is put behind it. -/
theorem always_token : Always (token : StateM ρ Piece) Apart := by
  refine always_bind_any fun roll => ?_
  refine always_ite (fun _ => always_name) (fun _ => ?_)
  refine always_ite (fun _ => always_number) (fun _ => ?_)
  refine always_ite (fun _ => always_comment) (fun _ => ?_)
  exact always_ite (fun _ => always_string) (fun _ => always_sign)

/-- Blanks, a line feed first if they stand behind a comment. -/
structure Blanks (behindComment : Bool) (p : Piece) : Prop where
  kind : p.kind = .white
  text : ∃ b run, p.text = b :: run ∧ (∀ c ∈ b :: run, blank c) ∧
    (behindComment = true → b = lineFeed)

theorem always_white (behindComment : Bool) :
    Always (white behindComment : StateM ρ Piece) (Blanks behindComment) := by
  have hset : ∀ b ∈ blanks, blank b := by decide +kernel
  refine always_ite (fun _ => ?_) (fun hbehind => ?_)
  · refine always_bind_any fun more => ?_
    refine always_bind (always_many (always_pick hset) _) fun run hrun => ?_
    exact always_pure ⟨rfl, 10, run, rfl, List.forall_mem_cons.2 ⟨by decide, hrun⟩, fun _ => rfl⟩
  · refine always_bind_any fun more => always_bind (always_pick hset) fun b hb => ?_
    refine always_bind (always_many (always_pick hset) _) fun run hrun => ?_
    exact always_pure ⟨rfl, b, run, rfl, List.forall_mem_cons.2 ⟨hb, hrun⟩,
      fun h => absurd h hbehind⟩

/-! ## Lists of pieces -/

/-- Pieces that are read apart, the first of which is no blank. -/
def Readable (pieces : List Piece) : Prop := Separated pieces ∧ Stops blank (Piece.join pieces)

/-- A piece and the blanks behind it are read apart, and from what is not a blank. -/
theorem readable_cons_blanks {p blanks : Piece} {pieces : List Piece} (hp : Apart p)
    (hblanks : Blanks (p.kind == .lineComment) blanks) (hrest : Readable pieces) :
    Readable (p :: blanks :: pieces) := by
  obtain ⟨hsep, hstops⟩ := hrest
  obtain ⟨hkind, b, run, htext, hrun, hfeed⟩ := hblanks
  refine ⟨⟨?_, reads_white hrun htext hkind hstops, hsep⟩, stops_append p.nonempty hp.begins _⟩
  have hjoin : Piece.join (blanks :: pieces) = b :: (run ++ Piece.join pieces) := by
    show blanks.text ++ Piece.join pieces = _
    rw [htext]
    rfl
  rw [hjoin]
  exact hp.reads b _ (hrun b List.mem_cons_self) fun hk => hfeed (by simp [hk])

/-- What holds of no pieces once the target is reached, and goes on holding with a piece put before
others, holds of the pieces that are made from any length on. -/
theorem always_piecesFrom {target : Nat} {P : Nat → List Piece → Prop}
    (hdone : ∀ length, target ≤ length → P length [])
    (halone : ∀ length p pieces, Apart p → standsAlone p → P (length + p.text.length) pieces →
      P length (p :: pieces))
    (hblanks : ∀ length p blanks pieces, Apart p → Blanks (p.kind == .lineComment) blanks →
      P (length + p.text.length + blanks.text.length) pieces → P length (p :: blanks :: pieces))
    (length : Nat) : Always (piecesFrom target length : StateM ρ (List Piece)) (P length) := by
  -- Each piece has a byte, so there is less to go before the target behind it.
  induction hleft : target - length using Nat.strongRecOn generalizing length with
  | _ left ih =>
    rw [piecesFrom]
    refine always_ite (fun hlt => ?_) (fun hge => ?_)
    · refine always_bind always_token fun p hp => ?_
      have hpos := p.nonempty
      refine always_ite (fun hstands => ?_) (fun _ => ?_)
      · refine always_bind (ih _ (by omega) _ rfl) fun pieces hpieces => ?_
        exact always_pure (halone length p pieces hp hstands hpieces)
      · refine always_bind (always_white _) fun blanks hwhite => ?_
        refine always_bind (ih _ (by omega) _ rfl) fun pieces hpieces => ?_
        exact always_pure (hblanks length p blanks pieces hp hwhite hpieces)
    · exact always_pure (hdone length (Nat.le_of_not_lt hge))

theorem pieces_separated (target : Nat) (r : ρ) : Separated (pieces target r).1 := by
  have hreadable : Always (piecesFrom target 0 : StateM ρ (List Piece)) Readable := by
    refine always_piecesFrom (P := fun _ => Readable) (fun _ _ => ⟨trivial, nofun⟩)
      (fun _ p pieces hp halone hpieces => ?_) (fun _ p blanks pieces hp hblanks hpieces => ?_) 0
    · exact ⟨⟨hp.alone halone _, hpieces.1⟩, stops_append p.nonempty hp.begins _⟩
    · exact readable_cons_blanks hp hblanks hpieces
  exact (hreadable r).1

theorem length_join_cons (p : Piece) (pieces : List Piece) :
    (Piece.join (p :: pieces)).length = p.text.length + (Piece.join pieces).length := by
  rw [Piece.join, List.flatMap_cons, List.length_append]
  rfl

/-- **Generated text reaches its target,** whatever choices a source makes. -/
theorem target_le_length_pieces (target : Nat) (r : ρ) :
    target ≤ (Piece.join (pieces target r).1).length := by
  have hreaches : Always (piecesFrom target 0 : StateM ρ (List Piece)) fun pieces =>
      target ≤ 0 + (Piece.join pieces).length := by
    refine always_piecesFrom (P := fun length pieces => target ≤ length + (Piece.join pieces).length)
      (fun _ hle => hle) (fun _ p pieces _ _ hle => ?_) (fun _ p blanks pieces _ _ hle => ?_) 0
    · rw [length_join_cons]
      omega
    · rw [length_join_cons, length_join_cons]
      omega
  have hle : target ≤ 0 + (Piece.join (pieces target r).1).length := hreaches r
  rwa [Nat.zero_add] at hle

end

end Generator

/-- **Generated text is read back.** Whatever choices a source makes, a scan from the start state
meets the pieces that were generated, whether a buffer holds their joined text or a source delivers
it in any pieces. -/
theorem pieces_meets {ρ : Type} [RandomSource ρ] (target : Nat) (r : ρ) (config : Config)
    (hstart : config.initialState = State.start.id) :
    ∃ t, table = .ok t ∧
      Meets t config (Generator.pieces target r).1
        (.ofBytes (Piece.join (Generator.pieces target r).1)) ∧
      ∀ (σ : Type) [Source σ] (source : σ),
        Delivers source (Piece.join (Generator.pieces target r).1) →
          Meets t config (Generator.pieces target r).1 (.ofSource source) := by
  obtain ⟨t, h⟩ := exists_table
  have hsep := Generator.pieces_separated target r
  exact ⟨t, h, meets_of_separated h hstart hsep (Buffer.stands_ofBytes _),
    fun σ _ source hdel => meets_of_separated h hstart hsep (Buffer.stands_ofSource hdel)⟩

/-- Four words from which one piece and the blank behind it are made. -/
def zeros : WordStream := ⟨[0, 0, 0, 0], 0, 0⟩

def oneBlank : Piece := ⟨.white, [32], by decide⟩

theorem pieces_meets_zeros :
    (Generator.pieces 4 zeros).1 = [Generator.keyword, oneBlank] ∧
      ∃ t, table = .ok t ∧
        Meets t {} [Generator.keyword, oneBlank]
          (.ofSource (Chunks.mk [[108, 101], [116, 32]])) := by
  have hmore : (Generator.pieces 4 zeros).1 =
      Generator.keyword :: oneBlank :: (Generator.piecesFrom 4 4 (⟨[], 0, 4⟩ : WordStream)).1 := by
    rw [Generator.pieces, Generator.piecesFrom]
    rfl
  have hpieces : (Generator.pieces 4 zeros).1 = [Generator.keyword, oneBlank] := by
    rw [hmore, Generator.piecesFrom]
    rfl
  obtain ⟨t, h, -, hchunks⟩ := pieces_meets 4 zeros {} rfl
  rw [hpieces] at hchunks
  exact ⟨hpieces, t, h, hchunks Chunks _ (Chunks.delivers [[108, 101], [116, 32]])⟩

end CombLexer.Sample
