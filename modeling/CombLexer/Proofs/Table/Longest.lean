/-
The longest match of tables on a text, without a buffer.

`after?` is the state that a text leads to. `Table.Longest` says which match is
the longest: the end of the input comes first, if it leads to a state that
accepts, and otherwise it is the last beginning of the text, of one byte at
least, that leads to such a state. `longest?` computes it
(`longest?_eq_some_iff`), and `longest?_append` splits its work at any place of
the text: what is found before that place and the state reached there are all
that the rest needs.
-/
import CombLexer.Bytes
import CombLexer.Table.Basic

namespace CombLexer

/-- A match: how many bytes it has, and its rule. -/
structure Match where
  length : Nat
  rule : Nat
  deriving DecidableEq, Repr

/-- The same match with `n` bytes before it. -/
def Match.behind (n : Nat) (m : Match) : Match := { m with length := m.length + n }

@[simp] theorem Match.behind_zero : Match.behind 0 = id := rfl

theorem Match.behind_behind (m : Match) (n k : Nat) :
    (m.behind n).behind k = m.behind (n + k) := by
  simp only [Match.behind, Nat.add_assoc]

namespace Table

/-- The state behind all of a text, if there is a target for each of its bytes. -/
def after? (t : Table) (s : Nat) : Bytes → Option Nat
  | [] => some s
  | c :: w => (t.resolve? s c.toNat).bind (t.after? · w)

/-- The longest beginning of a text, of one byte at least, that leads to a state that accepts. -/
def best? (t : Table) (s : Nat) : Bytes → Option Match
  | [] => none
  | c :: w =>
    (t.resolve? s c.toNat).bind fun s' =>
      ((t.best? s' w).map (·.behind 1)).or ((t.rule? s').map (⟨1, ·⟩))

/-- The rule of the state that a text and the end of the input behind it lead to. -/
def endRule? (t : Table) (s : Nat) (w : Bytes) : Option Nat :=
  ((t.after? s w).bind (t.resolve? · endOfInput)).bind t.rule?

/-- The longest match on a text with the end of the input behind it. -/
def longest? (t : Table) (s : Nat) (w : Bytes) : Option Match :=
  ((t.endRule? s w).map (⟨w.length, ·⟩)).or (t.best? s w)

/-- The first `i` bytes of `w` lead from `s` to a state that accepts `r`. -/
def Accepts (t : Table) (s : Nat) (w : Bytes) (i r : Nat) : Prop :=
  ∃ q, t.after? s (w.take i) = some q ∧ t.rule? q = some r

/-- The longest match from `s` on a text with the end of the input behind it. -/
inductive Longest (t : Table) (s : Nat) (w : Bytes) : Match → Prop
  | atEnd {q e r : Nat} (hq : t.after? s w = some q) (he : t.resolve? q endOfInput = some e)
      (hr : t.rule? e = some r) : Longest t s w ⟨w.length, r⟩
  /-- The end leads to no such state, and no longer beginning of the text does. -/
  | inside {k r : Nat}
      (hend : ∀ q e, t.after? s w = some q → t.resolve? q endOfInput = some e → t.rule? e = none)
      (hpos : 1 ≤ k) (hk : k ≤ w.length) (hr : t.Accepts s w k r)
      (hlast : ∀ i r', k < i → i ≤ w.length → ¬ t.Accepts s w i r') : Longest t s w ⟨k, r⟩

/-! ## One byte more, one part more -/

theorem longest?_nil (t : Table) (s : Nat) :
    t.longest? s [] = ((t.resolve? s endOfInput).bind t.rule?).map (⟨0, ·⟩) := by
  simp [longest?, endRule?, after?, best?]

theorem endRule?_cons (t : Table) (s : Nat) (c : UInt8) (w : Bytes) :
    t.endRule? s (c :: w) = (t.resolve? s c.toNat).bind (t.endRule? · w) := by
  simp only [endRule?, after?]
  cases t.resolve? s c.toNat with
  | none => rfl
  | some s' => rfl

theorem longest?_cons (t : Table) (s : Nat) (c : UInt8) (w : Bytes) :
    t.longest? s (c :: w) =
      (t.resolve? s c.toNat).bind fun s' =>
        ((t.longest? s' w).map (·.behind 1)).or ((t.rule? s').map (⟨1, ·⟩)) := by
  simp only [longest?, endRule?_cons, best?]
  cases t.resolve? s c.toNat with
  | none => rfl
  | some s' =>
    simp only [Option.bind_some]
    cases t.endRule? s' w with
    | none => rfl
    | some r => rfl

/-- The longest match is found in two parts: what the second part adds counts from the state
behind the first, and where it adds nothing the first part's own best remains. -/
theorem longest?_append (t : Table) (s : Nat) (u w : Bytes) :
    t.longest? s (u ++ w) =
      (((t.after? s u).bind (t.longest? · w)).map (·.behind u.length)).or (t.best? s u) := by
  induction u generalizing s with
  | nil => simp [after?, best?]
  | cons c u ih =>
    simp only [List.cons_append, longest?_cons, after?, best?]
    cases t.resolve? s c.toNat with
    | none => rfl
    | some s' =>
      simp only [Option.bind_some, ih, List.length_cons]
      cases (t.after? s' u).bind (t.longest? · w) with
      | none => rfl
      | some m => simp [Match.behind_behind]

/-! ## What is computed is the longest match -/

theorem accepts_cons {t : Table} {s s' : Nat} {c : UInt8} {w : Bytes} {i r : Nat}
    (h : t.resolve? s c.toNat = some s') :
    t.Accepts s (c :: w) (i + 1) r ↔ t.Accepts s' w i r := by
  simp [Accepts, after?, h]

theorem accepts_zero {t : Table} {s : Nat} {w : Bytes} {r : Nat} :
    t.Accepts s w 0 r ↔ t.rule? s = some r := by
  simp [Accepts, after?]

theorem not_accepts_cons {t : Table} {s : Nat} {c : UInt8} {w : Bytes} {i r : Nat}
    (h : t.resolve? s c.toNat = none) : ¬ t.Accepts s (c :: w) (i + 1) r := by
  simp [Accepts, after?, h]

/-- There is no best beginning exactly if none of one byte or more leads to a state that accepts. -/
theorem best?_eq_none_iff {t : Table} {s : Nat} {w : Bytes} :
    t.best? s w = none ↔ ∀ i r, 1 ≤ i → i ≤ w.length → ¬ t.Accepts s w i r := by
  induction w generalizing s with
  | nil => exact ⟨fun _ i _ hpos hle => absurd hpos (by simp at hle; omega), fun _ => rfl⟩
  | cons c w ih =>
    unfold best?
    cases hs : t.resolve? s c.toNat with
    | none =>
      refine ⟨fun _ i r hpos _ => ?_, fun _ => rfl⟩
      obtain ⟨i, rfl⟩ : ∃ j, i = j + 1 := ⟨i - 1, by omega⟩
      exact not_accepts_cons hs
    | some s' =>
      simp only [Option.bind_some, Option.or_eq_none_iff, Option.map_eq_none_iff, ih]
      constructor
      · rintro ⟨hrest, hfirst⟩ i r hpos hle
        obtain ⟨i, rfl⟩ : ∃ j, i = j + 1 := ⟨i - 1, by omega⟩
        rw [accepts_cons hs]
        rcases Nat.eq_zero_or_pos i with rfl | hi
        · simp [accepts_zero, hfirst]
        · exact hrest i r hi (Nat.le_of_succ_le_succ hle)
      · intro h
        refine ⟨fun i r hpos hle => ?_, ?_⟩
        · rw [← accepts_cons hs]
          exact h (i + 1) r (Nat.succ_pos i) (Nat.succ_le_succ hle)
        · refine Option.eq_none_iff_forall_not_mem.2 fun r hr => h 1 r (Nat.le_refl 1) ?_ ?_
          · exact Nat.succ_le_succ (Nat.zero_le _)
          · exact (accepts_cons hs).2 (accepts_zero.2 hr)

theorem Accepts.rule_eq {t : Table} {s : Nat} {w : Bytes} {i r r' : Nat} (h : t.Accepts s w i r)
    (h' : t.Accepts s w i r') : r = r' := by
  obtain ⟨q, hq, hr⟩ := h
  obtain ⟨q', hq', hr'⟩ := h'
  rw [hq, Option.some.injEq] at hq'
  rw [← hq', hr, Option.some.injEq] at hr'
  exact hr'

/-- The best beginning leads to a state that accepts, and no longer one does. -/
theorem best?_spec {t : Table} {s : Nat} {w : Bytes} {m : Match} (h : t.best? s w = some m) :
    1 ≤ m.length ∧ m.length ≤ w.length ∧ t.Accepts s w m.length m.rule ∧
      ∀ i r, m.length < i → i ≤ w.length → ¬ t.Accepts s w i r := by
  induction w generalizing s m with
  | nil => cases h
  | cons c w ih =>
    unfold best? at h
    cases hs : t.resolve? s c.toNat with
    | none => rw [hs] at h; cases h
    | some s' =>
      rw [hs, Option.bind_some] at h
      cases hb : t.best? s' w with
      | some m' =>
        rw [hb] at h
        cases h
        obtain ⟨hpos, hle, hacc, hlast⟩ := ih hb
        refine ⟨Nat.succ_pos _, Nat.succ_le_succ hle, (accepts_cons hs).2 hacc, ?_⟩
        intro i r hlt hi
        obtain ⟨i, rfl⟩ : ∃ j, i = j + 1 := ⟨i - 1, by simp only [Match.behind] at hlt; omega⟩
        rw [accepts_cons hs]
        exact hlast i r (Nat.lt_of_succ_lt_succ hlt) (Nat.le_of_succ_le_succ hi)
      | none =>
        rw [hb] at h
        obtain ⟨r, hr, rfl⟩ := Option.map_eq_some_iff.1 h
        refine ⟨Nat.le_refl 1, Nat.succ_le_succ (Nat.zero_le _),
          (accepts_cons hs).2 (accepts_zero.2 hr), ?_⟩
        intro i r' hlt hi
        obtain ⟨i, rfl⟩ : ∃ j, i = j + 1 := ⟨i - 1, by omega⟩
        rw [accepts_cons hs]
        exact best?_eq_none_iff.1 hb i r' (Nat.lt_of_succ_lt_succ hlt) (Nat.le_of_succ_le_succ hi)

theorem best?_eq_some_iff {t : Table} {s : Nat} {w : Bytes} {m : Match} :
    t.best? s w = some m ↔
      1 ≤ m.length ∧ m.length ≤ w.length ∧ t.Accepts s w m.length m.rule ∧
        ∀ i r, m.length < i → i ≤ w.length → ¬ t.Accepts s w i r := by
  refine ⟨best?_spec, fun ⟨hpos, hle, hacc, hlast⟩ => ?_⟩
  cases hb : t.best? s w with
  | none => exact absurd hacc (best?_eq_none_iff.1 hb _ _ hpos hle)
  | some m' =>
    obtain ⟨-, hle', hacc', hlast'⟩ := best?_spec hb
    -- Neither match is longer than the other, since the longer one's beginning accepts.
    have hlen : m'.length = m.length := by
      rcases Nat.lt_trichotomy m'.length m.length with hlt | heq | hlt
      · exact absurd hacc (hlast' _ _ hlt hle)
      · exact heq
      · exact absurd hacc' (hlast _ _ hlt hle')
    have hrule : m'.rule = m.rule := (hlen ▸ hacc').rule_eq hacc
    cases m
    cases m'
    simp_all

theorem endRule?_eq_some_iff {t : Table} {s : Nat} {w : Bytes} {r : Nat} :
    t.endRule? s w = some r ↔
      ∃ q e, t.after? s w = some q ∧ t.resolve? q endOfInput = some e ∧ t.rule? e = some r := by
  simp only [endRule?, Option.bind_eq_some_iff]
  constructor
  · rintro ⟨e, ⟨q, hq, he⟩, hr⟩
    exact ⟨q, e, hq, he, hr⟩
  · rintro ⟨q, e, hq, he, hr⟩
    exact ⟨e, ⟨q, hq, he⟩, hr⟩

theorem endRule?_eq_none_iff {t : Table} {s : Nat} {w : Bytes} :
    t.endRule? s w = none ↔
      ∀ q e, t.after? s w = some q → t.resolve? q endOfInput = some e → t.rule? e = none := by
  simp only [endRule?, Option.bind_eq_none_iff, Option.bind_eq_some_iff]
  constructor
  · intro h q e hq he
    exact h e ⟨q, hq, he⟩
  · rintro h e ⟨q, hq, he⟩
    exact h q e hq he

/-- What is computed is the longest match. -/
theorem longest?_eq_some_iff {t : Table} {s : Nat} {w : Bytes} {m : Match} :
    t.longest? s w = some m ↔ t.Longest s w m := by
  unfold longest?
  constructor
  · intro h
    cases hend : t.endRule? s w with
    | some r =>
      rw [hend] at h
      cases h
      obtain ⟨q, e, hq, he, hr⟩ := endRule?_eq_some_iff.1 hend
      exact .atEnd hq he hr
    | none =>
      rw [hend] at h
      obtain ⟨hpos, hle, hacc, hlast⟩ := best?_spec h
      exact .inside (endRule?_eq_none_iff.1 hend) hpos hle hacc hlast
  · intro h
    cases h with
    | atEnd hq he hr => rw [endRule?_eq_some_iff.2 ⟨_, _, hq, he, hr⟩]; rfl
    | inside hend hpos hk hr hlast =>
      rw [endRule?_eq_none_iff.2 hend]
      exact best?_eq_some_iff.2 ⟨hpos, hk, hr, hlast⟩

theorem longest?_eq_none_iff {t : Table} {s : Nat} {w : Bytes} :
    t.longest? s w = none ↔ ∀ m, ¬ t.Longest s w m := by
  simp only [← longest?_eq_some_iff, Option.eq_none_iff_forall_not_mem, Option.mem_def]

/-- A match is no longer than the text. -/
theorem length_le_of_longest? {t : Table} {s : Nat} {w : Bytes} {m : Match}
    (h : t.longest? s w = some m) : m.length ≤ w.length := by
  cases longest?_eq_some_iff.1 h with
  | atEnd => exact Nat.le_refl _
  | inside _ _ hk => exact hk

/-- A match on a text that is not empty has a byte. -/
theorem length_pos_of_longest? {t : Table} {s : Nat} {w : Bytes} {m : Match} (hw : w ≠ [])
    (h : t.longest? s w = some m) : 1 ≤ m.length := by
  cases longest?_eq_some_iff.1 h with
  | atEnd => exact List.length_pos_iff.2 hw
  | inside _ hpos => exact hpos

end Table

end CombLexer
