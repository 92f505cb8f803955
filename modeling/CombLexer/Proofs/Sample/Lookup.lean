/-
What the tables of the sample language answer.

The declarations make tables (`exists_table`), and what those answer about the
state `s.id` is what is declared about `s`: its rule (`rule?_id`), and on each
symbol the target of its own edge or of that of the state it falls back on
(`resolve?_id`).
-/
import CombLexer.Proofs.Table.Building
import CombLexer.Sample.Automaton

namespace CombLexer.Sample

/-! ## The declarations -/

theorem State.id_lt (s : State) : s.id < builder.size := by cases s <;> decide

/-- The numbers below the number of states are those of the states. -/
theorem State.exists_id {i : Nat} (h : i < builder.size) : ∃ s : State, s.id = i := by
  have hall : ∀ i : Fin 20, ∃ s ∈ State.all, s.id = i.val := by decide
  obtain ⟨s, -, hs⟩ := hall ⟨i, h⟩
  exact ⟨s, hs⟩

theorem decl_id (s : State) : builder.decl s.id = s.decl := by cases s <;> rfl

theorem toNat_id (s : State) : (Cell.ofNat s.id).toNat = s.id := by cases s <;> rfl

theorem fallback_decl (s : State) : s.decl.fallback.number? = s.fallback?.map State.id := by
  cases s <;> rfl

theorem accept_decl (s : State) : s.decl.accept.number? = s.kind?.map Kind.rule := by
  cases s <;> rfl

/-- No state has an edge on what is no symbol. -/
theorem State.edge?_of_le {s : State} {c : Nat} (hc : symbolCount ≤ c) : s.edge? c = none := by
  have hend : endOfInput = 256 := rfl
  have hc : 257 ≤ c := hc
  cases s <;> simp (disch := omega) only [edge?, first?, continuesName, beginsName, isLetter,
    isDigit, isWhite, Bool.or_eq_true, Bool.and_eq_true, decide_eq_true_eq, beq_iff_eq, if_neg]

theorem get?_row (s : State) (c : Nat) :
    s.decl.row.get? c = (s.edge? c).map fun t => Cell.ofNat t.id := by
  show (Row.tabulate symbolCount _).get? c = _
  rw [Row.get?_tabulate]
  split
  · rfl
  · next hc => rw [State.edge?_of_le (Nat.le_of_not_lt hc), Option.map_none]

theorem get?_decl (s : State) (c : Nat) :
    (s.decl.row.get? c).map Cell.toNat = (s.edge? c).map State.id := by
  rw [get?_row]
  cases s.edge? c with
  | none => rfl
  | some s' => exact congrArg some (toNat_id s')

theorem fallback?_eq {s s' : State} (h : s.fallback? = some s') : s' = .ident := by
  cases s <;> cases h <;> rfl

theorem builder_fits : builder.Fits := by
  show builder.size * symbolCount < Cell.absentWord
  decide

theorem builder_wellFormed : builder.WellFormed := by
  have hident {s : State} {n : Nat} (h : s.decl.fallback.number? = some n) :
      n = State.ident.id := by
    rw [fallback_decl] at h
    obtain ⟨s', hback, rfl⟩ := Option.map_eq_some_iff.1 h
    rw [fallback?_eq hback]
  have hends : Chain.Ends (builder.states.map StateDecl.fallback) State.ident.id :=
    Chain.ends_of_next_eq_none (Builder.next?_fallback _)
  refine Builder.wellFormed_of_states (by decide) (fun i hi => ?_) (fun i hi c target hedge => ?_)
    (fun i hi n hback => ?_) (fun i hi => ?_)
  · obtain ⟨s, rfl⟩ := State.exists_id hi
    rw [decl_id]
    exact Row.inAlphabet_tabulate _
  · obtain ⟨s, rfl⟩ := State.exists_id hi
    rw [decl_id, get?_row] at hedge
    obtain ⟨s', -, rfl⟩ := Option.map_eq_some_iff.1 hedge
    rw [toNat_id]
    exact s'.id_lt
  · obtain ⟨s, rfl⟩ := State.exists_id hi
    rw [decl_id] at hback
    rw [hident hback]
    exact State.ident.id_lt
  · obtain ⟨s, rfl⟩ := State.exists_id hi
    cases hback : s.decl.fallback.number? with
    | none => exact Chain.ends_of_next_eq_none (by rw [Builder.next?_fallback, decl_id, hback])
    | some n =>
      obtain rfl := hident hback
      exact (Chain.ends_iff_of_next (by rw [Builder.next?_fallback, decl_id, hback])).2 hends

theorem exists_table : ∃ t, table = .ok t :=
  (Builder.build_isOk_iff builder_fits).2 builder_wellFormed

/-! ## The tables -/

/-- The state behind a symbol: the target of a state's own edge on it or, without one, of the state
it falls back on. -/
def State.target? (s : State) (c : Nat) : Option State :=
  (s.edge? c).or (s.fallback?.bind (·.edge? c))

section
variable {t : Table} (h : table = .ok t)
include h

theorem size_table : t.size = builder.size := Builder.size_of_build h

theorem edge?_id (s : State) (c : Nat) : t.edge? s.id c = (s.edge? c).map State.id := by
  rw [Builder.edge?_of_build builder_fits h, decl_id, get?_decl]

theorem fallback?_id (s : State) : t.fallback? s.id = s.fallback?.map State.id := by
  rw [Builder.fallback?_of_build h, decl_id, fallback_decl]

theorem rule?_id (s : State) : t.rule? s.id = s.kind?.map Kind.rule := by
  rw [Builder.rule?_of_build h, decl_id, accept_decl]

theorem resolve?_id (s : State) (c : Nat) : t.resolve? s.id c = (s.target? c).map State.id := by
  have hident : t.resolve? State.ident.id c = (State.ident.edge? c).map State.id := by
    rw [Table.resolve?_of_last (fallback?_id h .ident), edge?_id h]
  have hedge := edge?_id h s c
  have hnext := fallback?_id h s
  unfold State.target?
  cases hown : s.edge? c with
  | some s' =>
    rw [hown] at hedge
    exact Table.resolve?_of_edge hedge
  | none =>
    rw [hown] at hedge
    cases hback : s.fallback? with
    | none =>
      rw [hback] at hnext
      rw [Table.resolve?_of_last hnext, hedge]
      rfl
    | some s' =>
      rw [hback, fallback?_eq hback] at hnext
      rw [Table.resolve?_of_fallback hedge hnext, hident, fallback?_eq hback]
      rfl

end

end CombLexer.Sample
