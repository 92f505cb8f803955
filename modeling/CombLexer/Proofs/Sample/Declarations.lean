/-
The automaton of the sample language is the one that is declared.

`declareAll_declarations` says that the declarations, made one after the other
to bare states, leave the builder that has of each state and symbol the one edge
that counts; so the tables are those of the declarations (`build_declarations`).
The edge that counts is the one that is declared last (`State.lastOf?_arms`). It
makes a difference on `l`, on which the start state has two.
-/
import CombLexer.Proofs.Sample.Lookup
import CombLexer.Proofs.Table.Declared

namespace CombLexer.Sample

open Declaration

namespace State

/-! ## The edge that is declared last -/

/-- The state that the last of some edges with a symbol leads to. -/
def lastOf? (arms : List (Symbols × State)) (c : Nat) : Option State :=
  arms.foldl (fun found arm => if arm.1.Has c then some arm.2 else found) none

theorem has_digits {c : Nat} : digits.Has c ↔ isDigit c := by
  simp [digits, Symbols.Has, Bytes.ascii, isDigit]
  omega

theorem has_blanks {c : Nat} : blanks.Has c ↔ isWhite c := by
  simp [blanks, Symbols.Has, Bytes.ascii, isWhite]
  omega

/-- The edge of a state that counts is the one that is declared last. -/
theorem lastOf?_arms (s : State) (c : Nat) : lastOf? s.arms c = s.edge? c := by
  cases s
  -- The last edge comes first in a chain of choices, whose conditions are ranges of symbols.
  all_goals
    simp only [lastOf?, arms, onNameStart, List.cons_append, List.nil_append, List.foldl_cons,
      List.foldl_nil, has_digits, has_blanks, Symbols.has_one, Symbols.has_byte, Symbols.has_range,
      Symbols.has_bytesBut, Symbols.has_endOfInput, Nat.reduceLT, UInt8.reduceToNat,
      List.mem_cons, List.not_mem_nil, or_false, forall_eq_or_imp, forall_eq]
  case start | ident =>
    by_cases hc : c < 123
    · revert c
      decide
    · -- Beyond the letters there are no edges.
      simp (disch := omega) only [edge?, first?, continuesName, beginsName, isLetter, isDigit,
        isWhite, Bool.or_eq_true, Bool.and_eq_true, decide_eq_true_eq, beq_iff_eq, if_neg]
  case minus | string =>
    have hend : endOfInput = 256 := rfl
    simp only [edge?]
    split_ifs <;> first | rfl | omega
  all_goals rfl

end State

/-! ## The builder of the declarations -/

/-- Edges of one state, seen as declarations. -/
theorem last?_edge?_arms (s c : Nat) (arms : List (Symbols × State)) :
    last? (edge? s c) (arms.map fun arm => .edges s arm.1 (Cell.ofNat arm.2.id)) =
      (State.lastOf? arms c).map fun t => Cell.ofNat t.id := by
  induction arms using List.reverseRecOn with
  | nil => rfl
  | append_singleton arms arm ih =>
    rw [List.map_append, last?_append, ih, State.lastOf?, State.lastOf?, List.foldl_append]
    by_cases hc : arm.1.Has c <;> simp [last?, edge?, hc]

/-- Of all declarations, those about one state. -/
theorem filter_declarations (s : State) :
    declarations.filter (·.source? = some s.id) = s.steps ++ s.accepting := by
  cases s <;> rfl

theorem edge_declarations (s : State) (c : Nat) :
    last? (edge? s.id c) declarations = s.decl.row.get? c := by
  have hfallback : last? (edge? s.id c)
      (s.fallback?.toList.map fun t => .fallback s.id (Cell.ofNat t.id)) = none := by
    cases s.fallback? <;> rfl
  have haccept : last? (edge? s.id c) s.accepting = none := by
    rw [State.accepting]
    cases s.kind? <;> rfl
  rw [← last?_edge?_own, filter_declarations, last?_append, haccept, Option.none_or, State.steps,
    last?_append, hfallback, Option.none_or, last?_edge?_arms, State.lastOf?_arms, get?_row]

theorem fallback_declarations (s : State) :
    (declared State.all.length declarations).fallback s.id = s.decl.fallback := by
  cases s <;> rfl

theorem rule_declarations (s : State) :
    (declared State.all.length declarations).rule s.id = s.decl.accept := by
  cases s <;> rfl

theorem size_declarations : (declared State.all.length declarations).size = builder.size := by
  decide +kernel

/-- **The builder is that of the declarations.** -/
theorem declareAll_declarations :
    (Builder.withStates State.all.length).declareAll declarations = builder := by
  refine Builder.declareAll_eq size_declarations fun i hi => ?_
  obtain ⟨s, rfl⟩ := State.exists_id hi
  rw [decl_id]
  exact ⟨edge_declarations s, fallback_declarations s, rule_declarations s⟩

/-- The tables are those of the declarations. -/
theorem build_declarations :
    ((Builder.withStates State.all.length).declareAll declarations).build = table :=
  congrArg Builder.build declareAll_declarations

end CombLexer.Sample
