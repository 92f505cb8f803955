/-
A builder between one attempt to build and the next.

Building leaves the builder as it is, whether it makes tables or complains, so of
all calls before it an attempt sees the declarations alone
(`Builder.answers_append`). What was wrong can be overwritten, with one exception:
an edge stays once it is declared, and so does its symbol. Declarations with
symbols in range can always be mended (`Builder.exists_mending_iff`), others never.
`Builder.build_refuses_malformed` puts this together with which declarations make
tables and which complaint the others get.
-/
import CombLexer.Proofs.Table.Complaints

namespace CombLexer

namespace Declaration

/-! ## What stays of declarations -/

variable {α : Type} {view : Declaration → Option α}

theorem last?_nil : last? view [] = none := rfl

theorem isSome_last?_iff {steps : List Declaration} :
    (last? view steps).isSome ↔ ∃ d ∈ steps, (view d).isSome := by
  rw [last?, List.getLast?_isSome, Ne, List.filterMap_eq_nil_iff]
  simp [Option.isSome_iff_ne_none]

/-- Edges are on symbols in range exactly if they have all been declared so, those that were
overwritten later too. -/
theorem symbolsFit_iff {n : Nat} {steps : List Declaration} :
    (declared n steps).SymbolsFit ↔
      ∀ s symbols target, .edges s symbols target ∈ steps →
        ∀ c, symbols.Has c → c ≤ endOfInput := by
  constructor
  · intro h s symbols target hmem c hc
    refine h s c (isSome_last?_iff.2 ⟨_, hmem, ?_⟩)
    simp [edge?, hc]
  · intro h s c hedge
    obtain ⟨d, hmem, hd⟩ := isSome_last?_iff.1 hedge
    cases d with
    | edges source symbols target =>
      by_cases hhas : source = s ∧ symbols.Has c
      · exact h source symbols target hmem c hhas.2
      · rw [edge?, if_neg hhas] at hd
        cases hd
    | state | fallback | accept => cases hd

/-! ## Declarations that mend -/

/-- An edge on every symbol to state 0, and no fallback. -/
def mendingOf (s : Nat) : List Declaration :=
  [.edges s (.bytesBut []) (.ofNat 0), .edges s .endOfInput (.ofNat 0), .fallback s none]

/-- The same for each of the first `n` states. -/
def mending (n : Nat) : List Declaration := (List.range n).flatMap mendingOf

theorem mending_succ (n : Nat) : mending (n + 1) = mending n ++ mendingOf n := by
  simp [mending, List.range_succ]

theorem states_mending (k n : Nat) : (mending n).foldl states k = max k n := by
  induction n with
  | zero => exact (Nat.max_zero k).symm
  | succ n ih =>
    have hall : (Symbols.bytesBut []).toList ≠ [] := by simp [Symbols.toList]
    have hend : Symbols.endOfInput.toList ≠ [] := List.cons_ne_nil _ _
    rw [mending_succ, List.foldl_append, ih]
    simp only [mendingOf, List.foldl_cons, List.foldl_nil, states, if_neg hall, if_neg hend]
    omega

/-- What is declared of each of the first states is declared of every one of them. -/
theorem last?_mending {s n : Nat} (hs : s < n) {x : α}
    (hself : last? view (mendingOf s) = some x)
    (hother : ∀ s', s' ≠ s → last? view (mendingOf s') = none) :
    last? view (mending n) = some x := by
  induction n with
  | zero => cases hs
  | succ n ih =>
    rw [mending_succ, last?_append]
    by_cases heq : n = s
    · rw [heq, hself, Option.some_or]
    · rw [hother n heq, Option.none_or]
      exact ih (by omega)

theorem edge_mending {s c n : Nat} (hs : s < n) (hc : c ≤ CombLexer.endOfInput) :
    last? (edge? s c) (mending n) = some (.ofNat 0) := by
  have hcases : c < 256 ∨ c = CombLexer.endOfInput := by
    rw [CombLexer.endOfInput] at *
    omega
  refine last?_mending hs ?_ fun s' hne => ?_
  · rcases hcases with hbyte | rfl
    · have hne : c ≠ CombLexer.endOfInput := Nat.ne_of_lt hbyte
      simp [last?_cons, last?_nil, mendingOf, edge?, Symbols.Has, hbyte, hne]
    · simp [last?_cons, last?_nil, mendingOf, edge?, Symbols.Has]
  · simp [last?, mendingOf, edge?, hne]

theorem fallback_mending {s n : Nat} (hs : s < n) :
    last? (fallback? s) (mending n) = some none := by
  refine last?_mending hs ?_ fun s' hne => ?_
  · simp [last?, mendingOf, fallback?]
  · simp [last?, mendingOf, fallback?, hne]

theorem symbolsFit_mending (n : Nat) : (declared 0 (mending n)).SymbolsFit := by
  refine symbolsFit_iff.2 fun s symbols target hmem c hc => ?_
  obtain ⟨s', -, hin⟩ := List.mem_flatMap.1 hmem
  simp only [mendingOf, List.mem_cons, List.not_mem_nil, or_false, edges.injEq, reduceCtorEq] at hin
  rcases hin with ⟨-, rfl, -⟩ | ⟨-, rfl, -⟩
  · exact Nat.le_of_lt hc.1
  · exact Nat.le_of_eq hc

end Declaration

namespace Builder

/-- With edges on symbols in range, mending all states makes declarations well formed. -/
theorem wellFormed_mending {n : Nat} {steps : List Declaration}
    (hsymbols : (Declaration.declared n steps).SymbolsFit) :
    (Declaration.declared n
      (steps ++ Declaration.mending (max (Declaration.declared n steps).size 1))).WellFormed := by
  generalize hm : max (Declaration.declared n steps).size 1 = m
  have hfit : (Declaration.declared n (steps ++ Declaration.mending m)).SymbolsFit := by
    refine Declaration.symbolsFit_iff.2 fun s symbols target hmem => ?_
    rcases List.mem_append.1 hmem with hmem | hmem
    · exact Declaration.symbolsFit_iff.1 hsymbols s symbols target hmem
    · exact Declaration.symbolsFit_iff.1 (Declaration.symbolsFit_mending m) s symbols target hmem
  have hsize : (Declaration.declared n (steps ++ Declaration.mending m)).size = m := by
    show (steps ++ Declaration.mending m).foldl Declaration.states n = m
    rw [List.foldl_append, Declaration.states_mending,
      show steps.foldl Declaration.states n = (Declaration.declared n steps).size from rfl]
    omega
  -- Behind the last state nothing is declared, so only the mended states are left to look at.
  have hbehind (s : Nat) (hs : m ≤ s) :
      (∀ c, (Declaration.declared n (steps ++ Declaration.mending m)).edge s c = none) ∧
        (Declaration.declared n (steps ++ Declaration.mending m)).fallback s = none := by
    have hle : ((withStates n).declareAll (steps ++ Declaration.mending m)).size ≤ s := by
      have heq := congrArg Declared.size (declared_declareAll n (steps ++ Declaration.mending m))
      exact Nat.le_trans (Nat.le_of_eq (heq.trans hsize)) hs
    rw [← declared_declareAll]
    exact ⟨edge_of_le hle, fallback_of_le hle⟩
  have hfallback (s : Nat) :
      (Declaration.declared n (steps ++ Declaration.mending m)).fallback s = none := by
    by_cases hs : s < m
    · show (Declaration.last? (Declaration.fallback? s)
        (steps ++ Declaration.mending m)).getD none = none
      rw [Declaration.last?_append, Declaration.fallback_mending hs]
      rfl
    · exact (hbehind s (Nat.le_of_not_lt hs)).2
  refine ⟨by omega, hfit, fun s s' hnext => ?_, fun s c target hedge => ?_,
    fun s => (Declared.Ends.last (hfallback s)).not_cyclic⟩
  · rw [Declared.FallsBack, hfallback] at hnext
    cases hnext
  · have hc := hfit s c (Option.isSome_iff_exists.2 ⟨target, hedge⟩)
    have hs : s < m := by
      refine Nat.lt_of_not_le fun hle => ?_
      rw [(hbehind s hle).1] at hedge
      cases hedge
    have hmended : (Declaration.declared n (steps ++ Declaration.mending m)).edge s c =
        some (.ofNat 0) := by
      show Declaration.last? (Declaration.edge? s c) (steps ++ Declaration.mending m) = _
      rw [Declaration.last?_append, Declaration.edge_mending hs hc, Option.some_or]
    have htarget : Cell.ofNat 0 = target := Option.some.inj (hmended.symm.trans hedge)
    rw [← htarget, hsize, Cell.toNat_ofNat (Nat.zero_le _)]
    omega

/-- Declarations can be mended exactly if the symbols are in range: no declaration takes an edge
back. -/
theorem exists_mending_iff {n : Nat} {steps : List Declaration}
    (hfits : (Declaration.declared n steps).size * 257 < 4294967295) :
    (∃ more t, ((withStates n).declareAll (steps ++ more)).build = .ok t) ↔
      (Declaration.declared n steps).SymbolsFit := by
  constructor
  · rintro ⟨more, t, h⟩
    have hall := Builder.symbolsFit_iff.2 (build_eq_ok_iff.1 h).1
    rw [declared_declareAll, Declaration.symbolsFit_iff] at hall
    exact Declaration.symbolsFit_iff.2 fun s symbols target hmem =>
      hall s symbols target (List.mem_append_left _ hmem)
  · intro h
    have hsmall (k : Nat) (hk : k * 257 < 4294967295) : max k (max k 1) * 257 < 4294967295 := by
      rcases Nat.eq_zero_or_pos k with rfl | hpos
      · decide
      · rwa [Nat.max_eq_left hpos, Nat.max_self]
    have hwell := wellFormed_mending h
    refine ⟨_, (build_isOk_iff ?_).2 (wellFormed_iff.2 ((declared_declareAll n _).symm ▸ hwell))⟩
    show ((withStates n).declareAll _).declared.size * 257 < 4294967295
    rw [declared_declareAll]
    show (steps ++ Declaration.mending _).foldl Declaration.states n * 257 < 4294967295
    rw [List.foldl_append, Declaration.states_mending]
    exact hsmall _ hfits

/-! ## Calls on a builder -/

/-- What can be asked of a builder: to declare something, or to build. -/
inductive Call where
  | declare (d : Declaration)
  | build

def Call.declaration? : Call → Option Declaration
  | declare d => some d
  | build => none

/-- The declarations among some calls. -/
def declarations (calls : List Call) : List Declaration := calls.filterMap Call.declaration?

/-- What the attempts to build come to, one after the other. -/
def answers (b : Builder) : List Call → List (Except TableError Table)
  | [] => []
  | .declare d :: rest => (b.declare d).answers rest
  | .build :: rest => b.build :: b.answers rest

/-- Of the calls before, only the declarations count for the answers. -/
theorem answers_append (b : Builder) (calls rest : List Call) :
    b.answers (calls ++ rest) =
      b.answers calls ++ (b.declareAll (declarations calls)).answers rest := by
  induction calls generalizing b with
  | nil => rfl
  | cons call calls ih =>
    cases call with
    | declare d => exact ih (b.declare d)
    | build => exact congrArg (b.build :: ·) (ih b)

/-- **Building fails exactly on malformed declarations**, with the complaint that says what is wrong
first. It leaves the builder as it is: each attempt, at whatever place among the calls, sees the
declarations before it, and of these only what was declared last. So what failed once makes tables
as soon as the declarations are mended, which they can be as long as all symbols are in range. -/
theorem build_refuses_malformed (n : Nat) (calls : List Call)
    (hfits : (declarations calls).foldl Declaration.states n * 257 < 4294967295) :
    let steps := declarations calls
    let b := (withStates n).declareAll steps
    (∀ rest, (withStates n).answers (calls ++ .build :: rest) =
        (withStates n).answers calls ++ b.build :: b.answers rest) ∧
      b.declared = Declaration.declared n steps ∧
      ((∃ t, b.build = .ok t) ↔ (Declaration.declared n steps).WellFormed) ∧
      (∀ e, b.build = .error e ↔ b.Complaint e) ∧
      (∀ n' calls', Declaration.declared n' (declarations calls') = Declaration.declared n steps →
        ((withStates n').declareAll (declarations calls')).build = b.build) ∧
      ((∃ more t, ((withStates n).declareAll (steps ++ more)).build = .ok t) ↔
        ∀ s symbols target, .edges s symbols target ∈ steps →
          ∀ c, symbols.Has c → c ≤ endOfInput) := by
  intro steps b
  have hdeclared : b.declared = Declaration.declared n steps := declared_declareAll n steps
  have hsmall : b.Fits := by
    show b.declared.size * 257 < 4294967295
    rw [hdeclared]
    exact hfits
  refine ⟨fun rest => answers_append _ calls (.build :: rest), hdeclared, ?_,
    fun e => build_eq_error_iff hsmall, fun n' calls' h => ?_, ?_⟩
  · rw [build_isOk_iff hsmall, wellFormed_iff, hdeclared]
  · rw [declareAll_congr h]
  · rw [exists_mending_iff hfits, Declaration.symbolsFit_iff]

/-- A state that falls back on itself and has an edge on symbol 1 to a state that is not there, with
an attempt to build before the fallback is declared. -/
def leadingAstray : List Call :=
  [.declare (.edges 0 (.one 1) (.ofNat 7)), .build, .declare (.fallback 0 (.ofNat 0))]

/-- The edge is complained about, not the fallback, in both attempts; and it can be mended. -/
theorem build_refuses_malformed_astray :
    (declarations leadingAstray).foldl Declaration.states 0 * 257 < 4294967295 ∧
      (withStates 0).answers (leadingAstray ++ [.build]) =
        [.error (.stateOutOfRange .transition 1 (some 7) 1),
          .error (.stateOutOfRange .transition 1 (some 7) 1)] ∧
      ((withStates 0).declareAll (declarations leadingAstray)).Complaint
        (.stateOutOfRange .transition 1 (some 7) 1) ∧
      ∃ more t, ((withStates 0).declareAll (declarations leadingAstray ++ more)).build = .ok t := by
  have hfits : (declarations leadingAstray).foldl Declaration.states 0 * 257 < 4294967295 := by
    decide
  have hfirst : ((withStates 0).declare (.edges 0 (.one 1) (.ofNat 7))).build =
      .error (.stateOutOfRange .transition 1 (some 7) 1) :=
    (build_eq_error_iff_defect (by decide +kernel)).2 (by decide +kernel)
  have hsecond : ((withStates 0).declareAll (declarations leadingAstray)).build =
      .error (.stateOutOfRange .transition 1 (some 7) 1) :=
    (build_eq_error_iff_defect (by decide +kernel)).2 (by decide +kernel)
  obtain ⟨hanswers, -, -, herror, -, hmending⟩ := build_refuses_malformed 0 leadingAstray hfits
  refine ⟨hfits, ?_, (herror _).1 hsecond, hmending.2 ?_⟩
  · rw [hanswers, hsecond]
    exact congrArg (· :: _) hfirst
  · intro s symbols target hmem c hc
    have hone : symbols = .one 1 := by
      simp only [declarations, leadingAstray, Call.declaration?, List.filterMap_cons,
        List.filterMap_nil, List.mem_cons, Declaration.edges.injEq, reduceCtorEq, List.not_mem_nil,
        or_false] at hmem
      exact hmem.2.1
    subst hone
    rw [hc]
    decide

end Builder

end CombLexer
