/-
What tables answer, in terms of the declarations they are built from.

Of all that is declared about one thing, only what comes last counts
(`Declaration.last?`). `Builder.get?_declare` and its neighbours say what one
declaration changes, the lemmas on `declareAll` what a list of them leaves, and
`Builder.build_declared` what the packed tables then answer: the edges, fallbacks
and rules that were declared last, and along the declared fallbacks the first
edge there is.
-/
import CombLexer.Proofs.Table.Building

namespace CombLexer

/-! ## What declarations say -/

namespace Symbols

/-- A symbol is among those that an edge is declared on. -/
def Has (c : Nat) : Symbols → Prop
  | one symbol => c = symbol
  | endOfInput => c = CombLexer.endOfInput
  | bytes bs => ∃ b ∈ bs, b.toNat = c
  | range low high => c < 256 ∧ low ≤ c ∧ c ≤ high
  | bytesBut except => c < 256 ∧ ∀ b ∈ except, b.toNat ≠ c

instance (c : Nat) : DecidablePred (Has c)
  | one symbol => inferInstanceAs (Decidable (c = symbol))
  | endOfInput => inferInstanceAs (Decidable (c = CombLexer.endOfInput))
  | bytes bs => inferInstanceAs (Decidable (∃ b ∈ bs, b.toNat = c))
  | range low high => inferInstanceAs (Decidable (c < 256 ∧ low ≤ c ∧ c ≤ high))
  | bytesBut except => inferInstanceAs (Decidable (c < 256 ∧ ∀ b ∈ except, b.toNat ≠ c))

theorem mem_toList_iff {symbols : Symbols} {c : Nat} : c ∈ symbols.toList ↔ symbols.Has c := by
  cases symbols <;> simp [toList, Has]

section
variable {c : Nat}

theorem has_one {symbol : Nat} : (one symbol).Has c ↔ c = symbol := by
  simp only [Has]

theorem has_endOfInput : endOfInput.Has c ↔ c = CombLexer.endOfInput := by
  simp only [Has]

theorem has_byte {b : UInt8} : (bytes [b]).Has c ↔ c = b.toNat := by
  simp [Has, eq_comm]

theorem has_range {low high : Nat} (h : high < 256) :
    (range low high).Has c ↔ low ≤ c ∧ c ≤ high := by
  simp only [Has]
  omega

theorem has_bytesBut {except : Bytes} :
    (bytesBut except).Has c ↔ c < 256 ∧ ∀ b ∈ except, c ≠ b.toNat := by
  simp [Has, ne_comm]

end

end Symbols

namespace Declaration

/-- The target that a declaration gives to the edge of `s` on `c`. -/
def edge? (s c : Nat) : Declaration → Option Cell
  | .edges source symbols target => if source = s ∧ symbols.Has c then some target else none
  | _ => none

/-- The fallback that a declaration gives to `s`. -/
def fallback? (s : Nat) : Declaration → Option Cell
  | .fallback source target => if source = s then some target else none
  | _ => none

/-- The rule that a declaration lets `s` accept. -/
def accept? (s : Nat) : Declaration → Option Cell
  | .accept source rule => if source = s then some rule else none
  | _ => none

/-- How many states there are behind a declaration, with `n` before it. A state that is named is
there from then on, with all below it. -/
def states (n : Nat) : Declaration → Nat
  | .state => n + 1
  | .edges source symbols _ => if symbols.toList = [] then n else max n (source + 1)
  | .fallback s _ | .accept s _ => max n (s + 1)

/-- What is said last, of all that declarations say about one thing. -/
def last? {α : Type} (view : Declaration → Option α) (steps : List Declaration) : Option α :=
  (steps.filterMap view).getLast?

theorem last?_cons {α : Type} (view : Declaration → Option α) (d : Declaration)
    (steps : List Declaration) : last? view (d :: steps) = (last? view steps).or (view d) := by
  cases hd : view d with
  | none => simp [last?, hd]
  | some x => cases hrest : (steps.filterMap view).getLast? <;> simp [last?, hd, hrest,
      List.getLast?_cons]

theorem last?_append {α : Type} {view : Declaration → Option α} (steps more : List Declaration) :
    last? view (steps ++ more) = (last? view more).or (last? view steps) := by
  rw [last?, List.filterMap_append, List.getLast?_append]
  rfl

/-- The state that a declaration is about; one that adds a state is about none. -/
def source? : Declaration → Option Nat
  | .state => none
  | .edges source _ _ | .fallback source _ | .accept source _ => some source

theorem edge?_of_source?_ne {s c : Nat} {d : Declaration} (h : d.source? ≠ some s) :
    d.edge? s c = none := by
  cases d with
  | edges source symbols target => exact if_neg fun hs => h (congrArg some hs.1)
  | state | fallback | accept => rfl

/-- The last edge of a state is the last one that its own declarations give to it. -/
theorem last?_edge?_own (s c : Nat) (steps : List Declaration) :
    last? (edge? s c) (steps.filter (·.source? = some s)) = last? (edge? s c) steps := by
  rw [last?, last?, List.filterMap_filter]
  congr 2
  funext d
  by_cases hs : d.source? = some s
  · exact if_pos (decide_eq_true hs)
  · rw [edge?_of_source?_ne hs, ite_self]

/-- The edge that is left of declarations. -/
def edgeOf? (steps : List Declaration) (s c : Nat) : Option Nat :=
  (last? (edge? s c) steps).map Cell.toNat

/-- The fallback that is left of declarations; one that is declared absent is none. -/
def fallbackOf? (steps : List Declaration) (s : Nat) : Option Nat :=
  (last? (fallback? s) steps).bind Cell.number?

/-- The rule that is left of declarations; one that is declared absent is none. -/
def ruleOf? (steps : List Declaration) (s : Nat) : Option Nat :=
  (last? (accept? s) steps).bind Cell.number?

end Declaration

/-! ## What declarations leave -/

namespace Builder

variable (b : Builder) (s : Nat)

theorem size_update (f : StateDecl → StateDecl) : (b.update s f).size = max b.size (s + 1) := by
  simp only [update, ensure, size, Array.size_modify, Array.size_append, Array.size_replicate]
  omega

theorem decl_update (f : StateDecl → StateDecl) (x : Nat) :
    (b.update s f).decl x = if s = x then f (b.decl x) else b.decl x := by
  have hensure : ((b.ensure s).states[x]?).getD .bare = b.decl x := by
    rw [ensure, Array.getElem?_append, decl]
    split
    · rfl
    · next hge =>
      rw [Array.getElem?_eq_none (Nat.le_of_not_lt hge), Array.getElem?_replicate]
      split <;> rfl
  have hthere : s < (b.ensure s).states.size := by
    simp only [ensure, Array.size_append, Array.size_replicate]
    omega
  rw [decl, update, Array.getElem?_modify]
  by_cases hx : s = x
  · subst hx
    rw [if_pos rfl, if_pos rfl, ← hensure, Array.getElem?_eq_getElem hthere]
    rfl
  · rw [if_neg hx, if_neg hx, hensure]

theorem decl_addState (x : Nat) : b.addState.decl x = b.decl x := by
  rw [decl, addState, Array.getElem?_push, decl]
  split
  · next hx =>
    rw [hx, Array.getElem?_eq_none (Nat.le_refl _)]
    rfl
  · rfl

/-- Edges on some symbols change those of one state, and add it if there are any. -/
theorem foldl_edge (symbols : List Nat) (target : Cell) :
    let b' := symbols.foldl (fun b c => b.edge s c target) b
    (b'.size = if symbols = [] then b.size else max b.size (s + 1)) ∧
      ∀ x, (b'.decl x).fallback = (b.decl x).fallback ∧ (b'.decl x).accept = (b.decl x).accept ∧
        ∀ c, (b'.decl x).row.get? c =
          if s = x ∧ c ∈ symbols then some target else (b.decl x).row.get? c := by
  induction symbols generalizing b with
  | nil => simp
  | cons c₀ rest ih =>
    obtain ⟨hsize, hrest⟩ := ih (b.edge s c₀ target)
    refine ⟨?_, fun x => ?_⟩
    · rw [List.foldl_cons, hsize, edge, size_update, if_neg (List.cons_ne_nil _ _)]
      split <;> omega
    · obtain ⟨hfallback, haccept, hrow⟩ := hrest x
      rw [List.foldl_cons]
      rw [edge, decl_update] at hfallback haccept
      refine ⟨hfallback.trans ?_, haccept.trans ?_, fun c => ?_⟩
      · split <;> rfl
      · split <;> rfl
      · rw [hrow c, edge, decl_update]
        by_cases hx : s = x
        · rw [if_pos hx, Row.get?_insert]
          by_cases hc : c = c₀ <;> by_cases hmem : c ∈ rest <;> simp [hx, hc, hmem]
        · simp [hx]

variable (d : Declaration)

theorem size_declare : (b.declare d).size = d.states b.size := by
  cases d with
  | state => exact Array.size_push _
  | edges source symbols target => exact (b.foldl_edge source symbols.toList target).1
  | fallback source target => exact b.size_update source _
  | accept state rule => exact b.size_update state _

theorem get?_declare (c : Nat) :
    ((b.declare d).decl s).row.get? c = (d.edge? s c).or ((b.decl s).row.get? c) := by
  cases d with
  | state => exact congrArg (fun d : StateDecl => d.row.get? c) (b.decl_addState s)
  | edges source symbols target =>
    obtain ⟨-, hall⟩ := b.foldl_edge source symbols.toList target
    rw [show b.declare (.edges source symbols target) = symbols.toList.foldl _ b from rfl,
      (hall s).2.2 c, Declaration.edge?]
    by_cases hc : source = s ∧ symbols.Has c <;> simp [hc, Symbols.mem_toList_iff]
  | fallback source target =>
    rw [declare, fallback, decl_update]
    split <;> rfl
  | accept state rule =>
    rw [declare, accept, decl_update]
    split <;> rfl

theorem fallback_declare :
    ((b.declare d).decl s).fallback = (d.fallback? s).getD (b.decl s).fallback := by
  cases d with
  | state => exact congrArg StateDecl.fallback (b.decl_addState s)
  | edges source symbols target => exact ((b.foldl_edge source symbols.toList target).2 s).1
  | fallback source target =>
    rw [declare, fallback, decl_update, Declaration.fallback?]
    split <;> rfl
  | accept state rule =>
    rw [declare, accept, decl_update]
    split <;> rfl

theorem accept_declare :
    ((b.declare d).decl s).accept = (d.accept? s).getD (b.decl s).accept := by
  cases d with
  | state => exact congrArg StateDecl.accept (b.decl_addState s)
  | edges source symbols target => exact ((b.foldl_edge source symbols.toList target).2 s).2.1
  | fallback source target =>
    rw [declare, fallback, decl_update]
    split <;> rfl
  | accept state rule =>
    rw [declare, accept, decl_update, Declaration.accept?]
    split <;> rfl

variable (steps : List Declaration)

theorem size_declareAll : (b.declareAll steps).size = steps.foldl Declaration.states b.size := by
  induction steps generalizing b with
  | nil => rfl
  | cons d steps ih =>
    rw [List.foldl_cons, ← size_declare]
    exact ih (b.declare d)

theorem get?_declareAll (c : Nat) :
    ((b.declareAll steps).decl s).row.get? c =
      (Declaration.last? (Declaration.edge? s c) steps).or ((b.decl s).row.get? c) := by
  induction steps generalizing b with
  | nil => rfl
  | cons d steps ih =>
    rw [Declaration.last?_cons, Option.or_assoc, ← get?_declare]
    exact ih (b.declare d)

/-- A field that each declaration leaves or replaces has what is said last about it. -/
theorem field_declareAll {field : StateDecl → Cell} {view : Declaration → Option Cell}
    (hstep : ∀ (b : Builder) (d : Declaration),
      field ((b.declare d).decl s) = (view d).getD (field (b.decl s))) :
    field ((b.declareAll steps).decl s) = (Declaration.last? view steps).getD (field (b.decl s)) := by
  induction steps generalizing b with
  | nil => rfl
  | cons d steps ih =>
    rw [Declaration.last?_cons, Option.getD_or, ← hstep]
    exact ih (b.declare d)

/-! ## From declarations to tables -/

theorem decl_withStates (n : Nat) : (withStates n).decl s = .bare := by
  rw [decl, withStates, Array.getElem?_replicate]
  split <;> rfl

/-- **Packing keeps the automaton.** Tables that are built from declarations, for so few states
that an entry can number each slot of their rows, have the states that were declared. Their edges,
fallbacks and rules are those that were declared last, and a symbol is resolved to the declared
edge of the first state with one along the declared fallbacks. -/
theorem build_declared (n : Nat) {t : Table}
    (hfits : steps.foldl Declaration.states n * 257 < 4294967295)
    (h : ((withStates n).declareAll steps).build = .ok t) :
    t.size = steps.foldl Declaration.states n ∧
      ∀ s < t.size,
        (∀ c, t.edge? s c = Declaration.edgeOf? steps s c) ∧
          t.fallback? s = Declaration.fallbackOf? steps s ∧
          t.rule? s = Declaration.ruleOf? steps s ∧
          ∀ c, FirstEdge (Declaration.edgeOf? steps · c) (Declaration.fallbackOf? steps) s
            (t.resolve? s c) := by
  have hsize : ((withStates n).declareAll steps).size = steps.foldl Declaration.states n := by
    rw [size_declareAll, size, withStates, Array.size_replicate]
  have hsmall : ((withStates n).declareAll steps).Fits := by
    rw [Fits, hsize]
    exact hfits
  have hedge (s c : Nat) : t.edge? s c = Declaration.edgeOf? steps s c := by
    rw [edge?_of_build hsmall h, get?_declareAll, decl_withStates, get?_bare, Option.or_none,
      Declaration.edgeOf?]
  have hfallback (s : Nat) : t.fallback? s = Declaration.fallbackOf? steps s := by
    rw [fallback?_of_build h, field_declareAll _ s steps (fun b d => b.fallback_declare s d),
      decl_withStates, Declaration.fallbackOf?]
    cases Declaration.last? (Declaration.fallback? s) steps <;> rfl
  have hrule (s : Nat) : t.rule? s = Declaration.ruleOf? steps s := by
    rw [rule?_of_build h, field_declareAll _ s steps (fun b d => b.accept_declare s d),
      decl_withStates, Declaration.ruleOf?]
    cases Declaration.last? (Declaration.accept? s) steps <;> rfl
  refine ⟨(size_of_build h).trans hsize, fun s _ => ⟨hedge s, hfallback s, hrule s, fun c => ?_⟩⟩
  have hfirst := t.resolve?_firstEdge s c
  rwa [funext fun s => hedge s c, funext hfallback] at hfirst

/-- Declarations about three states. The edge of state 0 on symbol 1 and the rule of state 1 are
declared twice, and the rule of state 2 is declared absent. -/
def twiceDeclared : List Declaration :=
  [.state, .edges 0 (.range 0 2) (.ofNat 1), .edges 0 (.one 1) (.ofNat 2),
   .edges 2 (.bytes [2]) (.ofNat 0), .fallback 2 (.ofNat 0), .accept 1 (.ofNat 7),
   .accept 1 (.ofNat 5), .accept 2 none]

theorem build_declared_twiceDeclared :
    twiceDeclared.foldl Declaration.states 0 * 257 < 4294967295 ∧
      ∃ t, ((withStates 0).declareAll twiceDeclared).build = .ok t ∧
        t.edge? 0 1 = some 2 ∧ t.rule? 1 = some 5 ∧ t.rule? 2 = none ∧ t.resolve? 2 1 = some 2 := by
  have hfits : twiceDeclared.foldl Declaration.states 0 * 257 < 4294967295 := by decide
  have hok : ((withStates 0).declareAll twiceDeclared).build.isOk = true := by decide +kernel
  refine ⟨hfits, ?_⟩
  cases hbuild : ((withStates 0).declareAll twiceDeclared).build with
  | error e =>
    rw [hbuild] at hok
    cases hok
  | ok t =>
    obtain ⟨hsize, hall⟩ := build_declared twiceDeclared 0 hfits hbuild
    have hstate (s : Fin 3) : s.val < t.size := Nat.lt_of_lt_of_eq s.isLt (hsize.trans rfl).symm
    obtain ⟨hedge, -⟩ := hall 0 (hstate 0)
    obtain ⟨-, -, hrule, -⟩ := hall 1 (hstate 1)
    obtain ⟨-, -, hrule', hresolve⟩ := hall 2 (hstate 2)
    refine ⟨t, rfl, (hedge 1).trans rfl, hrule.trans rfl, hrule'.trans rfl, ?_⟩
    have hfirst : FirstEdge (Declaration.edgeOf? twiceDeclared · 1)
        (Declaration.fallbackOf? twiceDeclared) 2 (some 2) :=
      .behind rfl rfl (.own rfl)
    exact (hresolve 1).unique hfirst

end Builder

end CombLexer
