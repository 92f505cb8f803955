/-
What a builder holds of all that is declared to it.

Declarations come down to an automaton (`Declared`): so many states, and for each
its edges, its fallback and its rule as they were declared last. A builder holds
that and nothing else (`Builder.eq_of_declared`): the order of declarations, the
kinds of them and what was overwritten are gone.

A row keeps its edges by rising symbol, but a table that is looked up by hash
hands them out in an order of its own. `Listing` is any such order, and
`Builder.buildListed` builds from the edges as they are listed, each row sorted
first. `Builder.build_of_declared` says that none of it shows in the tables, nor
in the complaint.
-/
import CombLexer.Proofs.Table.Declaring

namespace CombLexer

/-! ## The declared automaton -/

/-- The automaton that declarations come down to. An edge can be there and lead to no state; a
fallback or a rule that is declared absent is none. -/
@[ext] structure Declared where
  size : Nat
  edge : Nat → Nat → Option Cell
  fallback : Nat → Cell
  rule : Nat → Cell

/-- What declarations to a builder of `n` bare states come down to. -/
def Declaration.declared (n : Nat) (steps : List Declaration) : Declared where
  size := steps.foldl states n
  edge s c := last? (edge? s c) steps
  fallback s := (last? (fallback? s) steps).getD none
  rule s := (last? (accept? s) steps).getD none

/-- What a builder holds. -/
def Builder.declared (b : Builder) : Declared where
  size := b.size
  edge s := (b.decl s).row.get?
  fallback s := (b.decl s).fallback
  rule s := (b.decl s).accept

/-! ## Rows with the same edges -/

/-- A row is its edges. -/
theorem Row.eq_of_get? {row row' : Row} (h : ∀ c, row.get? c = row'.get? c) : row = row' := by
  have hnodup (row : Row) : row.entries.Nodup := row.rising.imp fun {e e'} hlt heq => by
    rw [heq] at hlt
    exact Nat.lt_irrefl _ hlt
  have hperm : row.entries.Perm row'.entries := by
    refine (List.perm_ext_iff_of_nodup (hnodup row) (hnodup row')).2 fun ⟨c, target⟩ => ?_
    rw [← get?_eq_some_iff, ← get?_eq_some_iff, h]
  -- Two lists by rising symbol that are permutations of each other are one list.
  have heq := hperm.eq_of_pairwise
    (fun e e' _ _ hlt hlt' => absurd hlt' (Nat.lt_asymm hlt)) row.rising row'.rising
  cases row
  cases row'
  cases heq
  rfl

/-- The edges of a state in some order, each of them once: what comes out of a hash table that
holds them. -/
structure Listing (edge : Nat → Option Cell) where
  entries : List (Nat × Cell)
  nodup : (entries.map Prod.fst).Nodup
  mem_iff : ∀ c target, (c, target) ∈ entries ↔ edge c = some target

namespace Listing

variable {edge : Nat → Option Cell}

/-- The order of pairs of words: by symbol, and where symbols are the same by target. -/
def inOrder (e e' : Nat × Cell) : Bool :=
  e.1 < e'.1 || (e.1 == e'.1 && e.2.toNat ≤ e'.2.toNat)

theorem inOrder_iff {e e' : Nat × Cell} :
    inOrder e e' ↔ e.1 < e'.1 ∨ e.1 = e'.1 ∧ e.2.toNat ≤ e'.2.toNat := by
  simp [inOrder]

/-- The listed edges, sorted, are by rising symbol. -/
theorem rising_sorted (l : Listing edge) :
    (l.entries.mergeSort inOrder).Pairwise fun e e' => e.1 < e'.1 := by
  have hsorted : (l.entries.mergeSort inOrder).Pairwise fun e e' => inOrder e e' := by
    refine List.pairwise_mergeSort (fun e₁ e₂ e₃ h h' => ?_) (fun e e' => ?_) l.entries
    · rw [inOrder_iff] at *
      omega
    · rw [Bool.or_eq_true, inOrder_iff, inOrder_iff]
      omega
  have hsymbols : (l.entries.mergeSort inOrder).Pairwise fun e e' => e.1 ≠ e'.1 := by
    have hperm := (List.mergeSort_perm l.entries inOrder).map Prod.fst
    exact List.pairwise_map.1 (hperm.nodup_iff.2 l.nodup)
  refine hsorted.imp₂ (fun e e' h hne => ?_) hsymbols
  rw [inOrder_iff] at h
  omega

/-- The listed edges as a row. -/
def sorted (l : Listing edge) : Row := ⟨l.entries.mergeSort inOrder, l.rising_sorted⟩

theorem get?_sorted (l : Listing edge) (c : Nat) : l.sorted.get? c = edge c := by
  refine Option.ext fun target => ?_
  rw [Row.get?_eq_some_iff, ← l.mem_iff]
  exact (List.mergeSort_perm l.entries inOrder).mem_iff

/-- The edges of a row as it keeps them. -/
def ofRow (row : Row) : Listing row.get? where
  entries := row.entries
  nodup := List.pairwise_map.2 (row.rising.imp Nat.ne_of_lt)
  mem_iff _ _ := Row.get?_eq_some_iff.symm

/-- The edges from the last to the first. -/
def reverse (l : Listing edge) : Listing edge where
  entries := l.entries.reverse
  nodup := by
    rw [List.map_reverse]
    exact List.nodup_reverse.2 l.nodup
  mem_iff c target := List.mem_reverse.trans (l.mem_iff c target)

end Listing

/-! ## Builders with the same declarations -/

namespace Builder

variable {b b' : Builder}

/-- A builder is what it holds about each of its states. -/
theorem eq_of_decl (hsize : b.size = b'.size) (hdecl : ∀ s < b.size, b.decl s = b'.decl s) :
    b = b' := by
  have hstates : b.states = b'.states := by
    refine Array.ext_getElem? fun s => ?_
    by_cases hs : s < b.size
    · rw [getElem?_states hs, getElem?_states (hsize ▸ hs), hdecl s hs]
    · have hs' : ¬ s < b'.size := hsize ▸ hs
      rw [Array.getElem?_eq_none (Nat.le_of_not_lt hs), Array.getElem?_eq_none (Nat.le_of_not_lt hs')]
  cases b
  cases b'
  cases hstates
  rfl

/-- A builder holds nothing but the declared automaton. -/
theorem eq_of_declared (h : b.declared = b'.declared) : b = b' := by
  refine eq_of_decl (congrArg Declared.size h) fun s _ => StateDecl.ext ?_ ?_ ?_
  · exact Row.eq_of_get? fun c => congrFun (congrFun (congrArg Declared.edge h) s) c
  · exact congrFun (congrArg Declared.fallback h) s
  · exact congrFun (congrArg Declared.rule h) s

/-- A builder of declarations holds what they come down to. -/
theorem declared_declareAll (n : Nat) (steps : List Declaration) :
    ((withStates n).declareAll steps).declared = Declaration.declared n steps := by
  refine Declared.ext ?_ (funext fun s => funext fun c => ?_) (funext fun s => ?_)
    (funext fun s => ?_)
  · show ((withStates n).declareAll steps).size = steps.foldl Declaration.states n
    rw [size_declareAll, size, withStates, Array.size_replicate]
  · show (((withStates n).declareAll steps).decl s).row.get? c = _
    rw [get?_declareAll, decl_withStates, get?_bare, Option.or_none]
    rfl
  · show (((withStates n).declareAll steps).decl s).fallback = _
    rw [field_declareAll _ s steps (fun b d => b.fallback_declare s d), decl_withStates]
    rfl
  · show (((withStates n).declareAll steps).decl s).accept = _
    rw [field_declareAll _ s steps (fun b d => b.accept_declare s d), decl_withStates]
    rfl

/-- A builder is that of declarations if it holds what they come down to, state by state. -/
theorem declareAll_eq {n : Nat} {steps : List Declaration}
    (hsize : (Declaration.declared n steps).size = b.size)
    (hdecl : ∀ s < b.size,
      (∀ c, (Declaration.declared n steps).edge s c = (b.decl s).row.get? c) ∧
        (Declaration.declared n steps).fallback s = (b.decl s).fallback ∧
        (Declaration.declared n steps).rule s = (b.decl s).accept) :
    (withStates n).declareAll steps = b := by
  have hdeclared := declared_declareAll n steps
  have hsize' : ((withStates n).declareAll steps).size = b.size :=
    (congrArg Declared.size hdeclared).trans hsize
  refine eq_of_decl hsize' fun s hs => ?_
  obtain ⟨hedge, hfallback, hrule⟩ := hdecl s (hsize' ▸ hs)
  refine StateDecl.ext (Row.eq_of_get? fun c => ?_) ?_ ?_
  · exact (congrFun₂ (congrArg Declared.edge hdeclared) s c).trans (hedge c)
  · exact (congrFun (congrArg Declared.fallback hdeclared) s).trans hfallback
  · exact (congrFun (congrArg Declared.rule hdeclared) s).trans hrule

/-- Declarations that come down to the same automaton leave the same builder. -/
theorem declareAll_congr {n n' : Nat} {steps steps' : List Declaration}
    (h : Declaration.declared n steps = Declaration.declared n' steps') :
    (withStates n).declareAll steps = (withStates n').declareAll steps' :=
  eq_of_declared (by rw [declared_declareAll, declared_declareAll, h])

/-! ## Listed edges -/

/-- The builder with each row put together from the edges as they are listed. -/
def relisted (b : Builder) (listing : ∀ s, Listing (b.declared.edge s)) : Builder :=
  ⟨b.states.mapIdx fun s d => { d with row := (listing s).sorted }⟩

/-- The tables of a builder whose edges are listed in some order. -/
def buildListed (b : Builder) (listing : ∀ s, Listing (b.declared.edge s)) :
    Except TableError Table :=
  (b.relisted listing).build

/-- Sorting the listed edges leaves no trace of the order in which they were listed. -/
theorem relisted_eq (listing : ∀ s, Listing (b.declared.edge s)) : b.relisted listing = b := by
  have hrow (s : Nat) : (listing s).sorted = (b.decl s).row :=
    Row.eq_of_get? fun c => (listing s).get?_sorted c
  have hstates : (b.relisted listing).states = b.states := by
    refine Array.ext_getElem? fun s => ?_
    rw [relisted, Array.getElem?_mapIdx]
    by_cases hs : s < b.size
    · rw [getElem?_states hs, Option.map_some, hrow]
    · rw [Array.getElem?_eq_none (Nat.le_of_not_lt hs)]
      rfl
  cases b
  exact congrArg Builder.mk hstates

/-- **Tables are built of what is declared, and of nothing else.** Two lists of declarations that
leave the same number of states with the same edges, fallbacks and rules make the same tables, or
get the same complaint, in whatever orders the edges of the states are listed. -/
theorem build_of_declared {n n' : Nat} {steps steps' : List Declaration}
    (h : Declaration.declared n steps = Declaration.declared n' steps')
    (listing : ∀ s, Listing (((withStates n).declareAll steps).declared.edge s))
    (listing' : ∀ s, Listing (((withStates n').declareAll steps').declared.edge s)) :
    ((withStates n).declareAll steps).buildListed listing =
        ((withStates n').declareAll steps').buildListed listing' ∧
      ((withStates n).declareAll steps).buildListed listing =
        ((withStates n).declareAll steps).build := by
  rw [buildListed, buildListed, relisted_eq, relisted_eq, declareAll_congr h]
  exact ⟨rfl, rfl⟩

/-- Declarations about two states. State 0 has an edge on symbol 0 to state 1 and one on symbol 1 to
itself, and state 1 falls back on it. -/
def rangeFirst : List Declaration :=
  [.edges 0 (.range 0 1) (.ofNat 1), .edges 0 (.one 1) (.ofNat 0), .fallback 1 (.ofNat 0),
   .accept 1 (.ofNat 7)]

/-- The same automaton, declared to two states that are there from the start. -/
def rangeLast : List Declaration :=
  [.accept 1 (.ofNat 5), .fallback 1 none, .edges 0 (.bytes [1, 0]) (.ofNat 1),
   .edges 0 (.one 1) (.ofNat 0), .accept 1 (.ofNat 7), .fallback 1 (.ofNat 0)]

theorem build_of_declared_reversed :
    Declaration.declared 0 rangeFirst = Declaration.declared 2 rangeLast ∧
      ((withStates 0).declareAll rangeFirst).buildListed (fun _ => .ofRow _) =
        ((withStates 2).declareAll rangeLast).buildListed (fun _ => (Listing.ofRow _).reverse) ∧
      (((withStates 0).declareAll rangeFirst).buildListed fun _ => .ofRow _).isOk := by
  have hsame : Declaration.declared 0 rangeFirst = Declaration.declared 2 rangeLast := by
    refine Declared.ext rfl (funext fun s => funext fun c => ?_) (funext fun s => ?_)
      (funext fun s => ?_)
    · simp only [Declaration.declared, Declaration.last?, rangeFirst, rangeLast, Declaration.edge?,
        List.filterMap_cons, List.filterMap_nil, Symbols.Has]
      by_cases hs : 0 = s
      · by_cases h0 : c = 0
        · simp [← hs, h0]
        · by_cases h1 : c = 1
          · simp [← hs, h1]
          · have hle : ¬ c ≤ 1 := by omega
            have hbytes : ¬ (1 = c ∨ 0 = c) := by omega
            simp [← hs, h1, hle, hbytes]
      · simp [hs]
    · obtain _ | _ | s := s <;> rfl
    · obtain _ | _ | s := s <;> rfl
  obtain ⟨heq, hbuild⟩ :=
    build_of_declared hsame (fun _ => .ofRow _) fun _ => (Listing.ofRow _).reverse
  refine ⟨hsame, heq, ?_⟩
  rw [hbuild]
  decide +kernel

end Builder

end CombLexer
