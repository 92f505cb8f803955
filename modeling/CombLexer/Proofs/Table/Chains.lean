/-
Fallback chains: where they lead, and which of them end.

`along? n s` is the state `n` steps behind `s`, and the chain of `s` ends if
there is a step that it does not have (`Ends`). A chain that ends names no state
twice, so it has no more states than there are (`Ends.along?_size`). That is
also why the walk of `trace` never runs out of fuel on a chain that ends: with
the fuel used up it has come further than any such chain goes. `firstEndless?_spec`
says that the search finds the least state whose chain does not end, and nothing
exactly if there is none.
-/
import CombLexer.Table.Chain
import Mathlib.Data.Finset.Card

namespace CombLexer.Chain

variable {fallback : Array Cell}

/-- The state `n` steps behind `s`, if its chain is that long. -/
def along? (fallback : Array Cell) : Nat → Nat → Option Nat
  | 0, s => some s
  | n + 1, s => (next? fallback s).bind (along? fallback n)

/-- The chain of a state comes to an end. -/
def Ends (fallback : Array Cell) (s : Nat) : Prop := ∃ n, along? fallback n s = none

/-- The entries name states. -/
def InRange (fallback : Array Cell) : Prop :=
  ∀ s s', next? fallback s = some s' → s' < fallback.size

theorem next?_eq_none {s : Nat} (h : fallback.size ≤ s) : next? fallback s = none := by
  simp [next?, Array.getElem?_eq_none h]

/-! ## Steps along a chain -/

theorem along?_add (m n s : Nat) :
    along? fallback (m + n) s = (along? fallback m s).bind (along? fallback n) := by
  induction m generalizing s with
  | zero => simp [along?]
  | succ m ih =>
    rw [Nat.succ_add, along?, along?]
    cases next? fallback s with
    | none => rfl
    | some s' => exact ih s'

theorem along?_one (s : Nat) : along? fallback 1 s = next? fallback s := by
  rw [along?]
  cases next? fallback s <;> rfl

/-- Behind the end there is nothing. -/
theorem along?_eq_none_of_le {m n s : Nat} (h : along? fallback m s = none) (hle : m ≤ n) :
    along? fallback n s = none := by
  obtain ⟨k, rfl⟩ := Nat.exists_eq_add_of_le hle
  rw [along?_add, h]
  rfl

theorem InRange.along?_lt (h : InRange fallback) {n s s' : Nat} (hs : s < fallback.size)
    (halong : along? fallback n s = some s') : s' < fallback.size := by
  induction n generalizing s with
  | zero =>
    cases halong
    exact hs
  | succ n ih =>
    obtain ⟨s₁, hnext, hrest⟩ := Option.bind_eq_some_iff.1 halong
    exact ih (h s s₁ hnext) hrest

/-! ## Chains that end -/

/-- A chain ends exactly if it does from any state on it. -/
theorem ends_iff_of_along {m s s' : Nat} (h : along? fallback m s = some s') :
    Ends fallback s ↔ Ends fallback s' := by
  have hstep (n : Nat) : along? fallback (m + n) s = along? fallback n s' := by
    rw [along?_add, h]
    rfl
  constructor
  · rintro ⟨n, hn⟩
    refine ⟨n, ?_⟩
    rw [← hstep]
    exact along?_eq_none_of_le hn (Nat.le_add_left n m)
  · rintro ⟨n, hn⟩
    exact ⟨m + n, (hstep n).trans hn⟩

theorem ends_iff_of_next {s s' : Nat} (h : next? fallback s = some s') :
    Ends fallback s ↔ Ends fallback s' :=
  ends_iff_of_along (m := 1) ((along?_one s).trans h)

theorem ends_of_next_eq_none {s : Nat} (h : next? fallback s = none) : Ends fallback s :=
  ⟨1, (along?_one s).trans h⟩

/-- A chain that comes back to where it began goes on for ever. -/
theorem not_ends_of_loop {n s : Nat} (h : along? fallback (n + 1) s = some s) :
    ¬ Ends fallback s := by
  have hround (k : Nat) : along? fallback (k * (n + 1)) s = some s := by
    induction k with
    | zero => rw [Nat.zero_mul]; rfl
    | succ k ih =>
      rw [Nat.succ_mul, along?_add, ih]
      exact h
  rintro ⟨m, hm⟩
  have hend := along?_eq_none_of_le hm (Nat.le_mul_of_pos_right m (Nat.succ_pos n))
  rw [hround m] at hend
  cases hend

/-- A chain that goes on for as many steps as there are states runs into a loop. -/
theorem exists_loop (hrange : InRange fallback) {s : Nat} (hs : s < fallback.size)
    (hlong : along? fallback fallback.size s ≠ none) :
    ∃ i x k, along? fallback i s = some x ∧ along? fallback (k + 1) x = some x := by
  have hsome (i : Nat) (hi : i ≤ fallback.size) : ∃ x, along? fallback i s = some x := by
    refine Option.ne_none_iff_exists'.1 fun hnone => hlong ?_
    exact along?_eq_none_of_le hnone hi
  -- One state more than there are: two of them are the same.
  have hcard : (Finset.range fallback.size).card < (Finset.range (fallback.size + 1)).card := by
    simp
  have hmaps : Set.MapsTo (fun i => (along? fallback i s).getD 0)
      (Finset.range (fallback.size + 1) : Set Nat) (Finset.range fallback.size : Set Nat) := by
    intro i hi
    obtain ⟨x, hx⟩ := hsome i (by simpa [Nat.lt_succ_iff] using hi)
    simpa [hx] using hrange.along?_lt hs hx
  obtain ⟨i, hi, j, hj, hne, heq⟩ := Finset.exists_ne_map_eq_of_card_lt_of_maps_to hcard hmaps
  have hloop {i j : Nat} (hj : j ≤ fallback.size) (hlt : i < j)
      (heq : (along? fallback i s).getD 0 = (along? fallback j s).getD 0) :
      ∃ i x k, along? fallback i s = some x ∧ along? fallback (k + 1) x = some x := by
    obtain ⟨x, hx⟩ := hsome i (by omega)
    obtain ⟨y, hy⟩ := hsome j hj
    have hxy : x = y := by simpa [hx, hy] using heq
    obtain ⟨k, rfl⟩ : ∃ k, j = i + (k + 1) := ⟨j - i - 1, by omega⟩
    subst hxy
    rw [along?_add, hx] at hy
    exact ⟨i, x, k, hx, hy⟩
  have hi' : i ≤ fallback.size := by simpa [Nat.lt_succ_iff] using hi
  have hj' : j ≤ fallback.size := by simpa [Nat.lt_succ_iff] using hj
  rcases Nat.lt_or_gt_of_ne hne with hlt | hlt
  · exact hloop hj' hlt heq
  · exact hloop hi' hlt heq.symm

/-- A chain that ends is no longer than there are states. -/
theorem Ends.along?_size (hrange : InRange fallback) {s : Nat} (hs : s < fallback.size)
    (h : Ends fallback s) : along? fallback fallback.size s = none := by
  by_contra hlong
  obtain ⟨i, x, k, hx, hloop⟩ := exists_loop hrange hs hlong
  exact not_ends_of_loop hloop ((ends_iff_of_along hx).1 h)

/-- All chains end exactly if no state comes behind itself. -/
theorem forall_ends_iff (hrange : InRange fallback) :
    (∀ s, Ends fallback s) ↔ ∀ s k, along? fallback (k + 1) s ≠ some s := by
  constructor
  · intro hall s k hloop
    exact not_ends_of_loop hloop (hall s)
  · intro hnone s
    by_cases hs : s < fallback.size
    · by_contra hendless
      obtain ⟨i, x, k, -, hloop⟩ := exists_loop hrange hs fun hend => hendless ⟨_, hend⟩
      exact hnone x k hloop
    · exact ends_of_next_eq_none (next?_eq_none (Nat.le_of_not_lt hs))

/-! ## One walk -/

/-- The stamps of earlier walks: they are on states whose chains end. -/
def Settled (fallback : Array Cell) (start : Nat) (stamps : Array (Option Nat)) : Prop :=
  stamps.size = fallback.size ∧
    ∀ x older, (stamps[x]?).join = some older → older < start ∧ Ends fallback x

/-- The walk that began at `start` has come to `s` in `n` steps: states with its own stamp lead
there, and all others with a stamp have chains that end. -/
structure Tracing (fallback : Array Cell) (start n s : Nat) (stamps : Array (Option Nat)) :
    Prop where
  size : stamps.size = fallback.size
  lt : s < fallback.size
  reached : along? fallback n start = some s
  own : ∀ x, (stamps[x]?).join = some start → ∃ k, along? fallback (k + 1) x = some s
  others : ∀ x older, (stamps[x]?).join = some older → older ≠ start →
    older < start ∧ Ends fallback x

theorem join_setIfInBounds {stamps : Array (Option Nat)} {s : Nat} (hs : s < stamps.size)
    (start x : Nat) :
    ((stamps.setIfInBounds s (some start))[x]?).join =
      if s = x then some start else (stamps[x]?).join := by
  rw [Array.getElem?_setIfInBounds]
  by_cases hx : s = x
  · rw [if_pos hx, if_pos hs, if_pos hx]
    rfl
  · rw [if_neg hx, if_neg hx]

section
variable {start n s : Nat} {stamps : Array (Option Nat)}

theorem tracing_start (hstart : start < fallback.size) (h : Settled fallback start stamps) :
    Tracing fallback start 0 start stamps where
  size := h.1
  lt := hstart
  reached := rfl
  own x hx := absurd (h.2 x start hx).1 (Nat.lt_irrefl start)
  others x older hx _ := h.2 x older hx

/-- A walk that comes to a chain that ends has walked along one that does. -/
theorem Tracing.settled (h : Tracing fallback start n s stamps) (hends : Ends fallback s) :
    Ends fallback start ∧ Settled fallback (start + 1) stamps := by
  refine ⟨(ends_iff_of_along h.reached).2 hends, h.size, fun x older hx => ?_⟩
  by_cases hown : older = start
  · subst hown
    obtain ⟨k, hk⟩ := h.own x hx
    exact ⟨Nat.lt_succ_self _, (ends_iff_of_along hk).2 hends⟩
  · obtain ⟨hlt, hx'⟩ := h.others x older hx hown
    exact ⟨Nat.lt_succ_of_lt hlt, hx'⟩

/-- With the state that it has come to stamped, a walk goes on. -/
theorem Tracing.step (h : Tracing fallback start n s stamps) (hrange : InRange fallback)
    {s' : Nat} (hnext : next? fallback s = some s') :
    Tracing fallback start (n + 1) s' (stamps.setIfInBounds s (some start)) := by
  have hsize : s < stamps.size := h.size ▸ h.lt
  have hmore {m x : Nat} (hx : along? fallback m x = some s) :
      along? fallback (m + 1) x = some s' := by
    rw [along?_add, hx]
    exact (along?_one s).trans hnext
  refine ⟨by rw [Array.size_setIfInBounds, h.size], hrange s s' hnext, hmore h.reached, ?_, ?_⟩
  · intro x hx
    rw [join_setIfInBounds hsize] at hx
    by_cases hxs : s = x
    · subst hxs
      exact ⟨0, (along?_one s).trans hnext⟩
    · rw [if_neg hxs] at hx
      obtain ⟨k, hk⟩ := h.own x hx
      exact ⟨k + 1, hmore hk⟩
  · intro x older hx hne
    rw [join_setIfInBounds hsize] at hx
    by_cases hxs : s = x
    · rw [if_pos hxs] at hx
      cases hx
      exact absurd rfl hne
    · rw [if_neg hxs] at hx
      exact h.others x older hx hne

/-- At the end of its chain, a walk stamps the last state. -/
theorem Tracing.settled_last (h : Tracing fallback start n s stamps)
    (hnext : next? fallback s = none) :
    Ends fallback start ∧ Settled fallback (start + 1) (stamps.setIfInBounds s (some start)) := by
  have hsize : s < stamps.size := h.size ▸ h.lt
  obtain ⟨hstart, -, hsettled⟩ := h.settled (ends_of_next_eq_none hnext)
  refine ⟨hstart, by rw [Array.size_setIfInBounds, h.size], fun x older hx => ?_⟩
  rw [join_setIfInBounds hsize] at hx
  by_cases hxs : s = x
  · rw [if_pos hxs] at hx
    cases hx
    exact ⟨Nat.lt_succ_self _, hxs ▸ ends_of_next_eq_none hnext⟩
  · rw [if_neg hxs] at hx
    exact hsettled x older hx

/-- A walk has an answer exactly if its chain ends, and leaves stamps on such chains only. -/
theorem trace_spec (hrange : InRange fallback) {fuel : Nat}
    (h : Tracing fallback start n s stamps) (hfuel : n + fuel = fallback.size + 1) :
    match trace fallback start fuel s stamps with
    | none => ¬ Ends fallback start
    | some stamps' => Ends fallback start ∧ Settled fallback (start + 1) stamps' := by
  fun_induction trace fallback start fuel s stamps generalizing n with
  | case1 =>
    -- The walk has come further than a chain can go that ends.
    intro hends
    have hstart : start < fallback.size := by
      by_contra hge
      have hnone := (along?_one start).trans (next?_eq_none (Nat.le_of_not_lt hge))
      have hpast := along?_eq_none_of_le hnone (show 1 ≤ n by omega)
      rw [h.reached] at hpast
      cases hpast
    have hend := hends.along?_size hrange hstart
    have hpast := along?_eq_none_of_le hend (show fallback.size ≤ n by omega)
    rw [h.reached] at hpast
    cases hpast
  | case2 fuel s stamps hstamp =>
    obtain ⟨k, hk⟩ := h.own s hstamp
    exact fun hends => not_ends_of_loop hk ((ends_iff_of_along h.reached).1 hends)
  | case3 fuel s stamps older hstamp hne =>
    exact h.settled (h.others s older hstamp hne).2
  | case4 fuel s stamps =>
    rename_i hnext
    exact h.settled_last hnext
  | case5 fuel s stamps =>
    rename_i s' hnext ih
    exact ih (h.step hrange hnext) (by omega)

end

/-! ## All walks -/

/-- The first of some states in a row whose chain does not end is the one that is found. -/
theorem firstEndlessOf_spec (hrange : InRange fallback) {start count : Nat}
    (hcount : start + count ≤ fallback.size) {stamps : Array (Option Nat)}
    (h : Settled fallback start stamps) :
    match firstEndlessOf fallback (List.range' start count) stamps with
    | none => ∀ s, start ≤ s → s < start + count → Ends fallback s
    | some s => ¬ Ends fallback s ∧ ∀ s', start ≤ s' → s' < s → Ends fallback s' := by
  induction count generalizing start stamps with
  | zero =>
    intro s hle hlt
    omega
  | succ count ih =>
    have htrace := trace_spec hrange (tracing_start (by omega) h)
      (Nat.zero_add (fallback.size + 1))
    rw [List.range'_succ, firstEndlessOf]
    cases hresult : trace fallback start (fallback.size + 1) start stamps with
    | none =>
      rw [hresult] at htrace
      refine ⟨htrace, fun s' hle hlt => ?_⟩
      omega
    | some stamps' =>
      rw [hresult] at htrace
      obtain ⟨hends, hsettled⟩ := htrace
      have hrest := ih (by omega) hsettled
      simp only
      cases hfound : firstEndlessOf fallback (List.range' (start + 1) count) stamps' with
      | none =>
        rw [hfound] at hrest
        intro s hle hlt
        rcases Nat.eq_or_lt_of_le hle with rfl | hlt'
        · exact hends
        · exact hrest s hlt' (by omega)
      | some s =>
        rw [hfound] at hrest
        refine ⟨hrest.1, fun s' hle hlt => ?_⟩
        rcases Nat.eq_or_lt_of_le hle with rfl | hlt'
        · exact hends
        · exact hrest.2 s' hlt' hlt

/-- What is found is the least state whose chain does not end. -/
theorem firstEndless?_spec (hrange : InRange fallback) :
    match firstEndless? fallback with
    | none => ∀ s, Ends fallback s
    | some s => ¬ Ends fallback s ∧ ∀ s' < s, Ends fallback s' := by
  have hnone : Settled fallback 0 (Array.replicate fallback.size none) := by
    refine ⟨Array.size_replicate, fun x older hx => ?_⟩
    rw [Array.getElem?_replicate] at hx
    split at hx <;> cases hx
  have hall := firstEndlessOf_spec hrange (Nat.le_of_eq (Nat.zero_add _)) hnone
  rw [firstEndless?, List.range_eq_range']
  cases hfound : firstEndlessOf fallback (List.range' 0 fallback.size)
      (Array.replicate fallback.size none) with
  | none =>
    rw [hfound] at hall
    intro s
    by_cases hs : s < fallback.size
    · exact hall s (Nat.zero_le s) (by omega)
    · exact ends_of_next_eq_none (next?_eq_none (Nat.le_of_not_lt hs))
  | some s =>
    rw [hfound] at hall
    exact ⟨hall.1, fun s' hlt => hall.2 s' (Nat.zero_le s') hlt⟩

theorem firstEndless?_eq_none_iff (hrange : InRange fallback) :
    firstEndless? fallback = none ↔ ∀ s, Ends fallback s := by
  have hspec := firstEndless?_spec hrange
  cases hfound : firstEndless? fallback with
  | none =>
    rw [hfound] at hspec
    exact ⟨fun _ => hspec, fun _ => rfl⟩
  | some s =>
    rw [hfound] at hspec
    exact ⟨nofun, fun hall => absurd (hall s) hspec.1⟩

theorem firstEndless?_eq_some_iff (hrange : InRange fallback) {s : Nat} :
    firstEndless? fallback = some s ↔ ¬ Ends fallback s ∧ ∀ s' < s, Ends fallback s' := by
  have hspec := firstEndless?_spec hrange
  cases hfound : firstEndless? fallback with
  | none =>
    rw [hfound] at hspec
    exact ⟨nofun, fun ⟨hendless, _⟩ => absurd (hspec s) hendless⟩
  | some found =>
    rw [hfound] at hspec
    rw [Option.some.injEq]
    constructor
    · intro heq
      exact heq ▸ hspec
    · intro ⟨hendless, hfirst⟩
      -- Neither of two least states is less than the other.
      rcases Nat.lt_trichotomy found s with hlt | heq | hlt
      · exact absurd (hfirst found hlt) hspec.1
      · exact heq
      · exact absurd (hspec.2 s hlt) hendless

/-- The state that is found is a number that an entry can hold: the state it falls back on has no
end either and is no less. -/
theorem firstEndless?_lt (hrange : InRange fallback) {s : Nat}
    (h : firstEndless? fallback = some s) : s < Cell.absentWord := by
  obtain ⟨hendless, hfirst⟩ := (firstEndless?_eq_some_iff hrange).1 h
  cases hnext : next? fallback s with
  | none => exact absurd (ends_of_next_eq_none hnext) hendless
  | some s' =>
    have hle : s ≤ s' := Nat.le_of_not_lt fun hlt =>
      hendless ((ends_iff_of_next hnext).2 (hfirst s' hlt))
    obtain ⟨e, -, rfl⟩ := Option.map_eq_some_iff.1 hnext
    exact Nat.lt_of_le_of_lt hle e.isLt

end CombLexer.Chain
