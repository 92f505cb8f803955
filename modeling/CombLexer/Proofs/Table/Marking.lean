/-
Fallback chains, checked with three marks and without a bound on the steps.

`firstEndless?` gives each walk as many steps as there are states and one more,
and takes a walk that has used them up for one that does not end. The check of
this module is told no such number. It walks from each state in turn and marks
what it passes as being on the chain, until it comes to a state that is done or
to the end; then it goes along the same chain once more and marks it as done. A
state that is on the chain already closes a cycle.

That it comes to an end has nothing to do with chains: every step takes a mark
further or a walk to its next part (`step_weight_lt`), whatever the entries are.
What it finds rests on one invariant (`Sound`): the marks of the walk in progress
are on the states it has passed and on no others, so none of them is left when
the next walk begins, and states that are done have chains that end.
`marking_decides_chains` says that the check comes to the verdict of
`firstEndless?`, and which verdict that is.
-/
import CombLexer.Proofs.Table.Chains
import CombLexer.Table.Error
import Mathlib.Logic.Function.Iterate
import Mathlib.Order.Bounds.Basic

namespace CombLexer.Chain

/-- What the check knows of a state. -/
inductive Mark where
  | unseen
  /-- It has been passed by the walk in progress. -/
  | onChain
  /-- Its chain ends. -/
  | done
  deriving DecidableEq

/-- How often a mark can still be taken further: from unseen to on the chain, and from there to
done. -/
def Mark.stepsLeft : Mark → Nat
  | unseen => 2
  | onChain => 1
  | done => 0

/-- How far the check has come. -/
inductive Marking where
  /-- The walk that began at `start` has come to `s`. -/
  | walking (start s : Nat) (marks : Array Mark)
  /-- The walk that began at `start` has come to an end, and its states are done up to `s`. -/
  | settling (start s : Nat) (marks : Array Mark)
  /-- All is said, with what is wrong if anything is. -/
  | finished (complaint? : Option TableError)
  /-- A state was asked for that there is not. -/
  | strayed
  deriving DecidableEq

namespace Marking

/-- The walk from `start` begins, if there is such a state. -/
def turn (start : Nat) (marks : Array Mark) : Marking :=
  if start < marks.size then .walking start start marks else .finished none

def begin (fallback : Array Cell) : Marking := turn 0 (Array.replicate fallback.size .unseen)

/-- The walk from `start` looks at the state it has come to. -/
def walk (fallback : Array Cell) (start s : Nat) (marks : Array Mark) : Marking :=
  match marks[s]? with
  | none => .strayed
  | some .done => .settling start start marks
  | some .onChain => .finished (some (.fallbackCycle start))
  | some .unseen =>
    match next? fallback s with
    | none => .settling start start (marks.setIfInBounds s .onChain)
    | some s' => .walking start s' (marks.setIfInBounds s .onChain)

/-- The state is done if it is on the chain; at the end of the chain the next walk begins. -/
def settle (fallback : Array Cell) (start s : Nat) (marks : Array Mark) : Marking :=
  match marks[s]? with
  | none => .strayed
  | some .onChain =>
    match next? fallback s with
    | none => turn (start + 1) (marks.setIfInBounds s .done)
    | some s' => .settling start s' (marks.setIfInBounds s .done)
  | some _ => turn (start + 1) marks

/-- Looks at one state. A check that is over stays as it is. -/
def step (fallback : Array Cell) : Marking → Marking
  | .walking start s marks => walk fallback start s marks
  | .settling start s marks => settle fallback start s marks
  | m => m

def isOver : Marking → Bool
  | .finished _ | .strayed => true
  | _ => false

/-! ## Every check ends -/

/-- The steps left to all the marks together. -/
def load (marks : Array Mark) : Nat := 2 * marks.count .unseen + marks.count .onChain

/-- A bound on the steps to come: each marks a state or takes a walk to its next part. -/
def weight : Marking → Nat
  | .walking start _ marks => load marks + 2 * (marks.size - start) + 2
  | .settling start _ marks => load marks + 2 * (marks.size - start) + 1
  | _ => 0

theorem count_setIfInBounds {marks : Array Mark} {s : Nat} {old : Mark} (h : marks[s]? = some old)
    (new mark : Mark) :
    (marks.setIfInBounds s new).count mark + (if old = mark then 1 else 0) =
      marks.count mark + if new = mark then 1 else 0 := by
  obtain ⟨hs, rfl⟩ := Array.getElem?_eq_some_iff.1 h
  have hpos : marks[s] = mark → 0 < marks.count mark := fun heq =>
    Array.count_pos_iff.2 (heq ▸ Array.getElem_mem hs)
  rw [Array.setIfInBounds_def, dif_pos hs, Array.count_set]
  simp only [beq_iff_eq]
  split
  · next heq =>
    have := hpos heq
    omega
  · omega

theorem load_setIfInBounds {marks : Array Mark} {s : Nat} {old : Mark} (h : marks[s]? = some old)
    (new : Mark) :
    load (marks.setIfInBounds s new) + old.stepsLeft = load marks + new.stepsLeft := by
  have hunseen := count_setIfInBounds h new .unseen
  have honChain := count_setIfInBounds h new .onChain
  simp only [load]
  cases old <;> cases new <;> simp only [reduceCtorEq, if_true, if_false] at hunseen honChain <;>
    simp only [Mark.stepsLeft] <;> omega

theorem weight_turn_le (start : Nat) (marks : Array Mark) :
    (turn (start + 1) marks).weight ≤ load marks + 2 * (marks.size - start) := by
  unfold turn
  split
  · simp only [weight]
    omega
  · exact Nat.zero_le _

theorem walk_weight_lt (fallback : Array Cell) (start s : Nat) (marks : Array Mark) :
    (walk fallback start s marks).weight < (walking start s marks).weight := by
  unfold walk
  split
  · exact Nat.succ_pos _
  · simp only [weight]
    omega
  · exact Nat.succ_pos _
  · next hs =>
    have hload := load_setIfInBounds hs .onChain
    simp only [Mark.stepsLeft] at hload
    split <;> simp only [weight, Array.size_setIfInBounds] <;> omega

theorem settle_weight_lt (fallback : Array Cell) (start s : Nat) (marks : Array Mark) :
    (settle fallback start s marks).weight < (settling start s marks).weight := by
  unfold settle
  split
  · exact Nat.succ_pos _
  · next hs =>
    have hload := load_setIfInBounds hs .done
    simp only [Mark.stepsLeft] at hload
    have hturn := weight_turn_le start (marks.setIfInBounds s .done)
    rw [Array.size_setIfInBounds] at hturn
    split
    · show (turn (start + 1) _).weight < load marks + 2 * (marks.size - start) + 1
      omega
    · simp only [weight, Array.size_setIfInBounds]
      omega
  · exact Nat.lt_succ_of_le (weight_turn_le start marks)

/-- Whatever the entries are, a step leaves less to do. -/
theorem step_weight_lt (fallback : Array Cell) {m : Marking} (h : m.isOver = false) :
    (step fallback m).weight < m.weight := by
  cases m with
  | walking start s marks => exact walk_weight_lt fallback start s marks
  | settling start s marks => exact settle_weight_lt fallback start s marks
  | finished complaint? => cases h
  | strayed => cases h

/-- A check is over after no more steps than its weight. -/
theorem exists_isOver (fallback : Array Cell) (m : Marking) :
    ∃ k ≤ m.weight, ((step fallback)^[k] m).isOver = true := by
  induction hweight : m.weight using Nat.strongRecOn generalizing m with
  | _ weight ih =>
    cases hover : m.isOver with
    | true => exact ⟨0, Nat.zero_le _, hover⟩
    | false =>
      have hlt := hweight ▸ step_weight_lt fallback hover
      obtain ⟨k, hk, hend⟩ := ih _ hlt (step fallback m) rfl
      exact ⟨k + 1, by omega, hend⟩

theorem weight_begin_le (fallback : Array Cell) :
    (begin fallback).weight ≤ 4 * fallback.size + 2 := by
  have hload : load (Array.replicate fallback.size .unseen) = 2 * fallback.size := by
    simp [load, Array.count_replicate]
  unfold begin turn
  split
  · simp only [weight, hload, Array.size_replicate]
    omega
  · exact Nat.zero_le _

/-! ## What the marks say -/

/-- The walk from `start` is in progress: the chains of the states before it end, as do those of the
states that are done, and the states on the chain are the first `n` behind `s`. -/
structure Marked (fallback : Array Cell) (start n s : Nat) (marks : Array Mark) : Prop where
  size : marks.size = fallback.size
  below : ∀ x < start, Ends fallback x
  done : ∀ x, marks[x]? = some .done → Ends fallback x
  onChain : ∀ x, marks[x]? = some .onChain ↔ ∃ k < n, along? fallback k s = some x

/-- Between two walks no state is on a chain. -/
theorem marked_zero {fallback : Array Cell} {start : Nat} {marks : Array Mark} (s : Nat)
    (hsize : marks.size = fallback.size) (hbelow : ∀ x < start, Ends fallback x)
    (hdone : ∀ x, marks[x]? = some .done → Ends fallback x)
    (hnone : ∀ x : Nat, marks[x]? ≠ some .onChain) : Marked fallback start 0 s marks where
  size := hsize
  below := hbelow
  done := hdone
  onChain x := iff_of_false (hnone x) fun ⟨k, hk, _⟩ => Nat.not_lt_zero k hk

/-- What is known at each point of a check: a walk has passed the states up to where it is, and while
they are done, those from there on are left. -/
def Sound (fallback : Array Cell) : Marking → Prop
  | .walking start s marks => start < fallback.size ∧ s < fallback.size ∧
      ∃ n, along? fallback n start = some s ∧ Marked fallback start n start marks
  | .settling start s marks => s < fallback.size ∧ Ends fallback start ∧ Ends fallback s ∧
      ∃ n, Marked fallback start n s marks
  | .finished none => ∀ s, Ends fallback s
  | .finished (some e) =>
      ∃ s, e = .fallbackCycle s ∧ ¬ Ends fallback s ∧ ∀ s' < s, Ends fallback s'
  | .strayed => False

variable {fallback : Array Cell} {start n s : Nat} {marks : Array Mark}

theorem getElem?_mark (hs : s < marks.size) (mark : Mark) (x : Nat) :
    (marks.setIfInBounds s mark)[x]? = if s = x then some mark else marks[x]? := by
  rw [Array.getElem?_setIfInBounds, if_pos hs]

/-- The state that the walk has come to is put on the chain. -/
theorem Marked.pass (h : Marked fallback start n start marks) (hs : s < fallback.size)
    (halong : along? fallback n start = some s) :
    Marked fallback start (n + 1) start (marks.setIfInBounds s .onChain) := by
  have hget := getElem?_mark (h.size ▸ hs) .onChain
  refine ⟨by rw [Array.size_setIfInBounds, h.size], h.below, fun x hx => ?_, fun x => ?_⟩
  · rw [hget] at hx
    split at hx
    · cases hx
    · exact h.done x hx
  · rw [hget]
    by_cases hxs : s = x
    · subst hxs
      rw [if_pos rfl]
      exact ⟨fun _ => ⟨n, Nat.lt_succ_self n, halong⟩, fun _ => rfl⟩
    · rw [if_neg hxs, h.onChain x]
      constructor
      · intro ⟨k, hk, hx⟩
        exact ⟨k, Nat.lt_succ_of_lt hk, hx⟩
      · intro ⟨k, hk, hx⟩
        rcases Nat.lt_succ_iff_lt_or_eq.1 hk with hlt | rfl
        · exact ⟨k, hlt, hx⟩
        · exact absurd (Option.some.inj (halong.symm.trans hx)) hxs

/-- A walk that comes back to a state it has passed goes on for ever. -/
theorem Marked.not_ends (h : Marked fallback start n start marks)
    (halong : along? fallback n start = some s) (hs : marks[s]? = some .onChain) :
    ¬ Ends fallback start := by
  obtain ⟨k, hk, hks⟩ := (h.onChain s).1 hs
  obtain ⟨i, rfl⟩ : ∃ i, n = k + (i + 1) := ⟨n - k - 1, by omega⟩
  rw [along?_add, hks] at halong
  exact fun hends => not_ends_of_loop halong ((ends_iff_of_along hks).1 hends)

theorem Marked.below_succ (h : Marked fallback start n s marks) (hstart : Ends fallback start) :
    ∀ x < start + 1, Ends fallback x := by
  intro x hx
  rcases Nat.lt_succ_iff_lt_or_eq.1 hx with hlt | rfl
  · exact h.below x hlt
  · exact hstart

section
variable (h : Marked fallback start n s marks) (hs : marks[s]? = some .onChain)
include h hs

/-- With the first state on the chain done, those behind it are left: as the chain ends, it does not
come by that state again. -/
theorem Marked.onChain_settle (hends : Ends fallback s) (x : Nat) :
    (marks.setIfInBounds s .done)[x]? = some .onChain ↔
      ∃ k, k + 1 < n ∧ along? fallback (k + 1) s = some x := by
  obtain ⟨hlt, -⟩ := Array.getElem?_eq_some_iff.1 hs
  rw [getElem?_mark hlt]
  by_cases hxs : s = x
  · subst hxs
    rw [if_pos rfl]
    exact ⟨nofun, fun ⟨k, _, hk⟩ => absurd hends (not_ends_of_loop hk)⟩
  · rw [if_neg hxs, h.onChain x]
    constructor
    · intro ⟨k, hk, hx⟩
      cases k with
      | zero => exact absurd (Option.some.inj hx) hxs
      | succ k => exact ⟨k, hk, hx⟩
    · intro ⟨k, hk, hx⟩
      exact ⟨k + 1, hk, hx⟩

theorem Marked.done_settle (hends : Ends fallback s) (x : Nat)
    (hx : (marks.setIfInBounds s .done)[x]? = some .done) : Ends fallback x := by
  obtain ⟨hlt, -⟩ := Array.getElem?_eq_some_iff.1 hs
  rw [getElem?_mark hlt] at hx
  split at hx
  · next hxs => exact hxs ▸ hends
  · exact h.done x hx

theorem Marked.settle (hends : Ends fallback s) {s' : Nat} (hnext : next? fallback s = some s') :
    Marked fallback start (n - 1) s' (marks.setIfInBounds s .done) := by
  refine ⟨by rw [Array.size_setIfInBounds, h.size], h.below, h.done_settle hs hends, fun x => ?_⟩
  have hmore (k : Nat) : along? fallback (k + 1) s = along? fallback k s' := by
    rw [along?, hnext]
    rfl
  rw [h.onChain_settle hs hends]
  simp only [hmore]
  exact exists_congr fun k => and_congr_left fun _ => by omega

/-- Behind the last state of the chain nothing is left on it, and the next walk can begin. -/
theorem Marked.settle_last (hstart : Ends fallback start) (hnext : next? fallback s = none) :
    Marked fallback (start + 1) 0 (start + 1) (marks.setIfInBounds s .done) := by
  have hends := ends_of_next_eq_none hnext
  refine marked_zero _ (by rw [Array.size_setIfInBounds, h.size]) (h.below_succ hstart)
    (h.done_settle hs hends) fun x hx => ?_
  obtain ⟨k, -, hk⟩ := (h.onChain_settle hs hends x).1 hx
  rw [along?, hnext] at hk
  cases hk

end

/-- If the first state is not on the chain any more, none is, and the next walk can begin. -/
theorem Marked.cleared (h : Marked fallback start n s marks) (hstart : Ends fallback start)
    (hs : marks[s]? ≠ some .onChain) : Marked fallback (start + 1) 0 (start + 1) marks := by
  refine marked_zero _ h.size (h.below_succ hstart) h.done fun x hx => ?_
  obtain ⟨k, hk, -⟩ := (h.onChain x).1 hx
  exact hs ((h.onChain s).2 ⟨0, Nat.zero_lt_of_lt hk, rfl⟩)

/-! ## Every step keeps to that -/

theorem Marked.turn (h : Marked fallback start 0 start marks) :
    Sound fallback (turn start marks) := by
  unfold Marking.turn
  by_cases hstart : start < marks.size
  · rw [if_pos hstart]
    exact ⟨h.size ▸ hstart, h.size ▸ hstart, 0, rfl, h⟩
  · rw [if_neg hstart]
    intro x
    by_cases hx : x < fallback.size
    · exact h.below x (by rw [h.size] at hstart; omega)
    · exact ends_of_next_eq_none (next?_eq_none (Nat.le_of_not_lt hx))

theorem sound_begin (fallback : Array Cell) : Sound fallback (begin fallback) := by
  have hget (x : Nat) (mark : Mark) (hmark : mark ≠ .unseen) :
      (Array.replicate fallback.size Mark.unseen)[x]? ≠ some mark := by
    rw [Array.getElem?_replicate]
    split
    · exact fun heq => hmark (Option.some.inj heq).symm
    · nofun
  exact Marked.turn (marked_zero 0 Array.size_replicate nofun
    (fun x hx => absurd hx (hget x .done nofun)) fun x => hget x .onChain nofun)

theorem sound_walk (hrange : InRange fallback) (h : Sound fallback (walking start s marks)) :
    Sound fallback (walk fallback start s marks) := by
  obtain ⟨hstart, hs, n, halong, hmarked⟩ := h
  unfold walk
  split
  · next hnone =>
    rw [Array.getElem?_eq_none_iff, hmarked.size] at hnone
    omega
  · next hdone =>
    have hends := (ends_iff_of_along halong).2 (hmarked.done s hdone)
    exact ⟨hstart, hends, hends, n, hmarked⟩
  · next honChain => exact ⟨start, rfl, hmarked.not_ends halong honChain, hmarked.below⟩
  · have hpass := hmarked.pass hs halong
    split
    · next hnext =>
      have hends := (ends_iff_of_along halong).2 (ends_of_next_eq_none hnext)
      exact ⟨hstart, hends, hends, n + 1, hpass⟩
    · next s' hnext =>
      refine ⟨hstart, hrange s s' hnext, n + 1, ?_, hpass⟩
      rw [along?_add, halong]
      exact (along?_one s).trans hnext

theorem sound_settle (hrange : InRange fallback) (h : Sound fallback (settling start s marks)) :
    Sound fallback (settle fallback start s marks) := by
  obtain ⟨hs, hstart, hends, n, hmarked⟩ := h
  unfold settle
  split
  · next hnone =>
    rw [Array.getElem?_eq_none_iff, hmarked.size] at hnone
    omega
  · next honChain =>
    split
    · next hnext => exact (hmarked.settle_last honChain hstart hnext).turn
    · next s' hnext =>
      exact ⟨hrange s s' hnext, hstart, (ends_iff_of_next hnext).1 hends, n - 1,
        hmarked.settle honChain hends hnext⟩
  · next mark hne hmark =>
    exact (hmarked.cleared hstart (hmark ▸ fun heq => hne (Option.some.inj heq))).turn

theorem Sound.step (hrange : InRange fallback) {m : Marking} (h : Sound fallback m) :
    Sound fallback (step fallback m) := by
  cases m with
  | walking start s marks => exact sound_walk hrange h
  | settling start s marks => exact sound_settle hrange h
  | finished complaint? => exact h
  | strayed => exact h

theorem Sound.run (hrange : InRange fallback) (k : Nat) {m : Marking} (h : Sound fallback m) :
    Sound fallback ((Marking.step fallback)^[k] m) := by
  induction k generalizing m with
  | zero => exact h
  | succ k ih => exact ih (h.step hrange)

/-- On entries that name states, a check comes to what is found by the walks that are told how many
states there are. -/
theorem exists_finished (hrange : InRange fallback) :
    ∃ k ≤ 4 * fallback.size + 2, (Marking.step fallback)^[k] (begin fallback) =
      .finished ((firstEndless? fallback).map .fallbackCycle) := by
  obtain ⟨k, hk, hover⟩ := exists_isOver fallback (begin fallback)
  have hsound := (sound_begin fallback).run hrange k
  refine ⟨k, Nat.le_trans hk (weight_begin_le fallback), ?_⟩
  generalize (Marking.step fallback)^[k] (begin fallback) = m at hover hsound ⊢
  match m with
  | .finished none => rw [(firstEndless?_eq_none_iff hrange).2 hsound, Option.map_none]
  | .finished (some e) =>
    obtain ⟨s, rfl, hfirst⟩ := hsound
    rw [(firstEndless?_eq_some_iff hrange).2 hfirst, Option.map_some]
  | .strayed => exact hsound.elim

end Marking

/-- **The check with marks comes to an end, and it decides which chains do.** It takes no more steps
than four for each state and two. It finds nothing wrong exactly if all chains end, which is if no
state comes behind itself, and otherwise names the least state whose chain does not end. That state
is a number that an entry can hold. -/
theorem marking_decides_chains (hrange : InRange fallback) :
    (∃ k ≤ 4 * fallback.size + 2, (Marking.step fallback)^[k] (Marking.begin fallback) =
        .finished ((firstEndless? fallback).map .fallbackCycle)) ∧
      (firstEndless? fallback = none ↔ ∀ s < fallback.size, Ends fallback s) ∧
      (firstEndless? fallback = none ↔ ∀ s k, along? fallback (k + 1) s ≠ some s) ∧
      ∀ s, (firstEndless? fallback = some s ↔
          IsLeast {s | s < fallback.size ∧ ¬ Ends fallback s} s) ∧
        (firstEndless? fallback = some s → s < Cell.absentWord) := by
  have hbeyond {s : Nat} (hs : ¬ s < fallback.size) : Ends fallback s :=
    ends_of_next_eq_none (next?_eq_none (Nat.le_of_not_lt hs))
  have hnone := firstEndless?_eq_none_iff hrange
  refine ⟨Marking.exists_finished hrange, hnone.trans ⟨fun hall s _ => hall s, fun hall s => ?_⟩,
    hnone.trans (forall_ends_iff hrange), fun s => ⟨?_, firstEndless?_lt hrange⟩⟩
  · exact (em (s < fallback.size)).elim (hall s) hbeyond
  · rw [firstEndless?_eq_some_iff hrange]
    constructor
    · intro ⟨hendless, hfirst⟩
      refine ⟨⟨not_not.1 fun hs => hendless (hbeyond hs), hendless⟩, fun x ⟨_, hx⟩ => ?_⟩
      exact Nat.le_of_not_lt fun hlt => hx (hfirst x hlt)
    · intro ⟨⟨_, hendless⟩, hleast⟩
      refine ⟨hendless, fun x hlt => not_not.1 fun hx => ?_⟩
      have hx' : x < fallback.size := not_not.1 fun hs => hx (hbeyond hs)
      exact Nat.not_le_of_lt hlt (hleast ⟨hx', hx⟩)

/-- Two states that fall back on each other, and one in front that leads to them. -/
def ledIntoLoop : Array Cell := #[.ofNat 1, .ofNat 2, .ofNat 1, none]

/-- The state that is named is the one in front, although no state falls back on it. -/
theorem marking_decides_chains_ledIntoLoop :
    InRange ledIntoLoop ∧ (∀ s, next? ledIntoLoop s ≠ some 0) ∧
      (∃ k ≤ 18, (Marking.step ledIntoLoop)^[k] (Marking.begin ledIntoLoop) =
        .finished (some (.fallbackCycle 0))) ∧
      IsLeast {s | s < 4 ∧ ¬ Ends ledIntoLoop s} 0 := by
  have hnext (s s' : Nat) (h : next? ledIntoLoop s = some s') : s' = 1 ∨ s' = 2 := by
    match s with
    | 0 => exact .inl (Option.some.inj h).symm
    | 1 => exact .inr (Option.some.inj h).symm
    | 2 => exact .inl (Option.some.inj h).symm
    | 3 => cases h
    | s + 4 =>
      rw [next?_eq_none (Nat.le_add_left 4 s)] at h
      cases h
  have hrange : InRange ledIntoLoop := fun s s' h => by
    show s' < 4
    have := hnext s s' h
    omega
  have hfound : firstEndless? ledIntoLoop = some 0 := by decide
  obtain ⟨hrun, -, -, hleast⟩ := marking_decides_chains hrange
  rw [hfound] at hrun
  exact ⟨hrange, fun s h => by simpa using hnext s 0 h, hrun, (hleast 0).1.1 hfound⟩

end CombLexer.Chain
