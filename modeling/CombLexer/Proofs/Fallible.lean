/-
Work that may fail: what it means that a chain of steps, or the same step on
each member of a list, comes to a result, and what it fails with if it does not.
-/
namespace CombLexer.Fallible

@[simp] theorem ok_bind {ε α β : Type} (a : α) (f : α → Except ε β) :
    (Except.ok a >>= f) = f a := rfl

theorem bind_eq_ok {ε α β : Type} {x : Except ε α} {f : α → Except ε β} {y : β} :
    x >>= f = .ok y ↔ ∃ a, x = .ok a ∧ f a = .ok y := by
  cases x with
  | error e => exact ⟨nofun, fun ⟨_, h, _⟩ => nomatch h⟩
  | ok a => exact ⟨fun h => ⟨a, rfl, h⟩, fun ⟨_, h, hy⟩ => by cases h; exact hy⟩

theorem bind_eq_error {ε α β : Type} {x : Except ε α} {f : α → Except ε β} {e : ε} :
    x >>= f = .error e ↔ x = .error e ∨ ∃ a, x = .ok a ∧ f a = .error e := by
  cases x with
  | error e' => exact ⟨fun h => .inl (by cases h; rfl), fun h => h.elim (fun h => by cases h; rfl)
      fun ⟨_, h, _⟩ => nomatch h⟩
  | ok a => exact ⟨fun h => .inr ⟨a, rfl, h⟩, fun h => h.elim nofun
      fun ⟨_, h, he⟩ => by cases h; exact he⟩

/-- Work done on each place of a list leaves its results at the same places. -/
theorem mapM_eq_ok {ε α β : Type} {f : α → Except ε β} {xs : List α} {ys : List β}
    (h : xs.mapM f = .ok ys) :
    ys.length = xs.length ∧
      ∀ (i : Nat) (x : α), xs[i]? = some x → ∃ y, ys[i]? = some y ∧ f x = .ok y := by
  induction xs generalizing ys with
  | nil =>
    cases h
    exact ⟨rfl, fun i x hi => by simp at hi⟩
  | cons x₀ xs ih =>
    rw [List.mapM_cons, bind_eq_ok] at h
    obtain ⟨y₀, hy₀, h⟩ := h
    rw [bind_eq_ok] at h
    obtain ⟨ys', hrest, h⟩ := h
    cases h
    obtain ⟨hlen, hall⟩ := ih hrest
    refine ⟨congrArg (· + 1) hlen, fun i x hi => ?_⟩
    cases i with
    | zero =>
      cases hi
      exact ⟨y₀, rfl, hy₀⟩
    | succ i => exact hall i x hi

theorem mapM_congr {ε α β : Type} {f g : α → Except ε β} {xs : List α} (h : ∀ x ∈ xs, f x = g x) :
    xs.mapM f = xs.mapM g := by
  induction xs with
  | nil => rfl
  | cons x xs ih =>
    rw [List.mapM_cons, List.mapM_cons, h x List.mem_cons_self,
      ih fun x hx => h x (List.mem_cons_of_mem _ hx)]

/-! ## Failing -/

/-- What work fails with, if it does. -/
def failure? {ε α : Type} : Except ε α → Option ε
  | .ok _ => none
  | .error e => some e

theorem failure?_eq_some_iff {ε α : Type} {x : Except ε α} {e : ε} :
    failure? x = some e ↔ x = .error e := by
  cases x <;> simp [failure?]

theorem failure?_eq_none_iff {ε α : Type} {x : Except ε α} :
    failure? x = none ↔ ∃ y, x = .ok y := by
  cases x <;> simp [failure?]

/-- A chain of steps fails with what the first one fails with, or else with what the others do. -/
theorem failure?_bind {ε α β : Type} {x : Except ε α} {f : α → Except ε β} {first second : Option ε}
    (hx : failure? x = first) (hf : ∀ a, x = .ok a → failure? (f a) = second) :
    failure? (x >>= f) = first.or second := by
  cases x with
  | error e => exact hx ▸ rfl
  | ok a => exact hx ▸ hf a rfl

/-- A last step that cannot fail adds no failure. -/
theorem failure?_bind_pure {ε α β : Type} (x : Except ε α) (f : α → β) :
    failure? (x >>= fun a => pure (f a)) = failure? x := by
  cases x <;> rfl

/-- The same step on each member of a list fails with its first failure. -/
theorem failure?_mapM {ε α β : Type} (f : α → Except ε β) (xs : List α) :
    failure? (xs.mapM f) = xs.findSome? fun x => failure? (f x) := by
  induction xs with
  | nil => rfl
  | cons x xs ih =>
    rw [List.mapM_cons, List.findSome?_cons]
    cases hx : f x with
    | error e => rfl
    | ok y =>
      exact (failure?_bind_pure (xs.mapM f) (y :: ·)).trans ih

theorem failure?_forM {ε α : Type} (f : α → Except ε Unit) (xs : List α) :
    failure? (xs.forM f) = xs.findSome? fun x => failure? (f x) := by
  induction xs with
  | nil => rfl
  | cons x xs ih =>
    rw [List.forM_eq_forM, List.forM_cons, List.findSome?_cons]
    cases hx : f x with
    | error e => rfl
    | ok u => exact ih

end CombLexer.Fallible
