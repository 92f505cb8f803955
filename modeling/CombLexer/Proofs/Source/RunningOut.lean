/-
Supplies that run out.

`RunsOut n s w fault?` says that a supply gives `n` answers up to the first that
says that the input is over or that fails, and that these append the bytes of
`w`, those of the last one included. The reports need not count what was
appended: all that matters about one is whether it says 0. A supply that
delivers a text runs out with it (`Delivers.runsOut`), one that breaks off with
an error runs out there (`Feed.runsOut`), and every source runs out sooner or
later (`Source.runsOut`).
-/
import CombLexer.Proofs.Source.Delivery

namespace CombLexer

/-- A supply gives so many answers, which append so many bytes, until the input is over or it
fails. -/
inductive RunsOut {σ : Type} [Supply σ] : Nat → σ → Bytes → Option SourceError → Prop
  | ended {s : σ} (h : (Supply.refill s).1.report = .ok 0) :
      RunsOut 1 s (Supply.refill s).1.appended none
  | failed {s : σ} {e : SourceError} (h : (Supply.refill s).1.report = .error e) :
      RunsOut 1 s (Supply.refill s).1.appended (some e)
  | more {s : σ} {k n : Nat} {rest : Bytes} {fault? : Option SourceError}
      (h : (Supply.refill s).1.report = .ok (k + 1))
      (hrest : RunsOut n (Supply.refill s).2 rest fault?) :
      RunsOut (n + 1) s ((Supply.refill s).1.appended ++ rest) fault?

/-- A supply that delivers a text runs out behind it, without a failure. -/
theorem Delivers.runsOut {σ : Type} [Supply σ] {s : σ} {w : Bytes} (h : Delivers s w) :
    ∃ n, RunsOut n s w none := by
  induction h with
  | @ended s h =>
    have hover := RunsOut.ended (s := s) (by rw [h]; rfl)
    rw [h] at hover
    exact ⟨1, hover⟩
  | @piece s bytes rest h hne hrest ih =>
    obtain ⟨n, hn⟩ := ih
    obtain ⟨c, bytes, rfl⟩ := List.exists_cons_of_ne_nil hne
    have hmore := RunsOut.more (s := s) (k := bytes.length) (by rw [h]; rfl) hn
    rw [h] at hmore
    exact ⟨n + 1, hmore⟩

/-- A source has capacity for all that it appends before it runs out. -/
theorem RunsOut.length_le_capacity {σ : Type} [Source σ] {n : Nat} {s : σ} {w : Bytes}
    {fault? : Option SourceError} (h : RunsOut n s w fault?) : w.length ≤ Source.capacity s := by
  have hlaw (s : σ) : (Supply.refill s).1.appended.length + Source.capacity (Supply.refill s).2 ≤
      Source.capacity s :=
    Nat.le_trans (Nat.add_le_add_right (Nat.le_add_right _ _) _) (Source.weight_add_capacity_le s)
  induction h with
  | @ended s h => exact Nat.le_trans (Nat.le_add_right _ _) (hlaw s)
  | @failed s e h => exact Nat.le_trans (Nat.le_add_right _ _) (hlaw s)
  | @more s k n rest fault? h hrest ih =>
    have := hlaw s
    rw [List.length_append]
    omega

/-- Every source runs out, since it has only so much capacity for answers that promise more. -/
theorem Source.runsOut {σ : Type} [Source σ] (s : σ) :
    ∃ n w fault?, RunsOut n s w fault? := by
  induction hcapacity : Source.capacity s using Nat.strongRecOn generalizing s with
  | _ capacity ih =>
    cases hreport : (Supply.refill s).1.report with
    | error e => exact ⟨1, _, _, .failed hreport⟩
    | ok k =>
      cases k with
      | zero => exact ⟨1, _, _, .ended hreport⟩
      | succ k =>
        have hlaw := Source.weight_add_capacity_le s
        have hweight : 0 < (Supply.refill s).1.weight := by
          simp [Delivery.weight, Delivery.isProgress, hreport]
        obtain ⟨n, w, fault?, hrest⟩ := ih _ (by omega) (Supply.refill s).2 rfl
        exact ⟨n + 1, _, _, .more hreport hrest⟩

/-- Single deliveries that count right, of which the one behind the last fails and may append bytes
too. -/
theorem Feed.runsOut (pieces : List Bytes) (hne : ∀ bytes ∈ pieces, bytes ≠ []) (last : Bytes)
    (e : SourceError) :
    RunsOut (pieces.length + 1) (Feed.mk (pieces.map .counted ++ [⟨last, .error e⟩]) false)
      (pieces.flatten ++ last) (some e) := by
  induction pieces with
  | nil => exact .failed rfl
  | cons bytes rest ih =>
    obtain ⟨c, bytes, rfl⟩ := List.exists_cons_of_ne_nil (hne _ List.mem_cons_self)
    have hrest := ih fun piece hpiece => hne piece (List.mem_cons_of_mem _ hpiece)
    rw [List.flatten_cons, List.append_assoc]
    exact .more (k := bytes.length) rfl hrest

end CombLexer
