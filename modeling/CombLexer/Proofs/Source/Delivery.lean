/-
Sources that deliver a text.

`Delivers s w` says that a supply hands over the bytes of `w` in some pieces,
reports each piece at its true length, and says that the input is over where
`w` ends and no earlier. Where the pieces are cut is left open. The kinds of
source all do so: pieces given from the start (`Chunks.delivers`), single
deliveries (`Feed.delivers`), and reads of any sizes, interrupted or not
(`Reader.delivers`).
-/
import CombLexer.Source.Chunks
import CombLexer.Source.Feed
import CombLexer.Source.Reader

namespace CombLexer

/-- A supply hands over a text in pieces and then says that the input is over. -/
inductive Delivers {σ : Type} [Supply σ] : σ → Bytes → Prop
  | ended {s : σ} (h : (Supply.refill s).1 = .nothing) : Delivers s []
  | piece {s : σ} {bytes rest : Bytes} (h : (Supply.refill s).1 = .counted bytes)
      (hne : bytes ≠ []) (hrest : Delivers (Supply.refill s).2 rest) : Delivers s (bytes ++ rest)

/-- What a delivery takes off a text. -/
theorem Delivers.refill {σ : Type} [Supply σ] {s : σ} {w : Bytes} (h : Delivers s w) :
    ∃ bytes rest, (Supply.refill s).1 = .counted bytes ∧ w = bytes ++ rest ∧
      if bytes = [] then rest = [] else Delivers (Supply.refill s).2 rest := by
  cases h with
  | ended h => exact ⟨[], [], h, rfl, rfl⟩
  | piece h hne hrest => exact ⟨_, _, h, rfl, by rwa [if_neg hne]⟩

/-- What is left of a text behind a piece. -/
theorem Delivers.rest {σ : Type} [Supply σ] {s : σ} {w : Bytes} (h : Delivers s w)
    (hne : (Supply.refill s).1.appended ≠ []) :
    Delivers (Supply.refill s).2 (w.drop (Supply.refill s).1.appended.length) := by
  cases h with
  | ended h => rw [h] at hne; exact absurd rfl hne
  | @piece _ bytes rest h _ hrest =>
    have hdrop : (bytes ++ rest).drop (Supply.refill s).1.appended.length = rest := by
      rw [h]
      exact List.drop_left
    rwa [hdrop]

/-- What is delivered hangs on what a refill answers and leaves, and on nothing else. -/
theorem Delivers.of_refill_eq {σ : Type} [Supply σ] {s s' : σ} {w : Bytes}
    (heq : Supply.refill s = Supply.refill s') (h : Delivers s w) : Delivers s' w := by
  cases h with
  | ended h => exact .ended (heq ▸ h)
  | piece h hne hrest => exact .piece (heq ▸ h) hne (heq ▸ hrest)

/-- A supply delivers one text only. -/
theorem Delivers.unique {σ : Type} [Supply σ] {s : σ} {w w' : Bytes} (h : Delivers s w)
    (h' : Delivers s w') : w' = w := by
  induction h generalizing w' with
  | ended h =>
    cases h' with
    | ended => rfl
    | piece hpiece hne =>
      rw [h] at hpiece
      exact absurd (congrArg Delivery.appended hpiece).symm hne
  | @piece s bytes rest h hne _ ih =>
    cases h' with
    | ended hover =>
      rw [h] at hover
      exact absurd (congrArg Delivery.appended hover) hne
    | @piece _ bytes' rest' hpiece _ hrest' =>
      rw [h] at hpiece
      obtain rfl : bytes = bytes' := congrArg Delivery.appended hpiece
      rw [ih hrest']

/-- A supply together with the text that it delivers, which bounds what is still to come. -/
inductive Ending (σ : Type) [Supply σ] where
  | ended
  | more (s : σ) (w : Bytes) (h : Delivers s w)

namespace Ending

variable {σ : Type} [Supply σ]

/-- Asks the supply, up to the end of the text. -/
def deliver : Ending σ → Delivery × Ending σ
  | .ended => (.nothing, .ended)
  | .more s w h =>
    ((Supply.refill s).1,
      if hne : (Supply.refill s).1.appended = [] then .ended
      else .more (Supply.refill s).2 (w.drop (Supply.refill s).1.appended.length) (h.rest hne))

/-- Each byte may come on its own. -/
def capacity : Ending σ → Nat
  | .ended => 0
  | .more _ w _ => 2 * w.length

theorem weight_deliver_le (e : Ending σ) : e.deliver.1.weight + e.deliver.2.capacity ≤ e.capacity := by
  cases e with
  | ended => exact Nat.le_refl 0
  | more s w h =>
    obtain ⟨bytes, rest, hdel, rfl, -⟩ := h.refill
    have hweight := Delivery.weight_counted_le bytes
    by_cases hne : (Supply.refill s).1.appended = []
    · have hdeliver : (more s (bytes ++ rest) h).deliver = ((Supply.refill s).1, .ended) :=
        congrArg (Prod.mk _) (dif_pos hne)
      rw [hdel] at hne
      obtain rfl : bytes = [] := hne
      rw [hdeliver, hdel]
      exact Nat.zero_le _
    · have hdeliver : (more s (bytes ++ rest) h).deliver =
          ((Supply.refill s).1, .more _ _ (h.rest hne)) := congrArg (Prod.mk _) (dif_neg hne)
      rw [hdeliver]
      show (Supply.refill s).1.weight +
        2 * ((bytes ++ rest).drop (Supply.refill s).1.appended.length).length ≤
          2 * (bytes ++ rest).length
      rw [hdel] at hne ⊢
      have hpos : 0 < bytes.length := List.length_pos_iff.2 hne
      have hdrop : (bytes ++ rest).drop (Delivery.counted bytes).appended.length = rest :=
        List.drop_left
      rw [hdrop, List.length_append]
      omega

instance : Source (Ending σ) where
  refill := deliver
  capacity := capacity
  weight_add_capacity_le := weight_deliver_le

theorem delivers {s : σ} {w : Bytes} (h h' : Delivers s w) : Delivers (Ending.more s w h') w := by
  induction h with
  | ended h => exact .ended h
  | @piece s bytes rest h hne hrest ih =>
    have hne' : (Supply.refill s).1.appended ≠ [] := by rwa [h]
    have hdrop : (bytes ++ rest).drop (Supply.refill s).1.appended.length = rest := by
      rw [h]
      exact List.drop_left
    have hmore : ∀ w' (hw : w' = rest) (hs : Delivers (Supply.refill s).2 w'),
        Delivers (Ending.more (Supply.refill s).2 w' hs) rest := by
      rintro _ rfl hs
      exact ih hs
    refine .piece h hne ?_
    show Delivers (dite _ _ _) rest
    rw [dif_neg hne']
    exact hmore _ hdrop _

end Ending

theorem Chunks.delivers (pieces : List Bytes) : Delivers (Chunks.mk pieces) pieces.flatten := by
  induction pieces with
  | nil => exact .ended rfl
  | cons bytes rest ih =>
    cases bytes with
    | nil =>
      -- The refill that passes over an empty piece is the one that finds the next.
      have heq : Supply.refill (Chunks.mk rest) = Supply.refill (Chunks.mk ([] :: rest)) := rfl
      exact ih.of_refill_eq heq
    | cons c bytes => exact .piece rfl (List.cons_ne_nil _ _) ih

theorem Chunks.delivers_one (w : Bytes) : Delivers (Chunks.mk [w]) w := by
  have h := Chunks.delivers [w]
  rwa [List.flatten_singleton] at h

theorem Feed.delivers (pieces : List Bytes) (hne : ∀ bytes ∈ pieces, bytes ≠ []) :
    Delivers (Feed.mk (pieces.map .counted) false) pieces.flatten := by
  induction pieces with
  | nil => exact .ended rfl
  | cons bytes rest ih =>
    have hbytes : bytes ≠ [] := hne bytes List.mem_cons_self
    have hgoes : (bytes.length == 0) = false := by simpa using hbytes
    have hrest := ih fun piece hpiece => hne piece (List.mem_cons_of_mem _ hpiece)
    refine .piece rfl hbytes ?_
    show Delivers (Feed.mk (rest.map .counted) (bytes.length == 0)) rest.flatten
    rwa [hgoes]

namespace Reader

/-- The data that reads give up to the first that gives none. -/
def text : List Read → Bytes
  | [] => []
  | .data [] :: _ => []
  | .data (c :: bytes) :: rest => c :: bytes ++ text rest
  | .interrupted :: rest => text rest
  | .failure _ :: _ => []

/-- A read without failures takes the data it gives off the front of the text. -/
theorem read_text {size : Nat} (hsize : 1 ≤ size) {script : List Read}
    (hok : ∀ e, Read.failure e ∉ script) :
    ∃ bytes rest, read size script = (.ok bytes, rest) ∧
      if bytes = [] then text script = []
      else text script = bytes ++ text rest ∧ ∀ e, Read.failure e ∉ rest := by
  fun_induction read size script with
  | case1 => exact ⟨[], [], rfl, rfl⟩
  | case2 rest ih =>
    obtain ⟨bytes, rest', hread, htext⟩ := ih fun e he => hok e (List.mem_cons_of_mem _ he)
    exact ⟨bytes, rest', hread, htext⟩
  | case3 e rest => exact absurd List.mem_cons_self (hok e)
  | case4 bytes rest =>
    have hrest : ∀ e, Read.failure e ∉ rest := fun e he => hok e (List.mem_cons_of_mem _ he)
    refine ⟨_, _, rfl, ?_⟩
    cases bytes with
    | nil => simp [text]
    | cons c bytes =>
      obtain ⟨k, rfl⟩ : ∃ k, size = k + 1 := ⟨size - 1, by omega⟩
      rw [if_neg (by simp)]
      cases hmore : (c :: bytes).drop (k + 1) with
      | nil =>
        have htake := List.take_of_length_le (List.drop_eq_nil_iff.1 hmore)
        exact ⟨by rw [htake]; rfl, hrest⟩
      | cons d more =>
        have hsplit := List.take_append_drop (k + 1) (c :: bytes)
        rw [hmore] at hsplit
        refine ⟨?_, fun e he => ?_⟩
        · show c :: bytes ++ text rest = (c :: bytes).take (k + 1) ++ (d :: more ++ text rest)
          rw [← List.append_assoc, hsplit]
        · rcases List.mem_cons.1 he with he | he
          · cases he
          · exact hrest e he

/-- A reader that never fails delivers its text, whatever the size of its chunks. -/
theorem delivers (script : List Read) (hok : ∀ e, Read.failure e ∉ script) (chunkSize : Nat) :
    Delivers (ofScript script chunkSize) (text script) := by
  -- Each read that gives something makes the script lighter, if not shorter.
  induction hload : load script using Nat.strongRecOn generalizing script with
  | _ n ih =>
    have hsize : 1 ≤ max chunkSize 1 := Nat.le_max_right _ _
    obtain ⟨bytes, rest, hread, htext⟩ := read_text hsize hok
    have hdeliver : Supply.refill (ofScript script chunkSize) =
        (.counted bytes, { ofScript rest chunkSize with done := bytes.isEmpty }) := by
      show deliver (ofScript script chunkSize) = _
      simp only [deliver, ofScript, Bool.false_eq_true, if_false, hread]
    cases bytes with
    | nil =>
      rw [show text script = [] from htext]
      exact .ended (congrArg Prod.fst hdeliver)
    | cons c bytes =>
      obtain ⟨htext, hrest⟩ := htext
      have hlight := load_read_le (max chunkSize 1) script
      rw [hread] at hlight
      have hlt : load rest < n := by simp only at hlight; omega
      rw [htext]
      refine .piece (congrArg Prod.fst hdeliver) (List.cons_ne_nil _ _) ?_
      rw [hdeliver]
      exact ih _ hlt rest hrest rfl

end Reader

end CombLexer
