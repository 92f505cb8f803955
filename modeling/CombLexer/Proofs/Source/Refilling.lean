/-
Refilling a destination from a reader.

How much a read gives is known only afterwards. So a refill makes the destination
longer by a chunk of zeros, has the reader write over them, and cuts off what was
not written (`refillInto`); reads that are interrupted are made again over the
same zeros. That there is memory for the chunk, whatever its size, is assumed as
it is for `Reader`. `refillInto_eq_refill` says that this appends what
`Reader.deliver` appends, and nothing else is left behind.

Each refill keeps the list of its reads, and `Refills` says all that it can come
to. From this is read off what a run of refills does, each with a destination of
its own (`refills_faithful`): what was there stays, the reads are those that the
reader makes one after the other, and interruptions leave no trace.
-/
import CombLexer.Source.Reader
import Mathlib.Data.List.Forall2

namespace CombLexer

/-- What comes of asking a supply once for each destination: what it reports, and the destination
with what was appended. -/
def Supply.deliveries {σ : Type} [Supply σ] : σ → List Bytes → List (Except SourceError Nat × Bytes)
  | _, [] => []
  | s, dst :: rest =>
    ((refill s).1.report, dst ++ (refill s).1.appended) :: deliveries (refill s).2 rest

def Read.isInterrupted : Read → Bool
  | .interrupted => true
  | _ => false

namespace Reader

/-- What a read comes to. -/
inductive Answer where
  /-- It gives bytes; none are the end. -/
  | gave (bytes : Bytes)
  | interrupted
  | failed (error : SourceError)

/-- A single read of up to `size` bytes. -/
def serve (size : Nat) : List Read → Answer × List Read
  | [] => (.gave [], [])
  | .interrupted :: rest => (.interrupted, rest)
  | .failure error :: rest => (.failed error, rest)
  | .data bytes :: rest =>
    (.gave (bytes.take size), match bytes.drop size with
      | [] => rest
      | more => .data more :: rest)

/-- What so many reads in a row come to. -/
def answers (size : Nat) : Nat → List Read → List Answer × List Read
  | 0, script => ([], script)
  | n + 1, script =>
    let (answer, rest) := serve size script
    let (more, left) := answers size n rest
    (answer :: more, left)

/-- What came of a refill. -/
structure Refilled where
  report : Except SourceError Nat
  destination : Bytes
  /-- The reads that were made, in their order. -/
  reads : List Answer

/-- Whether a refill has said that the input is over. -/
def Refilled.isOver (out : Refilled) : Bool :=
  match out.report with
  | .ok n => n == 0
  | .error _ => false

/-- What the caller of a refill sees of it. -/
def Refilled.outcome (out : Refilled) : Except SourceError Nat × Bytes := (out.report, out.destination)

/-- Bytes written over others from an index on. -/
def overwrite (dst : Bytes) (i : Nat) (bytes : Bytes) : Bytes :=
  dst.take i ++ bytes ++ dst.drop (i + bytes.length)

theorem length_lt_of_interrupted {size : Nat} {script rest : List Read}
    (h : serve size script = (.interrupted, rest)) : rest.length < script.length := by
  match script with
  | .interrupted :: _ =>
    cases h
    exact Nat.lt_succ_self _

/-- Reads over all but the first `kept` bytes of the destination until a read is not interrupted,
and cuts off what that one has not written. -/
def fill (kept : Nat) (dst : Bytes) (script : List Read) : Refilled × List Read :=
  match _hserve : serve (dst.length - kept) script with
  | (.gave bytes, rest) =>
    (⟨.ok bytes.length, (overwrite dst kept bytes).take (kept + bytes.length), [.gave bytes]⟩, rest)
  | (.failed error, rest) => (⟨.error error, dst.take kept, [.failed error]⟩, rest)
  | (.interrupted, rest) =>
    let (out, left) := fill kept dst rest
    ({ out with reads := .interrupted :: out.reads }, left)
termination_by script.length
decreasing_by exact length_lt_of_interrupted _hserve

/-- Appends to a destination what one read gives, over a chunk of zeros put there for it. -/
def refillInto (r : Reader) (dst : Bytes) : Refilled × Reader :=
  if r.done then (⟨.ok 0, dst, []⟩, r)
  else
    let (out, script) := fill dst.length (dst ++ List.replicate r.chunkSize 0) r.script
    (out, { r with script, done := out.isOver })

/-- One refill for each destination. -/
def refills : Reader → List Bytes → List Refilled
  | _, [] => []
  | r, dst :: rest => (refillInto r dst).1 :: refills (refillInto r dst).2 rest

/-! ## One refill -/

theorem read_eq_serve (size : Nat) (script : List Read) :
    read size script = match serve size script with
      | (.gave bytes, rest) => (.ok bytes, rest)
      | (.failed error, rest) => (.error error, rest)
      | (.interrupted, rest) => read size rest := by
  match script with
  | [] => rfl
  | .interrupted :: _ => rfl
  | .failure _ :: _ => rfl
  | .data _ :: _ => rfl

theorem length_serve_le {size : Nat} {script rest : List Read} {bytes : Bytes}
    (h : serve size script = (.gave bytes, rest)) : bytes.length ≤ size := by
  match script with
  | [] =>
    cases h
    exact Nat.zero_le size
  | .data _ :: _ =>
    cases h
    exact List.length_take_le ..

/-- All that can come of reading over a chunk that stands behind `dst`: some interruptions, and then
a read that gives bytes or fails. -/
inductive Filled (size : Nat) (dst : Bytes) (script : List Read) : Refilled → List Read → Prop
  | gave {k : Nat} {bytes : Bytes} {rest : List Read} (hlen : bytes.length ≤ size)
      (hreads : answers size (k + 1) script =
        (List.replicate k .interrupted ++ [.gave bytes], rest))
      (hread : read size script = (.ok bytes, rest)) :
      Filled size dst script
        ⟨.ok bytes.length, dst ++ bytes, List.replicate k .interrupted ++ [.gave bytes]⟩ rest
  | failed {k : Nat} {error : SourceError} {rest : List Read}
      (hreads : answers size (k + 1) script =
        (List.replicate k .interrupted ++ [.failed error], rest))
      (hread : read size script = (.error error, rest)) :
      Filled size dst script
        ⟨.error error, dst, List.replicate k .interrupted ++ [.failed error]⟩ rest

theorem overwrite_take (dst window bytes : Bytes) :
    (overwrite (dst ++ window) dst.length bytes).take (dst.length + bytes.length) = dst ++ bytes := by
  rw [overwrite, List.take_left, ← List.length_append, List.take_left]

/-- Nothing of what stood in the chunk before is left, whatever it was. -/
theorem fill_filled (dst window : Bytes) (script : List Read) :
    Filled window.length dst script (fill dst.length (dst ++ window) script).1
      (fill dst.length (dst ++ window) script).2 := by
  have hsize : (dst ++ window).length - dst.length = window.length := by
    rw [List.length_append, Nat.add_sub_cancel_left]
  -- An interruption leaves the destination as it was and the script shorter.
  induction hlength : script.length using Nat.strongRecOn generalizing script with
  | _ length ih =>
    have hread := read_eq_serve window.length script
    rw [fill]
    split
    · next bytes rest hserve =>
      rw [hsize] at hserve
      rw [hserve] at hread
      rw [overwrite_take]
      refine .gave (k := 0) (length_serve_le hserve) ?_ hread
      simp only [answers, hserve]
      rfl
    · next error rest hserve =>
      rw [hsize] at hserve
      rw [hserve] at hread
      rw [List.take_left]
      refine .failed (k := 0) ?_ hread
      simp only [answers, hserve]
      rfl
    · next rest hserve =>
      rw [hsize] at hserve
      rw [hserve] at hread
      have hrest := ih rest.length (hlength ▸ length_lt_of_interrupted hserve) rest rfl
      have hmore (n : Nat) : answers window.length (n + 1) script =
          (.interrupted :: (answers window.length n rest).1, (answers window.length n rest).2) := by
        rw [answers, hserve]
      generalize fill dst.length (dst ++ window) rest = filled at hrest ⊢
      obtain ⟨out, left⟩ := filled
      cases hrest with
      | @gave k bytes _ hlen hreads hread' =>
        exact .gave (k := k + 1) hlen (by rw [hmore, hreads]; rfl) (hread.trans hread')
      | @failed k error _ hreads hread' =>
        exact .failed (k := k + 1) (by rw [hmore, hreads]; rfl) (hread.trans hread')

/-- All that can come of a refill: nothing once the input is over, and one read that is not
interrupted before. -/
inductive Refills (r : Reader) (dst : Bytes) : Refilled → Reader → Prop
  | ended (hdone : r.done = true) : Refills r dst ⟨.ok 0, dst, []⟩ r
  | filled {out : Refilled} {rest : List Read} (hdone : r.done = false)
      (hfilled : Filled r.chunkSize dst r.script out rest) :
      Refills r dst out { r with script := rest, done := out.isOver }

theorem refillInto_refills (r : Reader) (dst : Bytes) :
    Refills r dst (refillInto r dst).1 (refillInto r dst).2 := by
  unfold refillInto
  cases hdone : r.done with
  | true => exact .ended hdone
  | false =>
    have hfilled := fill_filled dst (List.replicate r.chunkSize 0) r.script
    rw [List.length_replicate] at hfilled
    exact .filled hdone hfilled

/-- A refill appends what the reader delivers, and leaves the reader as that does. -/
theorem refillInto_eq_refill (r : Reader) (dst : Bytes) :
    (refillInto r dst).1.report = (Supply.refill r).1.report ∧
      (refillInto r dst).1.destination = dst ++ (Supply.refill r).1.appended ∧
      (refillInto r dst).2 = (Supply.refill r).2 := by
  have hrefills := refillInto_refills r dst
  generalize (refillInto r dst).1 = out at hrefills ⊢
  generalize (refillInto r dst).2 = r' at hrefills ⊢
  show out.report = (deliver r).1.report ∧ out.destination = dst ++ (deliver r).1.appended ∧
    r' = (deliver r).2
  rw [deliver]
  cases hrefills with
  | ended hdone =>
    rw [if_pos hdone]
    exact ⟨rfl, (List.append_nil dst).symm, rfl⟩
  | @filled _ rest hdone hfilled =>
    rw [if_neg (by rw [hdone]; nofun)]
    cases hfilled with
    | @gave k bytes _ hlen hreads hread =>
      rw [hread]
      refine ⟨rfl, rfl, ?_⟩
      cases bytes <;> rfl
    | @failed k error _ hreads hread =>
      rw [hread]
      refine ⟨rfl, (List.append_nil dst).symm, ?_⟩
      show { r with script := rest, done := false } = { r with script := rest }
      rw [hdone]

/-! ## What a run of refills does -/

theorem answers_add (size m n : Nat) (script : List Read) :
    answers size (m + n) script =
      ((answers size m script).1 ++ (answers size n (answers size m script).2).1,
        (answers size n (answers size m script).2).2) := by
  induction m generalizing script with
  | zero =>
    rw [Nat.zero_add]
    rfl
  | succ m ih =>
    rw [Nat.succ_add]
    simp only [answers, ih]
    rfl

/-- The destination is kept, with the bytes of the first read that is not interrupted behind it, or
with nothing. -/
inductive Appends (size : Nat) (dst : Bytes) : Refilled → Prop
  | gave (interruptions : Nat) {bytes : Bytes} (hlen : bytes.length ≤ size) :
      Appends size dst ⟨.ok bytes.length, dst ++ bytes,
        List.replicate interruptions .interrupted ++ [.gave bytes]⟩
  | failed (interruptions : Nat) (error : SourceError) :
      Appends size dst ⟨.error error, dst,
        List.replicate interruptions .interrupted ++ [.failed error]⟩
  /-- The reader is not asked. -/
  | ended : Appends size dst ⟨.ok 0, dst, []⟩

section
variable {r r' : Reader} {dst : Bytes} {out : Refilled} (h : Refills r dst out r')
include h

theorem Refills.chunkSize : r'.chunkSize = r.chunkSize := by
  cases h with
  | ended => rfl
  | filled => rfl

theorem Refills.appends : Appends r.chunkSize dst out := by
  cases h with
  | ended => exact .ended
  | filled hdone hfilled =>
    cases hfilled with
    | @gave k _ _ hlen => exact .gave k hlen
    | @failed k error => exact .failed k error

/-- The reads go on where those before have stopped. -/
theorem Refills.answers_eq :
    answers r.chunkSize out.reads.length r.script = (out.reads, r'.script) := by
  cases h with
  | ended => rfl
  | filled hdone hfilled =>
    cases hfilled with
    | gave hlen hreads => simpa using hreads
    | failed hreads => simpa using hreads

/-- The reader is asked unless it is done. -/
theorem Refills.reads_eq_nil_iff : out.reads = [] ↔ r.done = true := by
  cases h with
  | ended hdone => exact iff_of_true rfl hdone
  | filled hdone hfilled =>
    refine iff_of_false ?_ (by rw [hdone]; nofun)
    cases hfilled with
    | gave => simp
    | failed => simp

/-- A reader is done once it has said so, and stays done. -/
theorem Refills.done_iff : r'.done = true ↔ r.done = true ∨ out.report = .ok 0 := by
  have hover (out : Refilled) : out.isOver = true ↔ out.report = .ok 0 := by
    unfold Refilled.isOver
    cases out.report <;> simp
  cases h with
  | ended hdone => exact ⟨fun _ => .inl hdone, fun _ => hdone⟩
  | filled hdone hfilled => rw [hdone, hover]; simp

end

theorem refills_outcomes (r : Reader) (dsts : List Bytes) :
    (refills r dsts).map Refilled.outcome = Supply.deliveries r dsts := by
  induction dsts generalizing r with
  | nil => rfl
  | cons dst dsts ih =>
    obtain ⟨hreport, hdestination, hleft⟩ := refillInto_eq_refill r dst
    rw [refills, List.map_cons, ih, Refilled.outcome, hreport, hdestination, hleft]
    rfl

theorem refills_appends (r : Reader) (dsts : List Bytes) :
    List.Forall₂ (Appends r.chunkSize) dsts (refills r dsts) := by
  induction dsts generalizing r with
  | nil => exact .nil
  | cons dst dsts ih =>
    have hrefills := refillInto_refills r dst
    exact .cons hrefills.appends (hrefills.chunkSize ▸ ih (refillInto r dst).2)

/-- All the reads of a run are those that the reader makes one after the other. -/
theorem refills_reads (r : Reader) (dsts : List Bytes) :
    ∃ n, (refills r dsts).flatMap (·.reads) = (answers r.chunkSize n r.script).1 := by
  induction dsts generalizing r with
  | nil => exact ⟨0, rfl⟩
  | cons dst dsts ih =>
    have hrefills := refillInto_refills r dst
    obtain ⟨n, hn⟩ := ih (refillInto r dst).2
    refine ⟨(refillInto r dst).1.reads.length + n, ?_⟩
    rw [refills, List.flatMap_cons, hn, answers_add, hrefills.answers_eq, hrefills.chunkSize]

/-- A refill of a run makes no read exactly if the reader was done before the run, or has said so in a
refill before. -/
theorem refills_reads_eq_nil_iff {before after : List Refilled} {out : Refilled} {r : Reader}
    {dsts : List Bytes} (h : refills r dsts = before ++ out :: after) :
    out.reads = [] ↔ r.done = true ∨ ∃ earlier ∈ before, earlier.report = .ok 0 := by
  induction before generalizing r dsts with
  | nil =>
    cases dsts with
    | nil => cases h
    | cons dst dsts =>
      obtain ⟨rfl, -⟩ := List.cons.inj h
      simp [(refillInto_refills r dst).reads_eq_nil_iff]
  | cons first before ih =>
    cases dsts with
    | nil => cases h
    | cons dst dsts =>
      obtain ⟨rfl, hrest⟩ := List.cons.inj h
      rw [ih hrest, (refillInto_refills r dst).done_iff, List.exists_mem_cons_iff, or_assoc]

/-! ## Interruptions -/

/-- A script without its interruptions. -/
def uninterrupted (script : List Read) : List Read := script.filter (!·.isInterrupted)

theorem read_uninterrupted (size : Nat) (script : List Read) :
    read size (uninterrupted script) =
      ((read size script).1, uninterrupted (read size script).2) := by
  fun_induction read size script with
  | case1 => rfl
  | case2 rest ih => exact ih
  | case3 error rest => rfl
  | case4 bytes rest =>
    show read size (.data bytes :: uninterrupted rest) = _
    rw [read]
    cases bytes.drop size <;> rfl

theorem deliver_uninterrupted (r : Reader) :
    deliver { r with script := uninterrupted r.script } =
      ((deliver r).1, { (deliver r).2 with script := uninterrupted (deliver r).2.script }) := by
  obtain ⟨chunkSize, script, done⟩ := r
  cases done with
  | true => rfl
  | false =>
    simp only [deliver, Bool.false_eq_true, if_false, read_uninterrupted]
    obtain ⟨error | bytes, rest⟩ := read chunkSize script
    · rfl
    · rfl

theorem deliveries_uninterrupted (r : Reader) (dsts : List Bytes) :
    Supply.deliveries { r with script := uninterrupted r.script } dsts =
      Supply.deliveries r dsts := by
  induction dsts generalizing r with
  | nil => rfl
  | cons dst dsts ih =>
    have hrefill : Supply.refill { r with script := uninterrupted r.script } =
        ((Supply.refill r).1,
          { (Supply.refill r).2 with script := uninterrupted (Supply.refill r).2.script }) :=
      deliver_uninterrupted r
    rw [Supply.deliveries, hrefill, ih]
    rfl

/-- **A reader hands over what its reads give, and nothing else gets into a destination.** Each refill
of a run keeps what was there and appends the bytes of the first read that is not interrupted, or
nothing if that read fails; as a supply the reader does the same. The reads of all refills are those
that the reader makes one after the other, so none is left out or made twice. A refill makes reads
exactly if none before has said that the input is over, whatever has failed. And two scripts that
differ in interruptions only come to the same. -/
theorem refills_faithful (script : List Read) (chunkSize : Nat) (dsts : List Bytes) :
    let outs := refills (ofScript script chunkSize) dsts
    outs.map Refilled.outcome = Supply.deliveries (ofScript script chunkSize) dsts ∧
      List.Forall₂ (Appends (max chunkSize 1)) dsts outs ∧
      (∃ n, outs.flatMap (·.reads) = (answers (max chunkSize 1) n script).1) ∧
      (∀ before out after, outs = before ++ out :: after →
        (out.reads = [] ↔ ∃ earlier ∈ before, earlier.report = .ok 0)) ∧
      ∀ script', uninterrupted script' = uninterrupted script →
        (refills (ofScript script' chunkSize) dsts).map Refilled.outcome =
          outs.map Refilled.outcome := by
  intro outs
  refine ⟨refills_outcomes _ dsts, refills_appends (ofScript script chunkSize) dsts,
    refills_reads (ofScript script chunkSize) dsts, fun before out after h => ?_,
    fun script' hscript => ?_⟩
  · rw [refills_reads_eq_nil_iff h]
    exact or_iff_right nofun
  · have hstrip (script : List Read) := deliveries_uninterrupted (ofScript script chunkSize) dsts
    rw [refills_outcomes, refills_outcomes, ← hstrip script', ← hstrip script]
    exact congrArg (fun left => Supply.deliveries (ofScript left chunkSize) dsts) hscript

/-- Two reads with more behind the first of them, a failure, the end, and data that comes too late;
interrupted twice. -/
def faltering : List Read :=
  [.interrupted, .data [97, 98, 99], .failure ⟨"lost"⟩, .interrupted, .data [], .data [100]]

/-- In chunks of two, the failure costs nothing and is not the end, and the refill behind the end makes
no read. -/
theorem refills_faithful_faltering :
    ∃ a b c d e, refills (ofScript faltering 2) [[120], [], [1, 2], [], [5]] = [a, b, c, d, e] ∧
      [a, b, c, d, e].map Refilled.outcome =
        [(.ok 2, [120, 97, 98]), (.ok 1, [99]), (.error ⟨"lost"⟩, [1, 2]), (.ok 0, []), (.ok 0, [5])] ∧
      d.reads ≠ [] ∧ e.reads = [] := by
  obtain ⟨houtcomes, -, -, hreads, -⟩ :=
    refills_faithful faltering 2 [[120], [], [1, 2], [], [5]]
  obtain ⟨a, b, c, d, e, houts⟩ : ∃ a b c d e,
      refills (ofScript faltering 2) [[120], [], [1, 2], [], [5]] = [a, b, c, d, e] :=
    ⟨_, _, _, _, _, rfl⟩
  rw [houts] at houtcomes
  have hreports : a.report = .ok 2 ∧ b.report = .ok 1 ∧ c.report = .error ⟨"lost"⟩ ∧
      d.report = .ok 0 := by
    obtain ⟨ha, hrest⟩ := List.cons.inj houtcomes
    obtain ⟨hb, hrest⟩ := List.cons.inj hrest
    obtain ⟨hc, hrest⟩ := List.cons.inj hrest
    obtain ⟨hd, -⟩ := List.cons.inj hrest
    exact ⟨congrArg Prod.fst ha, congrArg Prod.fst hb, congrArg Prod.fst hc, congrArg Prod.fst hd⟩
  obtain ⟨ha, hb, hc, hd⟩ := hreports
  refine ⟨a, b, c, d, e, houts, houtcomes, ?_, ?_⟩
  · rw [Ne, hreads [a, b, c] d [e] houts]
    simp [ha, hb, hc]
  · exact (hreads [a, b, c, d] e [] houts).2 ⟨d, by simp, hd⟩

end Reader

end CombLexer
