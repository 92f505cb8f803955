/-
Input that is read in chunks of a fixed size.

What is read from is a script of what its reads do, one step after the other:
give data, be interrupted, fail. A refill reads once; interrupted reads are
repeated, and a failed one changes nothing but the script. Data that does not
fit the chunk stays for the next read. Once a read has given nothing the
reader is done and reads no more.

A chunk may have any size. Memory for it is taken to be there: a machine has
none for more bytes than a signed address can count, and one that is asked for
such a chunk breaks off in its first refill. No refill here does.
-/
import CombLexer.Source.Basic

namespace CombLexer

inductive Read where
  /-- Gives as much of the data as is asked for; no data is the end. -/
  | data (bytes : Bytes)
  /-- Gives up for now, to be repeated. -/
  | interrupted
  | failure (error : SourceError)

structure Reader where
  chunkSize : Nat
  /-- What the reads to come do; behind the last step they give nothing. -/
  script : List Read
  done : Bool := false

namespace Reader

/-- A reader of at least one byte at a time. -/
def ofScript (script : List Read) (chunkSize : Nat) : Reader := ⟨max chunkSize 1, script, false⟩

/-- Reads up to `size` bytes, repeating reads that are interrupted. -/
def read (size : Nat) : List Read → Except SourceError Bytes × List Read
  | [] => (.ok [], [])
  | .interrupted :: rest => read size rest
  | .failure error :: rest => (.error error, rest)
  | .data bytes :: rest =>
    (.ok (bytes.take size), match bytes.drop size with
      | [] => rest
      | more => .data more :: rest)

def deliver (r : Reader) : Delivery × Reader :=
  if r.done then (.nothing, r)
  else
    match read r.chunkSize r.script with
    | (.error error, script) => (⟨[], .error error⟩, { r with script })
    | (.ok bytes, script) => (.counted bytes, { r with script, done := bytes.isEmpty })

/-- A bound on what a script delivers: data can come byte by byte. -/
def load : List Read → Nat
  | [] => 0
  | .data bytes :: rest => 2 * bytes.length + 1 + load rest
  | _ :: rest => load rest

def capacity (r : Reader) : Nat := if r.done then 0 else load r.script

theorem load_read_le (size : Nat) (script : List Read) :
    match read size script with
    | (.error _, rest) => load rest ≤ load script
    | (.ok [], _) => True
    | (.ok (_ :: bytes), rest) => bytes.length + 2 + load rest ≤ load script := by
  fun_induction read size script with
  | case1 => trivial
  | case2 rest ih => exact ih
  | case3 error rest => exact Nat.le_refl _
  | case4 bytes rest =>
    simp only [load]
    cases hb : bytes.take size with
    | nil => trivial
    | cons b taken =>
      have htake : (bytes.take size).length = taken.length + 1 := by rw [hb, List.length_cons]
      rw [List.length_take] at htake
      cases hd : bytes.drop size with
      | nil => simp only; omega
      | cons d more =>
        have hdrop : (bytes.drop size).length = more.length + 1 := by rw [hd, List.length_cons]
        rw [List.length_drop] at hdrop
        simp only [load, List.length_cons]
        omega

theorem weight_deliver_le (r : Reader) : (deliver r).1.weight + (deliver r).2.capacity ≤ r.capacity := by
  unfold deliver capacity
  have hload := load_read_le r.chunkSize r.script
  by_cases hdone : r.done
  · simp [hdone, Delivery.weight, Delivery.nothing, Delivery.isProgress]
  · rw [if_neg hdone, if_neg hdone]
    split at hload <;> rename_i heq <;> rw [heq] <;>
      simp_all [Delivery.weight, Delivery.counted, Delivery.isProgress]

instance : Source Reader where
  refill := deliver
  capacity := capacity
  weight_add_capacity_le := weight_deliver_le

end Reader

end CombLexer
