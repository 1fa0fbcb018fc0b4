import LCOMaze.DataStructures.Queue
import LCOMaze.Foundations.Refinement

/-!
# The byte queue as a bounded sequence

The fields of {lit}`queue_t` are integers that nothing keeps in range, and an index outside of
{lit}`buf` is a fault.  The structure {lit}`Queue`, whose fields are in range by its type, is shown
to be what the operations reach from {lit}`new_queue`.

Main results:

- Theorems {lit}`Queue.raw_push`, {lit}`Queue.raw_pop` and {lit}`Queue.raw_top`: the operations on
  the plain fields are those of the structure.
- Theorem {lit}`rawCall_refines`: each call does to the bytes held what it does to a bounded
  sequence.
- Theorem {lit}`queue_refines_fifo`: whole runs return the same, without an index out of range.
-/

namespace LCOMaze

open Foundations

/-! ## Plain fields -/

/-- {lit}`queue_t` as it lies in memory. -/
structure RawQueue where
  buf : Fin bufferSize → UInt8
  front : Int
  rear : Int
  size : Int

/-- The element {lit}`buf[i]`; {lean}`none` is an index out of range. -/
def slot (i : Int) : Option (Fin bufferSize) :=
  if h : 0 ≤ i ∧ i < bufferSize then some ⟨i.toNat, by omega⟩ else none

namespace RawQueue

/-- {lit}`new_queue`. -/
def new (buf : Fin bufferSize → UInt8) : RawQueue := ⟨buf, 0, -1, 0⟩

/-- {lit}`push`. -/
def push (q : RawQueue) (c : UInt8) : Option (RawQueue × Int) :=
  if q.size ≥ bufferSize then some (q, 1)
  else
    let rear := (q.rear + 1).tmod bufferSize
    (slot rear).map fun i =>
      ({ q with buf := Function.update q.buf i c, rear := rear, size := q.size + 1 }, 0)

/-- {lit}`top`. -/
def top (q : RawQueue) : Option UInt8 :=
  if q.size = 0 then some 0 else (slot q.front).map q.buf

/-- {lit}`pop`. -/
def pop (q : RawQueue) : RawQueue :=
  if q.size = 0 then q
  else { q with front := (q.front + 1).tmod bufferSize, size := q.size - 1 }

/-- {lit}`empty`. -/
def empty (q : RawQueue) : Int := if q.size = 0 then 1 else 0

/-- The fields are in range, and {lit}`rear` is the last of {lit}`size` indices from
{lit}`front` on, modulo {lit}`BUFFER_SIZE`. -/
structure Valid (q : RawQueue) : Prop where
  front_range : 0 ≤ q.front ∧ q.front < bufferSize
  rear_range : -1 ≤ q.rear ∧ q.rear < bufferSize
  size_range : 0 ≤ q.size ∧ q.size ≤ bufferSize
  rear_mod : q.rear % bufferSize = (q.front + q.size - 1) % bufferSize

end RawQueue

/-- The plain fields of the structure. -/
def Queue.raw (q : Queue) : RawQueue := ⟨q.buf, q.front.val, q.rear, q.size⟩

theorem Queue.raw_new (buf : Fin bufferSize → UInt8) : (Queue.new buf).raw = RawQueue.new buf :=
  rfl

/-- The structure is what its plain fields satisfy. -/
theorem Queue.valid_raw (q : Queue) : q.raw.Valid where
  front_range := ⟨Int.natCast_nonneg _, Int.ofNat_lt.mpr q.front.isLt⟩
  rear_range := ⟨q.rear_ge, q.rear_lt⟩
  size_range := ⟨Int.natCast_nonneg _, Int.ofNat_le.mpr q.size_le⟩
  rear_mod := by
    have heq := q.rear_eq
    simp only [Queue.raw]
    unfold bufferSize at heq ⊢
    omega

/-- An index of the buffer is in range. -/
@[simp]
theorem slot_fin (i : Fin bufferSize) : slot i.val = some i := by
  rw [slot, dif_pos ⟨Int.natCast_nonneg _, Int.ofNat_lt.mpr i.isLt⟩]
  rfl

/-- A sum that is not negative wraps around to an index of the buffer. -/
theorem tmod_eq_ringIndex {i : Int} (hi : 0 ≤ i) :
    i.tmod bufferSize = ((ringIndex i.toNat).val : Int) := by
  simp only [Int.tmod_eq_emod_of_nonneg hi, ringIndex, Int.natCast_emod, Int.toNat_of_nonneg hi]

/-- {lit}`push` on the plain fields. -/
theorem Queue.raw_push (q : Queue) (c : UInt8) :
    q.raw.push c = some ((q.push c).1.raw, (q.push c).2) := by
  rw [RawQueue.push]
  by_cases hroom : q.size < bufferSize
  · have hpush : q.push c = (_, 0) := dif_pos hroom
    have hrear := tmod_eq_ringIndex (i := q.rear + 1) (by have := q.rear_ge; omega)
    have hmod : (q.rear + 1).tmod bufferSize = (q.rear + 1) % bufferSize :=
      Int.tmod_eq_emod_of_nonneg (by have := q.rear_ge; omega)
    rw [if_neg (by simp only [Queue.raw]; omega), hpush]
    simp only [Queue.raw, hrear, slot_fin, Option.map_some]
    rw [← hrear, hmod]
    rfl
  · have hpush : q.push c = (q, 1) := dif_neg hroom
    rw [if_pos (by simp only [Queue.raw]; omega), hpush]

/-- {lit}`pop` on the plain fields. -/
theorem Queue.raw_pop (q : Queue) : q.raw.pop = q.pop.raw := by
  rw [RawQueue.pop, Queue.pop]
  by_cases hsize : q.size = 0
  · rw [if_pos (by simp only [Queue.raw, hsize, Int.ofNat_zero]), dif_pos hsize]
  · rw [if_neg (by simp only [Queue.raw]; omega), dif_neg hsize]
    have hfront := tmod_eq_ringIndex (i := (q.front.val : Int) + 1) (by omega)
    have hone : ((q.front.val : Int) + 1).toNat = q.front.val + 1 := by omega
    simp only [Queue.raw, hfront, hone, RawQueue.mk.injEq, true_and]
    omega

/-- {lit}`top` on the plain fields. -/
theorem Queue.raw_top (q : Queue) : q.raw.top = some q.top := by
  rw [RawQueue.top, Queue.top]
  by_cases hsize : q.size = 0
  · rw [if_pos (by simp only [Queue.raw, hsize, Int.ofNat_zero]), if_pos hsize]
  · rw [if_neg (by simp only [Queue.raw]; omega), if_neg hsize]
    simp only [Queue.raw, slot_fin, Option.map_some]

/-- {lit}`empty` on the plain fields. -/
theorem Queue.raw_empty (q : Queue) : q.raw.empty = if q.empty then 1 else 0 := by
  simp only [RawQueue.empty, Queue.empty, Queue.raw, decide_eq_true_eq, Int.natCast_eq_zero]

/-! ## Calls -/

/-- A call of a function of {lit}`queue.c`. -/
inductive QueueOp where
  | push (c : UInt8)
  | pop
  | top
  | empty

/-- What a call returns. -/
inductive QueueResult where
  | done
  | int (result : Int)
  | char (result : UInt8)
deriving DecidableEq, Repr

/-- One call on the plain fields; {lean}`none` is an index out of range. -/
def rawCall (q : RawQueue) : QueueOp → Option (RawQueue × QueueResult)
  | .push c => (q.push c).map fun result => (result.1, .int result.2)
  | .pop => some (q.pop, .done)
  | .top => q.top.map fun c => (q, .char c)
  | .empty => some (q, .int q.empty)

/-- The same call on a sequence of at most {lit}`capacity` bytes, the oldest first. -/
def fifoCall (capacity : Nat) (held : List UInt8) : QueueOp → List UInt8 × QueueResult
  | .push c => if held.length < capacity then (held ++ [c], .int 0) else (held, .int 1)
  | .pop => (held.tail, .done)
  | .top => (held, .char (held.head?.getD 0))
  | .empty => (held, .int (if held = [] then 1 else 0))

/-- The plain fields hold these bytes. -/
def RawQueue.Holds (raw : RawQueue) (held : List UInt8) : Prop :=
  ∃ q : Queue, q.raw = raw ∧ q.contents = held

/-- Each call does to the bytes held what it does to a bounded sequence. -/
theorem rawCall_refines :
    Refines rawCall (fifoCall bufferSize) (fun _ _ => True) RawQueue.Holds := by
  rintro raw held op ⟨q, rfl, rfl⟩ -
  cases op with
  | push c =>
      refine ⟨(q.push c).1.raw, ?_, (q.push c).1, rfl, ?_⟩
      · rw [rawCall, Queue.raw_push, Option.map_some, fifoCall]
        split_ifs with hroom
        · rw [(Queue.contents_push hroom c).2]
        · rw [Queue.push_full (le_antisymm q.length_contents_le (not_lt.mp hroom))]
      · rw [fifoCall]
        split_ifs with hroom
        · exact (Queue.contents_push hroom c).1
        · rw [Queue.push_full (le_antisymm q.length_contents_le (not_lt.mp hroom))]
  | pop => exact ⟨q.pop.raw, by rw [rawCall, Queue.raw_pop]; rfl, q.pop, rfl, q.contents_pop⟩
  | top =>
      refine ⟨q.raw, ?_, q, rfl, rfl⟩
      rw [rawCall, Queue.raw_top, Queue.top_eq]
      rfl
  | empty =>
      refine ⟨q.raw, ?_, q, rfl, rfl⟩
      simp only [rawCall, Queue.raw_empty, Queue.empty_eq_true_iff, fifoCall]

/-- From {lit}`new_queue` on, every run of calls returns what it returns on a sequence of at most
{lit}`BUFFER_SIZE` bytes; no index is out of range, and in the state reached, which is any
reachable state, the fields are in range and {lit}`size` counts the bytes held. -/
theorem queue_refines_fifo (buf : Fin bufferSize → UInt8) (ops : List QueueOp) :
    ∃ q, runCalls rawCall ops (RawQueue.new buf) =
        some (q, (specCalls (fifoCall bufferSize) ops []).2) ∧
      q.Valid ∧ q.size = (specCalls (fifoCall bufferSize) ops []).1.length := by
  have hnew : (RawQueue.new buf).Holds [] :=
    ⟨Queue.new buf, Queue.raw_new buf, Queue.contents_new buf⟩
  rcases rawCall_refines.run hnew (throughout_true ops []) with ⟨_, hrun, q, rfl, hheld⟩
  refine ⟨q.raw, hrun, q.valid_raw, ?_⟩
  rw [← hheld, Queue.length_contents]
  rfl

end LCOMaze
