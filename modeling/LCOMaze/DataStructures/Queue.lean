import Mathlib.Data.Fin.Basic
import Mathlib.Data.List.Range

/-!
# The byte queue of {lit}`queue.c`

A ring buffer of {lit}`BUFFER_SIZE` bytes.  The structure carries the relation between
{lit}`front`, {lit}`rear` and {lit}`size` as fields, and every index into {lit}`buf` is
below {lit}`BUFFER_SIZE` by its type.  The pointers handed to the operations come from
{lit}`new_queue`, so their checks for {lit}`NULL` are left out.

Main results:

- Theorem {lit}`Queue.contents_push`: a byte is appended while there is room.
- Theorem {lit}`Queue.contents_pop`: the oldest byte is dropped.
- Theorem {lit}`Queue.top_eq`: the oldest byte is read.
- Theorem {lit}`Queue.contents_popAll`: the loops that clear a queue empty it.
-/

namespace LCOMaze

/-- {lit}`BUFFER_SIZE`. -/
def bufferSize : Nat := 100

/-- {lit}`queue_t`. -/
structure Queue where
  buf : Fin bufferSize → UInt8
  front : Fin bufferSize
  rear : Int
  size : Nat
  size_le : size ≤ bufferSize
  rear_ge : -1 ≤ rear
  rear_lt : rear < bufferSize
  rear_eq : (rear + 1) % bufferSize = (front + size : Nat) % bufferSize

/-- The index {lit}`i % BUFFER_SIZE`. -/
def ringIndex (i : Nat) : Fin bufferSize := ⟨i % bufferSize, Nat.mod_lt i (by decide)⟩

namespace Queue

/-- {lit}`new_queue`; the allocated buffer may hold anything. -/
def new (buf : Fin bufferSize → UInt8) : Queue where
  buf := buf
  front := ⟨0, by decide⟩
  rear := -1
  size := 0
  size_le := by decide
  rear_ge := by decide
  rear_lt := by decide
  rear_eq := by decide

/-- {lit}`push` with its return value. -/
def push (q : Queue) (c : UInt8) : Queue × Int :=
  if h : q.size < bufferSize then
    ({ q with
        buf := Function.update q.buf (ringIndex (q.rear + 1).toNat) c
        rear := (q.rear + 1) % bufferSize
        size := q.size + 1
        size_le := h
        rear_ge := by
          have hnonneg := Int.emod_nonneg (q.rear + 1) (by decide : (bufferSize : Int) ≠ 0)
          omega
        rear_lt := Int.emod_lt_of_pos (q.rear + 1) (by decide)
        rear_eq := by
          have heq := q.rear_eq
          unfold bufferSize at heq ⊢
          omega }, 0)
  else (q, 1)

/-- {lit}`top`. -/
def top (q : Queue) : UInt8 :=
  if q.size = 0 then 0 else q.buf q.front

/-- {lit}`pop`. -/
def pop (q : Queue) : Queue :=
  if h : q.size = 0 then q
  else
    { q with
      front := ringIndex (q.front + 1)
      size := q.size - 1
      size_le := (Nat.sub_le q.size 1).trans q.size_le
      rear_eq := by
        have heq := q.rear_eq
        unfold ringIndex
        unfold bufferSize at heq ⊢
        dsimp only
        omega }

/-- {lit}`empty`. -/
def empty (q : Queue) : Bool := q.size = 0

/-- The loop {lit}`while (!empty(q)) pop(q)`, run at most {lit}`BUFFER_SIZE` times. -/
def popAllLoop : Nat → Queue → Queue
  | 0, q => q
  | fuel + 1, q => if q.empty then q else popAllLoop fuel q.pop

/-- The loop of {lit}`clear_receive_queue` and {lit}`clear_transmit_queue`. -/
def popAll (q : Queue) : Queue := popAllLoop bufferSize q

/-! ## The bytes held -/

/-- The bytes in the queue, oldest first. -/
def contents (q : Queue) : List UInt8 :=
  (List.range q.size).map fun i => q.buf (ringIndex (q.front + i))

@[simp]
theorem length_contents (q : Queue) : q.contents.length = q.size := by
  simp [contents]

theorem length_contents_le (q : Queue) : q.contents.length ≤ bufferSize := by
  rw [length_contents]
  exact q.size_le

theorem size_eq_zero_iff (q : Queue) : q.size = 0 ↔ q.contents = [] := by
  rw [← length_contents, List.length_eq_zero_iff]

@[simp]
theorem contents_new (buf : Fin bufferSize → UInt8) : (new buf).contents = [] := rfl

@[simp]
theorem empty_eq_true_iff (q : Queue) : q.empty = true ↔ q.contents = [] := by
  rw [empty, decide_eq_true_iff, size_eq_zero_iff]

/-- The slot behind the last byte is the one that {lit}`push` writes. -/
theorem ringIndex_rear (q : Queue) :
    ringIndex (q.rear + 1).toNat = ringIndex (q.front + q.size) := by
  have heq := q.rear_eq
  have hge := q.rear_ge
  unfold bufferSize at heq
  apply Fin.ext
  simp only [ringIndex, bufferSize]
  omega

/-- Fewer than {lit}`BUFFER_SIZE` steps apart, slots are different. -/
theorem ringIndex_add_ne {start i j : Nat} (hij : i < j) (hj : j < i + bufferSize) :
    ringIndex (start + i) ≠ ringIndex (start + j) := by
  intro heq
  have hval := congrArg Fin.val heq
  simp only [ringIndex] at hval
  unfold bufferSize at hj hval
  omega

/-- With room, {lit}`push` appends the byte and returns 0. -/
theorem contents_push {q : Queue} (h : q.contents.length < bufferSize) (c : UInt8) :
    (q.push c).1.contents = q.contents ++ [c] ∧ (q.push c).2 = 0 := by
  rw [length_contents] at h
  have hpush : q.push c = (_, 0) := dif_pos h
  rw [hpush]
  refine ⟨?_, rfl⟩
  simp only [contents, List.range_succ, List.map_append, List.map_singleton]
  congr 1
  · apply List.map_congr_left
    intro i hi
    rw [List.mem_range] at hi
    rw [Function.update_of_ne]
    rw [ringIndex_rear]
    exact ringIndex_add_ne hi (by omega)
  · rw [ringIndex_rear, Function.update_self]

/-- Without room, {lit}`push` returns 1 and changes nothing. -/
theorem push_full {q : Queue} (h : q.contents.length = bufferSize) (c : UInt8) :
    q.push c = (q, 1) := by
  rw [length_contents] at h
  exact dif_neg (by omega)

/-- Whatever is pushed next, {lit}`push` keeps the first {lit}`BUFFER_SIZE` bytes. -/
theorem take_contents_push (q : Queue) (c : UInt8) (rest : List UInt8) :
    ((q.push c).1.contents ++ rest).take bufferSize =
      (q.contents ++ c :: rest).take bufferSize := by
  rcases q.length_contents_le.lt_or_eq with hroom | hfull
  · rw [(contents_push hroom c).1, List.append_assoc, List.singleton_append]
  · rw [push_full hfull c, ← hfull, List.take_left, List.take_left]

theorem take_contents (q : Queue) : q.contents.take bufferSize = q.contents :=
  List.take_of_length_le q.length_contents_le

/-- A loop of {lit}`push` keeps the first {lit}`BUFFER_SIZE` bytes. -/
theorem contents_foldl_push (bytes : List UInt8) (q : Queue) :
    (bytes.foldl (fun q c => (q.push c).1) q).contents =
      (q.contents ++ bytes).take bufferSize := by
  induction bytes generalizing q with
  | nil => rw [List.foldl_nil, List.append_nil, take_contents]
  | cons c bytes ih => rw [List.foldl_cons, ih, take_contents_push]

/-- {lit}`top` reads the oldest byte. -/
theorem top_eq (q : Queue) : q.top = q.contents.head?.getD 0 := by
  unfold top contents
  cases hsize : q.size with
  | zero => rfl
  | succ n =>
      have hfront : ringIndex q.front = q.front :=
        Fin.ext (Nat.mod_eq_of_lt q.front.isLt)
      simp [List.range_succ_eq_map, hfront]

/-- {lit}`pop` drops the oldest byte. -/
theorem contents_pop (q : Queue) : q.pop.contents = q.contents.tail := by
  unfold pop
  split_ifs with hsize
  · rw [(size_eq_zero_iff q).mp hsize]
    rfl
  · obtain ⟨n, hn⟩ := Nat.exists_eq_succ_of_ne_zero hsize
    simp only [contents, hn, Nat.succ_eq_add_one, Nat.add_sub_cancel, List.range_succ_eq_map,
      List.map_cons, List.tail_cons, List.map_map]
    apply List.map_congr_left
    intro i _
    apply congrArg q.buf
    apply Fin.ext
    simp only [ringIndex, bufferSize]
    omega

/-- The oldest byte of a queue that is not empty, and the rest of it. -/
theorem top_cons_pop {q : Queue} (h : q.empty = false) : q.top :: q.pop.contents = q.contents := by
  have hne : q.contents ≠ [] := by
    rw [Ne, ← empty_eq_true_iff, h]
    exact Bool.false_ne_true
  rw [top_eq, contents_pop]
  cases hcontents : q.contents with
  | nil => exact absurd hcontents hne
  | cons byte bytes => rfl

/-- Clearing leaves no byte. -/
theorem contents_popAll (q : Queue) : q.popAll.contents = [] := by
  have hloop : ∀ (fuel : Nat) (q : Queue), q.contents.length ≤ fuel →
      (popAllLoop fuel q).contents = [] := by
    intro fuel
    induction fuel with
    | zero => exact fun q hq => List.length_eq_zero_iff.mp (Nat.le_zero.mp hq)
    | succ fuel ih =>
        intro q hq
        unfold popAllLoop
        split_ifs with hempty
        · exact (empty_eq_true_iff q).mp hempty
        · apply ih
          rw [contents_pop, List.length_tail]
          omega
  exact hloop bufferSize q q.length_contents_le

end Queue

end LCOMaze
