import LCOMaze.Controllers.Serial
import LCOMaze.Foundations.WhileLoop
import Mathlib.Algebra.BigOperators.Group.Finset.Basic
import Mathlib.Data.Nat.Bitwise

/-!
# Sending over the serial port

{lit}`sp_send_int` pushes its string into a new transmit queue and polls the line status until
the queue is empty.  It polls the port at {lit}`base_addr` and sends through the one at
{lit}`0x3f8`.

The model of a port is the property that drivers rely on: bit 5 of the line status, once set,
stays set until a byte is written, and it is set again after finitely many polls.  The other
bits are arbitrary.  Any access may fail.

Main results:

- Theorem {lit}`sendStep_progress`: every iteration fails, waits, or takes a byte off the queue.
- Theorem {lit}`sendLoop_terminates`: for every string and all timings the loops end.
- Theorem {lit}`sendLoop_written`: the bytes written when no read fails.
- Theorem {lit}`spSendInt_sends_whole_iff`: they are the whole string exactly if the port is the
  first one, the string fits the queue, and none of its bytes fails to be written.
-/

namespace LCOMaze

open Foundations

/-! ## The ports -/

/-- A port: how many more polls find bit 5 of its line status clear, for how many polls it is
clear after each byte, the other bits of the line status at each poll, the polls so far and the
bytes written to its transmitter. -/
structure Uart where
  busy : Nat
  delays : Nat → Nat
  noise : Nat → UInt32
  polls : Nat
  written : List UInt8

namespace Uart

/-- The line status. -/
def lineStatus (uart : Uart) : UInt32 :=
  if uart.busy = 0 then uart.noise uart.polls ||| 0x20 else uart.noise uart.polls &&& 0xFFFFFFDF

/-- The port after a poll of its line status. -/
def polled (uart : Uart) : Uart :=
  { uart with busy := uart.busy - 1, polls := uart.polls + 1 }

/-- The port after a byte was written to it. -/
def accept (uart : Uart) (c : UInt8) : Uart :=
  { uart with busy := uart.delays uart.written.length, written := uart.written ++ [c] }

end Uart

/-- Which of the reads and writes of ports fail. -/
structure PortFailures where
  read : Nat → Bool
  write : Nat → Bool

/-- The ports by their base addresses, and the number of reads and writes so far. -/
structure Ports where
  uart : UInt16 → Uart
  reads : Nat
  writes : Nat

/-- The ports after a read that is not one of the line status, or that failed. -/
def Ports.countRead (ports : Ports) : Ports := { ports with reads := ports.reads + 1 }

/-- The ports after a read of the line status. -/
def Ports.poll (base : UInt16) (ports : Ports) : Ports :=
  { ports with
    uart := Function.update ports.uart base (ports.uart base).polled
    reads := ports.reads + 1 }

/-- A read of the interrupt identification, of which only the success is used. -/
def readIir (failures : PortFailures) (ports : Ports) : Bool × Ports :=
  (!failures.read ports.reads, ports.countRead)

/-- A read of the line status. -/
def readLsr (failures : PortFailures) (base : UInt16) (ports : Ports) : Option UInt32 × Ports :=
  if failures.read ports.reads then (none, ports.countRead)
  else (some (ports.uart base).lineStatus, ports.poll base)

/-- A write to the transmitter, whose success the code does not look at. -/
def writeThr (failures : PortFailures) (base : UInt16) (c : UInt8) (ports : Ports) : Ports :=
  if failures.write ports.writes then { ports with writes := ports.writes + 1 }
  else
    { ports with
      uart := Function.update ports.uart base ((ports.uart base).accept c)
      writes := ports.writes + 1 }

/-! ## The function -/

/-- {lit}`sp_get_status`. -/
def spGetStatus (failures : PortFailures) (ports : Ports) : Option UInt8 × Ports :=
  let (status, ports) := readLsr failures 0x3f8 ports
  (status.map UInt32.toUInt8, ports)

/-- The loop {lit}`while (attempts--)`, with 1 when the function returns from it. -/
def attemptsLoop (failures : PortFailures) (c : UInt8) : Nat → Ports → Int × Ports
  | 0, ports => (0, ports)
  | attempts + 1, ports =>
      match spGetStatus failures ports with
      | (none, ports) => (1, ports)
      | (some status, ports) =>
          if bitSet status.toUInt32 5 then (0, writeThr failures 0x3f8 c ports)
          else attemptsLoop failures c attempts ports

/-- The ports, the queue, and the value returned from inside the loop. -/
structure Sending where
  ports : Ports
  queue : Queue
  result : Option Int

/-- The loop of {lit}`sp_send_int` goes on. -/
def Sending.running (s : Sending) : Bool := s.result.isNone && !s.queue.empty

/-- The value that {lit}`sp_send_int` returns. -/
def Sending.returned (s : Sending) : Int := s.result.getD 0

/-- One iteration of the loop of {lit}`sp_send_int`. -/
def sendStep (failures : PortFailures) (base : UInt16) (s : Sending) : Sending :=
  match readIir failures s.ports with
  | (false, ports) => { s with ports := ports, result := some 1 }
  | (true, ports) =>
      match readLsr failures base ports with
      | (none, ports) => { s with ports := ports, result := some 1 }
      | (some lsr, ports) =>
          if bitSet lsr 5 then
            if s.queue.empty then { s with ports := ports, result := some 0 }
            else
              match attemptsLoop failures s.queue.top 10 ports with
              | (0, ports) => { s with ports := ports, queue := s.queue.pop }
              | (_, ports) => { s with ports := ports, result := some 1 }
          else { s with ports := ports }

/-- The loops of {lit}`sp_send_int` on a new queue. -/
def sendLoop (failures : PortFailures) (base : UInt16) (string : List UInt8)
    (memory : Fin bufferSize → UInt8) (ports : Ports) (fuel : Nat) : Option Sending :=
  whileLoop Sending.running (fun s => some (sendStep failures base s)) fuel
    ⟨ports, string.foldl (fun queue c => (queue.push c).1) (Queue.new memory), none⟩

/-- {lit}`sp_send_int`, with the {lit}`stringc` bytes of the string: the ports afterwards and the
value returned.  The buffer of the new queue may hold anything, or be missing. -/
def spSendInt (failures : PortFailures) (base : UInt16) (string : List UInt8)
    (memory : Option (Fin bufferSize → UInt8)) (ports : Ports) (fuel : Nat) :
    Option (Ports × Int) :=
  match memory with
  -- nothing is pushed onto a null queue, and it counts as empty
  | none => some (ports, 0)
  | some memory =>
      (sendLoop failures base string memory ports fuel).map fun s => (s.ports, s.returned)

/-- The loop goes on while nothing is returned and the queue holds a byte. -/
theorem Sending.running_iff (s : Sending) :
    s.running = true ↔ s.result = none ∧ s.queue.empty = false := by
  rw [Sending.running, Bool.and_eq_true, Option.isNone_iff_eq_none, Bool.not_eq_true']

/-! ## Bit 5 of the line status -/

theorem bitSet_five (value : UInt32) : bitSet value 5 = value.toNat.testBit 5 := by
  have hbit : (1 : UInt32) <<< 5 = 0x20 := by decide
  have hand : (value &&& 0x20).toNat = value.toNat &&& 2 ^ 5 := UInt32.toNat_and value 0x20
  simp only [bitSet, hbit, ne_eq, ← UInt32.toNat_inj, hand, Nat.and_two_pow]
  cases value.toNat.testBit 5 <;> simp

/-- The bit tells whether the port is busy. -/
@[simp]
theorem bitSet_lineStatus (uart : Uart) : bitSet uart.lineStatus 5 = (uart.busy = 0 : Bool) := by
  unfold Uart.lineStatus
  rw [bitSet_five]
  split_ifs with hbusy
  · rw [UInt32.toNat_or, Nat.testBit_or, decide_eq_true hbusy, Bool.or_eq_true]
    exact Or.inr (by decide)
  · rw [UInt32.toNat_and, Nat.testBit_and, decide_eq_false hbusy, Bool.and_eq_false_iff]
    exact Or.inr (by decide)

/-- It lies in the byte that {lit}`util_sys_inb` stores. -/
@[simp]
theorem bitSet_toUInt8 (value : UInt32) : bitSet value.toUInt8.toUInt32 5 = bitSet value 5 := by
  have hlow : value.toUInt8.toUInt32.toNat = value.toNat % 2 ^ 8 := by simp
  rw [bitSet_five, bitSet_five, hlow, Nat.testBit_mod_two_pow]
  rfl

/-! ## One iteration -/

/-- What an iteration can do: fail at a read, find the port busy, or take a byte off the queue,
which the port gets if it is the first one and the write succeeds. -/
inductive SendProgress (failures : PortFailures) (base : UInt16) (s t : Sending) : Prop
  | failed (n : Nat) (hread : failures.read n = true) (hresult : t.result = some 1)
  | waits (hresult : t.result = none) (hqueue : t.queue = s.queue)
      (hbusy : (s.ports.uart base).busy ≠ 0)
      (huart : t.ports.uart base = (s.ports.uart base).polled)
      (hwrites : t.ports.writes = s.ports.writes)
  | sends (hresult : t.result = none) (hqueue : t.queue = s.queue.pop)
      (hidle : (s.ports.uart base).busy = 0)
      (hfirst : base = 0x3f8 ∧ failures.write s.ports.writes = false)
      (hdelays : (t.ports.uart base).delays = (s.ports.uart base).delays)
      (hwritten : (t.ports.uart base).written = (s.ports.uart base).written ++ [s.queue.top])
      (hbusy : (t.ports.uart base).busy =
        (s.ports.uart base).delays (s.ports.uart base).written.length)
      (hwrites : t.ports.writes = s.ports.writes + 1)
  | drops (hresult : t.result = none) (hqueue : t.queue = s.queue.pop)
      (hidle : (s.ports.uart base).busy = 0)
      (hlost : ¬(base = 0x3f8 ∧ failures.write s.ports.writes = false))
      (hdelays : (t.ports.uart base).delays = (s.ports.uart base).delays)
      (hwritten : (t.ports.uart base).written = (s.ports.uart base).written)
      (hbusy : (t.ports.uart base).busy = 0)
      (hwrites : base = 0x3f8 → t.ports.writes = s.ports.writes + 1)

/-- One attempt. -/
theorem attemptsLoop_succ (failures : PortFailures) (c : UInt8) (attempts : Nat)
    (ports : Ports) :
    attemptsLoop failures c (attempts + 1) ports =
      if failures.read ports.reads then (1, ports.countRead)
      else if (ports.uart 0x3f8).busy = 0 then
        (0, writeThr failures 0x3f8 c (ports.poll 0x3f8))
      else attemptsLoop failures c attempts (ports.poll 0x3f8) := by
  rw [attemptsLoop, spGetStatus, readLsr]
  cases failures.read ports.reads with
  | true => rfl
  | false =>
      simp only [Bool.false_eq_true, if_false, Option.map_some, bitSet_toUInt8,
        bitSet_lineStatus, decide_eq_true_eq]

/-- One iteration. -/
theorem sendStep_of_running (failures : PortFailures) (base : UInt16) {s : Sending}
    (hrun : s.running = true) :
    sendStep failures base s =
      if failures.read s.ports.reads then
        { s with ports := s.ports.countRead, result := some 1 }
      else if failures.read (s.ports.reads + 1) then
        { s with ports := s.ports.countRead.countRead, result := some 1 }
      else if (s.ports.uart base).busy = 0 then
        match attemptsLoop failures s.queue.top 10 (s.ports.countRead.poll base) with
        | (0, ports) => { s with ports := ports, queue := s.queue.pop }
        | (_, ports) => { s with ports := ports, result := some 1 }
      else { s with ports := s.ports.countRead.poll base } := by
  have hempty := (s.running_iff.mp hrun).2
  have hreads : s.ports.countRead.reads = s.ports.reads + 1 := rfl
  have huart : s.ports.countRead.uart = s.ports.uart := rfl
  unfold sendStep readIir readLsr
  cases failures.read s.ports.reads with
  | true => rfl
  | false =>
      simp only [Bool.not_false, hreads, huart]
      cases failures.read (s.ports.reads + 1) with
      | true => rfl
      | false =>
          simp only [Bool.false_eq_true, if_false, bitSet_lineStatus, decide_eq_true_eq, hempty]

/-- The attempts do not touch the second port. -/
theorem attemptsLoop_of_ne {base : UInt16} (hbase : base ≠ 0x3f8) (failures : PortFailures)
    (c : UInt8) (attempts : Nat) (ports : Ports) :
    (attemptsLoop failures c attempts ports).2.uart base = ports.uart base ∧
      ((attemptsLoop failures c attempts ports).1 = 0 ∨
        (attemptsLoop failures c attempts ports).1 = 1 ∧ ∃ n, failures.read n = true) := by
  have hpoll : ∀ ports : Ports, (ports.poll 0x3f8).uart base = ports.uart base :=
    fun ports => Function.update_of_ne hbase _ _
  induction attempts generalizing ports with
  | zero => exact ⟨rfl, Or.inl rfl⟩
  | succ attempts ih =>
      rw [attemptsLoop_succ]
      split_ifs with hread hidle
      · exact ⟨rfl, Or.inr ⟨rfl, ports.reads, hread⟩⟩
      · refine ⟨?_, Or.inl rfl⟩
        unfold writeThr
        split_ifs
        · exact hpoll ports
        · exact (Function.update_of_ne hbase _ _).trans (hpoll ports)
      · rcases ih (ports.poll 0x3f8) with ⟨huart, hresult⟩
        exact ⟨huart.trans (hpoll ports), hresult⟩

/-- An iteration that leaves the port as the polls did takes a byte off the queue in vain. -/
theorem SendProgress.of_drop {failures : PortFailures} {base : UInt16} {s : Sending}
    {ports : Ports} (hresult : s.result = none) (hidle : (s.ports.uart base).busy = 0)
    (hlost : ¬(base = 0x3f8 ∧ failures.write s.ports.writes = false))
    (huart : ports.uart base = (s.ports.uart base).polled ∨
      ports.uart base = (s.ports.uart base).polled.polled)
    (hwrites : base = 0x3f8 → ports.writes = s.ports.writes + 1) :
    SendProgress failures base s { s with ports := ports, queue := s.queue.pop } := by
  refine .drops hresult rfl hidle hlost ?_ ?_ ?_ hwrites
  · rcases huart with huart | huart <;> rw [huart] <;> rfl
  · rcases huart with huart | huart <;> rw [huart] <;> rfl
  · rcases huart with huart | huart <;> simp [huart, Uart.polled, hidle]

/-- An iteration in which the first port accepts the byte. -/
theorem SendProgress.of_send {failures : PortFailures} {s : Sending} {ports : Ports}
    (hresult : s.result = none) (hidle : (s.ports.uart 0x3f8).busy = 0)
    (hwrite : failures.write s.ports.writes = false)
    (huart : ports.uart 0x3f8 = (s.ports.uart 0x3f8).polled.polled.accept s.queue.top)
    (hwrites : ports.writes = s.ports.writes + 1) :
    SendProgress failures 0x3f8 s { s with ports := ports, queue := s.queue.pop } := by
  refine .sends hresult rfl hidle ⟨rfl, hwrite⟩ ?_ ?_ ?_ hwrites
  · rw [huart]
    rfl
  · rw [huart]
    rfl
  · rw [huart]
    rfl

/-- The first port is written at the first attempt. -/
theorem attempts_progress {failures : PortFailures} {s : Sending} (hresult : s.result = none)
    (hidle : (s.ports.uart 0x3f8).busy = 0) :
    SendProgress failures 0x3f8 s
      { s with
        ports := writeThr failures 0x3f8 s.queue.top
          ((s.ports.countRead.poll 0x3f8).poll 0x3f8)
        queue := s.queue.pop } := by
  have hpolls : ((s.ports.countRead.poll 0x3f8).poll 0x3f8).uart 0x3f8 =
      (s.ports.uart 0x3f8).polled.polled := by
    unfold Ports.poll
    simp only [Function.update_self]
    rfl
  have hwrites : ((s.ports.countRead.poll 0x3f8).poll 0x3f8).writes = s.ports.writes := rfl
  cases hwrite : failures.write s.ports.writes with
  | true =>
      have hthr : writeThr failures 0x3f8 s.queue.top
          ((s.ports.countRead.poll 0x3f8).poll 0x3f8) = _ :=
        if_pos (by rw [hwrites, hwrite])
      rw [hthr]
      exact .of_drop hresult hidle (by simp [hwrite]) (Or.inr hpolls) fun _ => rfl
  | false =>
      have hthr : writeThr failures 0x3f8 s.queue.top
          ((s.ports.countRead.poll 0x3f8).poll 0x3f8) = _ :=
        if_neg (by rw [hwrites, hwrite]; exact Bool.false_ne_true)
      rw [hthr]
      refine .of_send hresult hidle hwrite ?_ rfl
      dsimp only
      rw [← hpolls, Function.update_self]

/-- Every iteration fails, waits, or takes a byte off the queue. -/
theorem sendStep_progress (failures : PortFailures) (base : UInt16) {s : Sending}
    (hrun : s.running = true) : SendProgress failures base s (sendStep failures base s) := by
  have hresult := (s.running_iff.mp hrun).1
  have hpolled : (s.ports.countRead.poll base).uart base = (s.ports.uart base).polled :=
    Function.update_self _ _ _
  rw [sendStep_of_running failures base hrun]
  split_ifs with hiir hlsr hidle
  · exact .failed _ hiir rfl
  · exact .failed _ hlsr rfl
  · by_cases hbase : base = 0x3f8
    · subst hbase
      have hstill : ((s.ports.countRead.poll 0x3f8).uart 0x3f8).busy = 0 := by
        rw [hpolled, Uart.polled, hidle]
      rw [attemptsLoop_succ, if_pos hstill]
      split_ifs with hread
      · exact .failed _ hread rfl
      · exact attempts_progress hresult hidle
    · rcases attemptsLoop_of_ne hbase failures s.queue.top 10 (s.ports.countRead.poll base) with
        ⟨huart, hreturned⟩
      rw [hpolled] at huart
      generalize attemptsLoop failures s.queue.top 10 (s.ports.countRead.poll base) = attempts
        at huart hreturned
      rcases attempts with ⟨returned, ports⟩
      rcases hreturned with rfl | ⟨rfl, n, hread⟩
      · exact .of_drop hresult hidle (fun h => hbase h.1) (Or.inl huart) fun h => absurd h hbase
      · exact .failed n hread rfl
  · exact .waits hresult rfl hidle hpolled rfl

/-! ## Whole runs -/

/-- The bytes of which the writes, from the {lit}`n`-th on, succeed. -/
def delivered (writeFails : Nat → Bool) : Nat → List UInt8 → List UInt8
  | _, [] => []
  | n, c :: string =>
      if writeFails n then delivered writeFails (n + 1) string
      else c :: delivered writeFails (n + 1) string

/-- The bytes that reach the port at {lit}`base`. -/
def reaching (writeFails : Nat → Bool) (base : UInt16) (n : Nat) (string : List UInt8) :
    List UInt8 :=
  if base = 0x3f8 then delivered writeFails n string else []

/-- The polls that find bit 5 clear until the queue is empty, and the bytes in it. -/
def pollsLeft (base : UInt16) (s : Sending) : Nat :=
  let uart := s.ports.uart base
  uart.busy +
    ∑ n ∈ Finset.range s.queue.contents.length, (uart.delays (uart.written.length + n) + 1)

/-- The work left, with the reading of the result. -/
def workLeft (base : UInt16) (s : Sending) : Nat :=
  if s.result.isSome then 0 else pollsLeft base s + 1

/-- While the loop runs, the queue holds a byte. -/
theorem Sending.contents_of_running {s : Sending} (hrun : s.running = true) :
    s.queue.contents = s.queue.top :: s.queue.pop.contents :=
  (Queue.top_cons_pop (s.running_iff.mp hrun).2).symm

/-- Every iteration uses up work. -/
theorem workLeft_sendStep (failures : PortFailures) (base : UInt16) {s : Sending}
    (hrun : s.running = true) :
    workLeft base (sendStep failures base s) < workLeft base s := by
  have hcontents := Sending.contents_of_running hrun
  have hlength : s.queue.contents.length = s.queue.pop.contents.length + 1 := by
    rw [hcontents, List.length_cons]
  have hresult : s.result.isSome = false := by
    rw [(s.running_iff.mp hrun).1]
    rfl
  unfold workLeft
  rw [hresult]
  cases sendStep_progress failures base hrun with
  | failed n hread hresult => simp [hresult]
  | waits hresult hqueue hbusy huart hwrites =>
      simp only [hresult, pollsLeft, hqueue, huart, Uart.polled, Option.isSome_none]
      simp only [Bool.false_eq_true, if_false]
      omega
  | sends hresult hqueue hidle hfirst hdelays hwritten hbusy hwrites =>
      -- the delay after this byte is the first summand
      simp only [hresult, pollsLeft, hqueue, hidle, hdelays, hwritten, hbusy, hlength,
        Option.isSome_none, Finset.sum_range_succ', List.length_append, List.length_singleton,
        Nat.add_zero, Nat.add_assoc, Nat.add_comm 1]
      simp only [Bool.false_eq_true, if_false]
      omega
  | drops hresult hqueue hidle hlost hdelays hwritten hbusy hwrites =>
      simp only [hresult, pollsLeft, hqueue, hidle, hdelays, hwritten, hbusy, hlength,
        Option.isSome_none, Finset.sum_range_succ]
      simp only [Bool.false_eq_true, if_false]
      omega

/-- For every string and all timings the loops end. -/
theorem sendLoop_terminates (failures : PortFailures) (base : UInt16) (string : List UInt8)
    (memory : Fin bufferSize → UInt8) (ports : Ports) :
    ∃ fuel s, sendLoop failures base string memory ports fuel = some s := by
  have hstep : ∀ s : Sending, True → s.running = true →
      ∃ t, some (sendStep failures base s) = some t ∧ True ∧ workLeft base t < workLeft base s :=
    fun s _ hrun => ⟨_, rfl, trivial, workLeft_sendStep failures base hrun⟩
  rcases whileLoop_total hstep trivial (Nat.le_refl _) with ⟨s, hs, -, -⟩
  exact ⟨_, s, hs⟩

/-- Between iterations, the bytes written and those of the queue that will be are
{lit}`total`. -/
def Sent (failures : PortFailures) (base : UInt16) (total : List UInt8) (s : Sending) : Prop :=
  (s.result = some 1 ∧ ∃ n, failures.read n = true) ∨
    (s.result = none ∧ (s.ports.uart base).written ++
      reaching failures.write base s.ports.writes s.queue.contents = total)

/-- Every iteration keeps them. -/
theorem sent_sendStep {failures : PortFailures} {base : UInt16} {total : List UInt8}
    {s : Sending} (hs : Sent failures base total s) (hrun : s.running = true) :
    Sent failures base total (sendStep failures base s) := by
  have hcontents := Sending.contents_of_running hrun
  rcases hs with ⟨hresult, -⟩ | ⟨-, htotal⟩
  · have hnone := (s.running_iff.mp hrun).1
    rw [hresult] at hnone
    exact absurd hnone (Option.some_ne_none 1)
  · rw [hcontents] at htotal
    cases sendStep_progress failures base hrun with
    | failed n hread hresult => exact Or.inl ⟨hresult, n, hread⟩
    | waits hresult hqueue hbusy huart hwrites =>
        refine Or.inr ⟨hresult, ?_⟩
        rw [huart, hqueue, hwrites, hcontents]
        exact htotal
    | sends hresult hqueue hidle hfirst hdelays hwritten hbusy hwrites =>
        refine Or.inr ⟨hresult, ?_⟩
        rw [reaching, if_pos hfirst.1, delivered, hfirst.2] at htotal
        rw [hqueue, hwritten, hwrites, reaching, if_pos hfirst.1, List.append_assoc]
        exact htotal
    | drops hresult hqueue hidle hlost hdelays hwritten hbusy hwrites =>
        refine Or.inr ⟨hresult, ?_⟩
        rw [hqueue, hwritten]
        by_cases hbase : base = 0x3f8
        · have hwrite : failures.write s.ports.writes = true := by
            rw [← Bool.not_eq_false]
            exact fun h => hlost ⟨hbase, h⟩
          rw [reaching, if_pos hbase, delivered, hwrite, if_pos rfl] at htotal
          rw [hwrites hbase, reaching, if_pos hbase]
          exact htotal
        · rw [reaching, if_neg hbase] at htotal ⊢
          exact htotal

/-- When the loops end without a failed read, the port has got those of the first
{lit}`BUFFER_SIZE` bytes that reach it, and the queue is empty. -/
theorem sendLoop_written {failures : PortFailures} {base : UInt16} {string : List UInt8}
    {memory : Fin bufferSize → UInt8} {ports : Ports} {fuel : Nat} {s : Sending}
    (h : sendLoop failures base string memory ports fuel = some s) :
    (s.returned = 1 ∧ ∃ n, failures.read n = true) ∨
      (s.returned = 0 ∧ (s.ports.uart base).written = (ports.uart base).written ++
        reaching failures.write base ports.writes (string.take bufferSize) ∧
        s.queue.contents = []) := by
  have hstep : ∀ s t, Sent failures base ((ports.uart base).written ++
        reaching failures.write base ports.writes (string.take bufferSize)) s →
      s.running = true → some (sendStep failures base s) = some t →
      Sent failures base ((ports.uart base).written ++
        reaching failures.write base ports.writes (string.take bufferSize)) t := by
    intro s t hs hrun heq
    rw [Option.some.injEq] at heq
    exact heq ▸ sent_sendStep hs hrun
  have hqueue : (string.foldl (fun queue c => (queue.push c).1) (Queue.new memory)).contents =
      string.take bufferSize := by
    rw [Queue.contents_foldl_push, Queue.contents_new, List.nil_append]
  rcases whileLoop_invariant hstep (Or.inr ⟨rfl, by rw [hqueue]⟩) h with ⟨hsent, hstop⟩
  rcases hsent with ⟨hresult, hread⟩ | ⟨hresult, htotal⟩
  · exact Or.inl ⟨by rw [Sending.returned, hresult]; rfl, hread⟩
  · refine Or.inr ⟨by rw [Sending.returned, hresult]; rfl, ?_⟩
    have hempty : s.queue.contents = [] := by
      rw [Sending.running, hresult] at hstop
      simpa using hstop
    have hnothing : reaching failures.write base s.ports.writes [] = [] := by
      unfold reaching delivered
      split_ifs <;> rfl
    rw [hempty, hnothing, List.append_nil] at htotal
    exact ⟨htotal, hempty⟩

/-! ## The whole string -/

theorem length_delivered_le (writeFails : Nat → Bool) (n : Nat) (string : List UInt8) :
    (delivered writeFails n string).length ≤ string.length := by
  induction string generalizing n with
  | nil => exact Nat.le_refl 0
  | cons c string ih =>
      have hrest := ih (n + 1)
      rw [delivered, List.length_cons]
      split_ifs
      · omega
      · rw [List.length_cons]
        omega

/-- All bytes are delivered exactly if none of their writes fails. -/
theorem delivered_eq_iff (writeFails : Nat → Bool) (n : Nat) (string : List UInt8) :
    delivered writeFails n string = string ↔
      ∀ k < string.length, writeFails (n + k) = false := by
  induction string generalizing n with
  | nil => exact iff_of_true rfl fun k hk => absurd hk (Nat.not_lt_zero k)
  | cons c string ih =>
      rw [List.length_cons, Nat.forall_lt_succ_left, delivered]
      cases hwrite : writeFails n with
      | true =>
          have hshort := length_delivered_le writeFails (n + 1) string
          rw [if_pos rfl]
          refine iff_of_false (fun h => ?_) fun h => ?_
          · rw [h, List.length_cons] at hshort
            omega
          · exact absurd h.1.symm Bool.false_ne_true
      | false =>
          have hshift : ∀ k, n + 1 + k = n + (k + 1) := fun k => by omega
          rw [if_neg Bool.false_ne_true, List.cons.injEq, and_iff_right rfl, ih,
            and_iff_right rfl]
          exact forall₂_congr fun k _ => by rw [hshift]

/-- A whole string reaches the first port if it fits the queue and all writes succeed, and none
but the empty one otherwise. -/
theorem reaching_eq_iff (writeFails : Nat → Bool) (base : UInt16) (n : Nat)
    (string : List UInt8) :
    reaching writeFails base n (string.take bufferSize) = string ↔
      string = [] ∨ (base = 0x3f8 ∧ string.length ≤ bufferSize ∧
        ∀ k < string.length, writeFails (n + k) = false) := by
  by_cases hempty : string = []
  · subst hempty
    refine iff_of_true ?_ (Or.inl rfl)
    unfold reaching
    split_ifs <;> rfl
  · rw [or_iff_right hempty]
    by_cases hbase : base = 0x3f8
    · rw [reaching, if_pos hbase, and_iff_right hbase]
      by_cases hfits : string.length ≤ bufferSize
      · rw [List.take_of_length_le hfits, delivered_eq_iff, and_iff_right hfits]
      · refine iff_of_false (fun h => hfits ?_) fun h => hfits h.1
        have hshort := length_delivered_le writeFails n (string.take bufferSize)
        rw [h] at hshort
        exact hshort.trans (List.length_take_le _ _)
    · rw [reaching, if_neg hbase]
      exact iff_of_false (fun h => hempty h.symm) fun h => hbase h.1

/-- {lit}`sp_send_int` terminates and, whenever it returns 0, whatever the reads do, the bytes
written to the port at {lit}`base_addr` are the string, each once and in order. -/
def SendsWhole (writeFails : Nat → Bool) (base : UInt16) (string : List UInt8)
    (memory : Option (Fin bufferSize → UInt8)) (ports : Ports) : Prop :=
  ∀ readFails, ∃ fuel ports' result,
    spSendInt ⟨readFails, writeFails⟩ base string memory ports fuel = some (ports', result) ∧
      (result = 0 → (ports'.uart base).written = (ports.uart base).written ++ string)

/-- Without a queue only the empty string is sent. -/
theorem sendsWhole_none_iff (writeFails : Nat → Bool) (base : UInt16) (string : List UInt8)
    (ports : Ports) : SendsWhole writeFails base string none ports ↔ string = [] := by
  constructor
  · intro h
    rcases h fun _ => false with ⟨fuel, ports', result, hrun, hwhole⟩
    obtain ⟨rfl, rfl⟩ := Prod.mk.inj (Option.some.inj hrun)
    exact List.self_eq_append_right.mp (hwhole rfl)
  · rintro rfl readFails
    exact ⟨0, ports, 0, rfl, fun _ => (List.append_nil _).symm⟩

/-- With one, the string is sent exactly if all of it reaches the port. -/
theorem sendsWhole_some_iff (writeFails : Nat → Bool) (base : UInt16) (string : List UInt8)
    (memory : Fin bufferSize → UInt8) (ports : Ports) :
    SendsWhole writeFails base string (some memory) ports ↔
      reaching writeFails base ports.writes (string.take bufferSize) = string := by
  constructor
  · intro h
    rcases h fun _ => false with ⟨fuel, ports', result, hrun, hwhole⟩
    rcases Option.map_eq_some_iff.mp hrun with ⟨s, hloop, hs⟩
    obtain ⟨rfl, rfl⟩ := Prod.mk.inj hs
    rcases sendLoop_written hloop with ⟨-, n, hread⟩ | ⟨hreturned, hwritten, -⟩
    · exact absurd hread Bool.false_ne_true
    · exact List.append_cancel_left (hwritten.symm.trans (hwhole hreturned))
  · intro h readFails
    rcases sendLoop_terminates ⟨readFails, writeFails⟩ base string memory ports with
      ⟨fuel, s, hloop⟩
    refine ⟨fuel, s.ports, s.returned, by rw [spSendInt, hloop]; rfl, fun hreturned => ?_⟩
    rcases sendLoop_written hloop with ⟨hfailed, -⟩ | ⟨-, hwritten, -⟩
    · rw [hreturned] at hfailed
      exact absurd hfailed (by decide)
    · rw [hwritten, h]

/-- For every string, all timings and all contents of memory, {lit}`sp_send_int` sends its whole
string exactly if the string is empty, or the queue was allocated, the port is the first one, at
most {lit}`BUFFER_SIZE` bytes are to be sent and none of the writes of them fails. -/
theorem spSendInt_sends_whole_iff (writeFails : Nat → Bool) (base : UInt16)
    (string : List UInt8) (memory : Option (Fin bufferSize → UInt8)) (ports : Ports) :
    SendsWhole writeFails base string memory ports ↔
      string = [] ∨ (memory.isSome ∧ base = 0x3f8 ∧ string.length ≤ bufferSize ∧
        ∀ k < string.length, writeFails (ports.writes + k) = false) := by
  cases memory with
  | none =>
      rw [sendsWhole_none_iff]
      exact (or_iff_left fun h => Bool.false_ne_true h.1).symm
  | some memory =>
      rw [sendsWhole_some_iff, reaching_eq_iff, Option.isSome_some, and_iff_right rfl]

/-- Two ports that are always ready. -/
def readyPorts : Ports := ⟨fun _ => ⟨0, fun _ => 0, fun _ => 0, 0, []⟩, 0, 0⟩

/-- The second port gets no byte of {lit}`"M"`. -/
theorem spSendInt_second_port :
    ¬SendsWhole (fun _ => false) 0x2f8 [0x4d] (some fun _ => 0) readyPorts := by
  rw [sendsWhole_some_iff]
  decide

end LCOMaze
