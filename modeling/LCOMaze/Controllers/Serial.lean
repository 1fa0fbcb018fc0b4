import LCOMaze.DataStructures.Queue

/-!
# The serial port of {lit}`serial.c`

An interrupt handler reads and writes ports, and any access may fail.  The outcomes
of the accesses of one call form a script that is consumed in the order of the code;
an access beyond its end fails.

Main results:

- Theorem {lit}`serIh_receiveQueue`: the receive queue gains the bytes read, as far as
  they fit.
- Theorem {lit}`receive_spec`: on an empty queue the variable becomes the first byte
  read and stays as it was when there is none.
- Theorem {lit}`bytesRead_uartReads`: a port with pending bytes hands over all of them.
-/

namespace LCOMaze

/-! ## Port accesses -/

/-- The outcome of {lit}`sys_inb` or {lit}`sys_outb`: whether it succeeded, and what the
variable read into holds afterwards, which may be anything after a failure. -/
structure PortAccess where
  ok : Bool
  value : UInt32
deriving DecidableEq, Repr

/-- The value that {lit}`util_sys_inb` stores; it is stored after a failure too. -/
def PortAccess.lsb (access : PortAccess) : UInt8 := access.value.toUInt8

/-- The outcomes of the accesses of one call, in order. -/
abbrev PortScript := List PortAccess

/-- {lit}`(value & BIT(n)) != 0`. -/
def bitSet (value : UInt32) (n : UInt32) : Bool := value &&& (1 <<< n) ≠ 0

/-! ## The interrupt handler -/

/-- The two queues of the port. -/
structure SerialPort where
  transmitQueue : Queue
  receiveQueue : Queue

/-- The loop of the transmitter branch, with the bytes written so far. -/
def transmitLoop : PortScript → UInt32 → Queue → List UInt8 → Queue × List UInt8 × Int
  | ports, lsr, queue, written =>
      if bitSet lsr 5 && !queue.empty then
        match ports with
        | [] => (queue, written, 1)
        | [out] =>
            if out.ok then (queue.pop, written ++ [queue.top], 1) else (queue, written, 1)
        | out :: status :: rest =>
            if out.ok then
              if status.ok then
                transmitLoop rest status.value queue.pop (written ++ [queue.top])
              else (queue.pop, written ++ [queue.top], 1)
            else (queue, written, 1)
      else (queue, written, 0)

/-- The loop of the receiver branch. -/
def receiveLoop : PortScript → UInt32 → Queue → Queue × Int
  | ports, lsr, queue =>
      if bitSet lsr 0 then
        match ports with
        | [] => (queue, 1)
        | [c] => if c.ok then ((queue.push c.lsb).1, 1) else (queue, 1)
        | c :: status :: rest =>
            if c.ok then
              if status.ok then receiveLoop rest status.value (queue.push c.lsb).1
              else ((queue.push c.lsb).1, 1)
            else (queue, 1)
      else (queue, 0)

/-- {lit}`ser_ih`: the queues, the bytes written to the port and the return value. -/
def serIh (ports : PortScript) (port : SerialPort) : SerialPort × List UInt8 × Int :=
  match ports with
  | [] => (port, [], 1)
  | iir :: ports =>
      if !iir.ok then (port, [], 1)
      else if bitSet iir.value 0 then (port, [], 0)
      else
        match ports with
        | [] => (port, [], 1)
        | lsr :: ports =>
            if !lsr.ok then (port, [], 1)
            else if bitSet iir.value 1 then
              let (queue, written, result) := transmitLoop ports lsr.value port.transmitQueue []
              ({ port with transmitQueue := queue }, written, result)
            else if bitSet iir.value 2 then
              let (queue, result) := receiveLoop ports lsr.value port.receiveQueue
              ({ port with receiveQueue := queue }, [], result)
            else (port, [], 0)

/-- {lit}`receive`: the queues, the bytes written to the port and the variable. -/
def receive (ports : PortScript) (port : SerialPort) (c : UInt8) :
    SerialPort × List UInt8 × UInt8 :=
  let (port, written, _) := serIh ports port
  if port.receiveQueue.empty then (port, written, c)
  else
    ({ port with receiveQueue := port.receiveQueue.pop }, written, port.receiveQueue.top)

/-- {lit}`clear_receive_queue`. -/
def clearReceiveQueue (port : SerialPort) : SerialPort :=
  { port with receiveQueue := port.receiveQueue.popAll }

/-! ## What a script hands over -/

/-- The bytes read successfully in the receiver branch. -/
def rbrBytes : PortScript → UInt32 → List UInt8
  | ports, lsr =>
      if bitSet lsr 0 then
        match ports with
        | [] => []
        | [c] => if c.ok then [c.lsb] else []
        | c :: status :: rest =>
            if c.ok then c.lsb :: (if status.ok then rbrBytes rest status.value else []) else []
      else []

/-- The bytes that {lit}`ser_ih` reads from the receiver. -/
def bytesRead : PortScript → List UInt8
  | iir :: lsr :: ports =>
      if iir.ok && !bitSet iir.value 0 && lsr.ok && !bitSet iir.value 1 && bitSet iir.value 2 then
        rbrBytes ports lsr.value
      else []
  | _ => []

/-- The accesses of a receiver with these bytes pending, from the first read of the
line status on. -/
def uartStatus : List UInt8 → PortScript
  | [] => [⟨true, 0⟩]
  | byte :: bytes => ⟨true, 1⟩ :: ⟨true, byte.toUInt32⟩ :: uartStatus bytes

/-- A receiver interrupt with these bytes pending, all accesses succeeding. -/
def uartReads (bytes : List UInt8) : PortScript := ⟨true, 4⟩ :: uartStatus bytes

/-- The bytes pending are the bytes read. -/
@[simp]
theorem bytesRead_uartReads (bytes : List UInt8) : bytesRead (uartReads bytes) = bytes := by
  have hbits : bitSet 4 0 = false ∧ bitSet 4 1 = false ∧ bitSet 4 2 = true ∧
      bitSet 0 0 = false ∧ bitSet 1 0 = true := by decide
  rcases hbits with ⟨hpending, htransmit, hreceive, hidle, hready⟩
  have hstatus : ∀ bytes : List UInt8, ∃ lsr ports, uartStatus bytes = ⟨true, lsr⟩ :: ports ∧
      rbrBytes ports lsr = bytes := by
    intro bytes
    induction bytes with
    | nil => exact ⟨0, [], rfl, by simp [rbrBytes, hidle]⟩
    | cons byte bytes ih =>
        rcases ih with ⟨lsr, ports, heq, hread⟩
        refine ⟨1, ⟨true, byte.toUInt32⟩ :: uartStatus bytes, rfl, ?_⟩
        rw [heq]
        simp [rbrBytes, hready, hread, PortAccess.lsb]
  rcases hstatus bytes with ⟨lsr, ports, heq, hread⟩
  rw [uartReads, heq]
  simp [bytesRead, hpending, htransmit, hreceive, hread]

/-! ## The queues after the handler -/

/-- Each byte read is appended as long as there is room. -/
theorem receiveLoop_contents (ports : PortScript) (lsr : UInt32) (queue : Queue) :
    (receiveLoop ports lsr queue).1.contents =
      (queue.contents ++ rbrBytes ports lsr).take bufferSize := by
  have hkeep : ∀ queue : Queue, queue.contents = (queue.contents ++ []).take bufferSize := by
    intro queue
    rw [List.append_nil, Queue.take_contents]
  have hone : ∀ (queue : Queue) (c : UInt8),
      (queue.push c).1.contents = (queue.contents ++ [c]).take bufferSize := by
    intro queue c
    rw [← Queue.take_contents_push, ← hkeep]
  fun_induction receiveLoop ports lsr queue with
  | case1 lsr queue hready =>
      rw [rbrBytes, if_pos hready]
      exact hkeep queue
  | case2 lsr queue hready c hc =>
      rw [rbrBytes, if_pos hready]
      simp only [if_pos hc]
      exact hone queue c.lsb
  | case3 lsr queue hready c hc =>
      rw [rbrBytes, if_pos hready]
      simp only [if_neg hc]
      exact hkeep queue
  | case4 lsr queue hready c status rest hc hstatus ih =>
      rw [ih, Queue.take_contents_push, rbrBytes, if_pos hready]
      simp only [if_pos hc, if_pos hstatus]
  | case5 lsr queue hready c status rest hc hstatus =>
      rw [rbrBytes, if_pos hready]
      simp only [if_pos hc, if_neg hstatus]
      exact hone queue c.lsb
  | case6 lsr queue hready c status rest hc =>
      rw [rbrBytes, if_pos hready]
      simp only [if_neg hc]
      exact hkeep queue
  | case7 ports lsr queue hready =>
      have hnone : rbrBytes ports lsr = [] := by
        rw [rbrBytes.eq_def]
        exact if_neg hready
      rw [hnone]
      exact hkeep queue

/-- The receive queue gains the bytes read, as far as they fit. -/
theorem serIh_receiveQueue (ports : PortScript) (port : SerialPort) :
    (serIh ports port).1.receiveQueue.contents =
      (port.receiveQueue.contents ++ bytesRead ports).take bufferSize := by
  have hkeep : port.receiveQueue.contents =
      (port.receiveQueue.contents ++ []).take bufferSize := by
    rw [List.append_nil, Queue.take_contents]
  cases ports with
  | nil => exact hkeep
  | cons iir ports =>
      cases ports with
      | nil =>
          simp only [serIh, bytesRead]
          split_ifs <;> exact hkeep
      | cons lsr ports =>
          simp only [serIh, bytesRead]
          cases hiir : iir.ok with
          | false => exact hkeep
          | true =>
              cases hpending : bitSet iir.value 0 with
              | true => exact hkeep
              | false =>
                  cases hlsr : lsr.ok with
                  | false => exact hkeep
                  | true =>
                      cases htransmit : bitSet iir.value 1 with
                      | true => exact hkeep
                      | false =>
                          cases hreceive : bitSet iir.value 2 with
                          | true => exact receiveLoop_contents ports lsr.value _
                          | false => exact hkeep

/-- Without anything to transmit nothing is written. -/
theorem transmitLoop_of_empty {queue : Queue} (h : queue.contents = []) (ports : PortScript)
    (lsr : UInt32) : transmitLoop ports lsr queue [] = (queue, [], 0) := by
  have hstop : ¬(bitSet lsr 5 && !queue.empty) = true := by
    rw [(Queue.empty_eq_true_iff queue).mpr h]
    simp
  rw [transmitLoop.eq_def]
  exact if_neg hstop

/-- Without anything to transmit, the handler writes nothing and keeps that queue. -/
theorem serIh_of_empty {port : SerialPort} (h : port.transmitQueue.contents = [])
    (ports : PortScript) :
    (serIh ports port).1.transmitQueue = port.transmitQueue ∧ (serIh ports port).2.1 = [] := by
  unfold serIh
  split
  · exact ⟨rfl, rfl⟩
  · split_ifs
    · exact ⟨rfl, rfl⟩
    · exact ⟨rfl, rfl⟩
    · split
      · exact ⟨rfl, rfl⟩
      · split_ifs
        · exact ⟨rfl, rfl⟩
        · rw [transmitLoop_of_empty h]
          exact ⟨rfl, rfl⟩
    · split
      · exact ⟨rfl, rfl⟩
      · split_ifs <;> exact ⟨rfl, rfl⟩
    · split
      · exact ⟨rfl, rfl⟩
      · split_ifs <;> exact ⟨rfl, rfl⟩

/-- With both queues empty, {lit}`receive` stores the first byte read, if there is one,
and writes nothing. -/
theorem receive_spec {port : SerialPort} (htransmit : port.transmitQueue.contents = [])
    (hreceive : port.receiveQueue.contents = []) (ports : PortScript) (c : UInt8) :
    (receive ports port c).1.transmitQueue = port.transmitQueue ∧
      (receive ports port c).2 = ([], (bytesRead ports).head?.getD c) := by
  have hqueue := serIh_receiveQueue ports port
  rcases serIh_of_empty htransmit ports with ⟨hkept, hwritten⟩
  rw [hreceive, List.nil_append] at hqueue
  unfold receive
  dsimp only
  cases hbytes : bytesRead ports with
  | nil =>
      rw [hbytes, List.take_nil] at hqueue
      rw [if_pos ((Queue.empty_eq_true_iff _).mpr hqueue), hwritten]
      exact ⟨hkept, rfl⟩
  | cons byte bytes =>
      have hne : (serIh ports port).1.receiveQueue.contents = byte :: bytes.take 99 := by
        rw [hqueue, hbytes]
        rfl
      have hnot : ¬(serIh ports port).1.receiveQueue.empty = true := by
        rw [Queue.empty_eq_true_iff, hne]
        exact List.cons_ne_nil _ _
      rw [if_neg hnot, hwritten, Queue.top_eq, hne]
      exact ⟨hkept, rfl⟩

@[simp]
theorem clearReceiveQueue_receiveQueue (port : SerialPort) :
    (clearReceiveQueue port).receiveQueue.contents = [] :=
  Queue.contents_popAll port.receiveQueue

@[simp]
theorem clearReceiveQueue_transmitQueue (port : SerialPort) :
    (clearReceiveQueue port).transmitQueue = port.transmitQueue := rfl

end LCOMaze
