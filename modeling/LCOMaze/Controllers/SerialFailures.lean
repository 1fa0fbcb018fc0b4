import LCOMaze.Controllers.Serial

/-!
# Failures of the serial port

{lit}`ser_ih` may give up at every port access.  Each of its exits lies before an access or
behind the queue operation that belongs to one, so that no byte is lost and none is counted
twice.

Main results:

- Theorem {lit}`transmitLoop_conserves`: every byte leaves the queue as it is written.
- Theorem {lit}`ser_ih_conserves`: whatever fails, the bytes written and those still queued are
  the bytes queued before, and the bytes read are appended to the other queue.
-/

namespace LCOMaze

/-- Every byte leaves the transmit queue as it is written. -/
theorem transmitLoop_conserves (ports : PortScript) (lsr : UInt32) (queue : Queue)
    (written : List UInt8) :
    let result := transmitLoop ports lsr queue written
    result.2.1 ++ result.1.contents = written ++ queue.contents ∧
      (result.2.2 = 0 ∨ result.2.2 = 1) := by
  have hsent : ∀ (lsr : UInt32) (queue : Queue) (written : List UInt8),
      (bitSet lsr 5 && !queue.empty) = true →
        (written ++ [queue.top]) ++ queue.pop.contents = written ++ queue.contents := by
    intro lsr queue written hready
    rw [Bool.and_eq_true, Bool.not_eq_true'] at hready
    rw [List.append_assoc, List.singleton_append, Queue.top_cons_pop hready.2]
  fun_induction transmitLoop ports lsr queue written with
  | case1 lsr queue written hready => exact ⟨rfl, Or.inr rfl⟩
  | case2 lsr queue written hready out hout => exact ⟨hsent lsr queue written hready, Or.inr rfl⟩
  | case3 lsr queue written hready out hout => exact ⟨rfl, Or.inr rfl⟩
  | case4 lsr queue written hready out status rest hout hstatus ih =>
      rw [hsent lsr queue written hready] at ih
      exact ih
  | case5 lsr queue written hready out status rest hout hstatus =>
      exact ⟨hsent lsr queue written hready, Or.inr rfl⟩
  | case6 lsr queue written hready out status rest hout => exact ⟨rfl, Or.inr rfl⟩
  | case7 ports lsr queue written hready => exact ⟨rfl, Or.inl rfl⟩

/-- The receiver branch returns 0 or 1. -/
theorem receiveLoop_result (ports : PortScript) (lsr : UInt32) (queue : Queue) :
    (receiveLoop ports lsr queue).2 = 0 ∨ (receiveLoop ports lsr queue).2 = 1 := by
  fun_induction receiveLoop ports lsr queue with
  | case1 lsr queue hready => exact Or.inr rfl
  | case2 lsr queue hready c hc => exact Or.inr rfl
  | case3 lsr queue hready c hc => exact Or.inr rfl
  | case4 lsr queue hready c status rest hc hstatus ih => exact ih
  | case5 lsr queue hready c status rest hc hstatus => exact Or.inr rfl
  | case6 lsr queue hready c status rest hc => exact Or.inr rfl
  | case7 ports lsr queue hready => exact Or.inl rfl

/-- The handler writes what leaves the transmit queue. -/
theorem serIh_transmitQueue (ports : PortScript) (port : SerialPort) :
    let result := serIh ports port
    result.2.1 ++ result.1.transmitQueue.contents = port.transmitQueue.contents ∧
      (result.2.2 = 0 ∨ result.2.2 = 1) := by
  unfold serIh
  split
  · exact ⟨rfl, Or.inr rfl⟩
  · rename_i iir ports
    split_ifs
    · exact ⟨rfl, Or.inr rfl⟩
    · exact ⟨rfl, Or.inl rfl⟩
    · split
      · exact ⟨rfl, Or.inr rfl⟩
      · rename_i lsr ports
        split_ifs
        · exact ⟨rfl, Or.inr rfl⟩
        · exact transmitLoop_conserves ports lsr.value port.transmitQueue []
    · split
      · exact ⟨rfl, Or.inr rfl⟩
      · rename_i lsr ports
        split_ifs
        · exact ⟨rfl, Or.inr rfl⟩
        · exact ⟨rfl, receiveLoop_result ports lsr.value port.receiveQueue⟩
    · split
      · exact ⟨rfl, Or.inr rfl⟩
      · split_ifs
        · exact ⟨rfl, Or.inr rfl⟩
        · exact ⟨rfl, Or.inl rfl⟩

/-- For every script of port accesses and all contents of the queues, {lit}`ser_ih` returns 0 or
1, the bytes written followed by those left in the transmit queue are the bytes queued before,
and the receive queue gains exactly the bytes read if they fit. -/
theorem ser_ih_conserves (ports : PortScript) (port : SerialPort) :
    let result := serIh ports port
    (result.2.2 = 0 ∨ result.2.2 = 1) ∧
      result.2.1 ++ result.1.transmitQueue.contents = port.transmitQueue.contents ∧
      (port.receiveQueue.contents.length + (bytesRead ports).length ≤ bufferSize →
        result.1.receiveQueue.contents = port.receiveQueue.contents ++ bytesRead ports) := by
  intro result
  rcases serIh_transmitQueue ports port with ⟨hwritten, hresult⟩
  refine ⟨hresult, hwritten, fun hfits => ?_⟩
  rw [serIh_receiveQueue, List.take_of_length_le]
  rw [List.length_append]
  exact hfits

end LCOMaze
