import LCOMaze.Controllers.MousePackets
import LCOMaze.Foundations.Trace
import LCOMaze.Proj.MainLoop

/-!
# The stream of mouse bytes

The main loop hands every byte of the mouse to the machine of {lit}`mouse.c`.  A run may mix
the interrupts of the mouse with those of all other devices, which leave that machine alone.

Main results:

- Theorem {lit}`next_mouse`: what one interrupt does to the variables of {lit}`mouse.c`.
- Theorem {lit}`rawBytes_decodedPackets`: a run decodes what a receiver of packets collects
  from its bytes.
- Theorem {lit}`mouse_stream_decoded`: the decoded packets are framed in the stream, and
  encoded reports come back.
-/

namespace LCOMaze

open Foundations

/-! ## Reads of a run -/

/-- What the handler of the mouse reads. -/
def mouseRead : Interrupt → Option (PortAccess × PortAccess)
  | .device (.mouse status data) => some (status, data)
  | _ => none

/-- The mouse machine after the reads of an interrupt. -/
def mouseAfterRead (mouse : Mouse) (event : Interrupt) : Mouse :=
  match mouseRead event with
  | some (status, data) => mouseIh status data mouse
  | none => mouse

/-- The bytes that the mouse hands over during a run. -/
def mouseStream (events : List Interrupt) : List UInt8 :=
  events.filterMap fun event => (mouseRead event).map fun read => read.2.lsb

/-- If it is one of the mouse, the interrupt reads a byte without error. -/
def ReadsMouseByte (event : Interrupt) : Prop :=
  ∀ read ∈ mouseRead event, mouseStatusReady read.1 = true ∧ read.2.ok = true

/-- An interrupt of the mouse by which this byte arrives. -/
def mouseByte (byte : UInt8) : Interrupt :=
  .device (.mouse ⟨true, 0x21⟩ ⟨true, byte.toUInt32⟩)

/-- It does so without error. -/
theorem readsMouseByte_mouseByte (byte : UInt8) : ReadsMouseByte (mouseByte byte) := by
  intro read hread
  have hready : mouseStatusReady ⟨true, 0x21⟩ = true := by decide
  cases hread
  exact ⟨hready, rfl⟩

/-- The packet that an interrupt creates. -/
def decodedBy (m : Machine) (event : Interrupt) : Option Packet :=
  if (mouseRead event).isSome then completedPacket (mouseAfterRead m.globals.mouse event)
  else none

/-- The packets created during a run, in their order. -/
def decodedPackets (setup : Setup) (host : Bool) : List Interrupt → Machine → List Packet
  | [], _ => []
  | event :: events, m =>
      (decodedBy m event).toList ++ decodedPackets setup host events (next setup host m event)

/-- The index that {lit}`sync_bytes` uses lies in {lit}`mouse_bytes`. -/
def IndexesInside (m : Machine) (event : Interrupt) : Prop :=
  (mouseRead event).isSome → (mouseAfterRead m.globals.mouse event).byteIndex.toNat < 3

theorem mouseStream_cons (event : Interrupt) (events : List Interrupt) :
    mouseStream (event :: events) =
      ((mouseRead event).map fun read => read.2.lsb).toList ++ mouseStream events := by
  rw [mouseStream, List.filterMap_cons]
  cases (mouseRead event).map fun read => read.2.lsb <;> rfl

/-! ## One interrupt -/

section

variable {setup : Setup} {host : Bool} {m : Machine} {event : Interrupt}

/-- Interrupts of the mouse assemble packets, all others leave the variables alone. -/
theorem next_mouse :
    (next setup host m event).globals.mouse =
      if (mouseRead event).isSome then assemble (mouseAfterRead m.globals.mouse event)
      else m.globals.mouse := by
  cases event with
  | serial ports =>
      simp only [next, handle, serialInterrupt, mouseRead]
      split_ifs <;> rfl
  | device event =>
      cases event with
      | kbd status data =>
          simp only [next, handle, deviceInterrupt, keyboardInterrupt, mouseRead]
          split_ifs <;> rfl
      | mouse status data =>
          simp only [next, handle, deviceInterrupt, mouseInterrupt]
          cases m.globals.session.state <;> rfl
      | timer pressed reads => exact (timerInterrupt_frame setup host pressed reads m.globals).1
      | rtc cause read => rfl

theorem mouseAfterRead_byteIndex (mouse : Mouse) :
    (mouseAfterRead mouse event).byteIndex = mouse.byteIndex := by
  unfold mouseAfterRead
  split
  · exact mouseIh_byteIndex _ _ mouse
  · rfl

theorem heldBytes_mouseAfterRead (mouse : Mouse) :
    heldBytes (mouseAfterRead mouse event) = heldBytes mouse := by
  unfold mouseAfterRead
  split
  · exact heldBytes_mouseIh _ _ mouse
  · rfl

/-- The index stays below three. -/
theorem next_byteIndex_lt (h : m.globals.mouse.byteIndex.toNat < 3) :
    (next setup host m event).globals.mouse.byteIndex.toNat < 3 := by
  rw [next_mouse]
  split_ifs
  · exact (assemble_spec (by rwa [mouseAfterRead_byteIndex])).1
  · exact h

/-- A created packet has the fields that its bytes say. -/
theorem decodedBy_eq_packetOf (h : m.globals.mouse.byteIndex.toNat < 3) :
    ∀ packet ∈ decodedBy m event, packet = packetOf packet.bytes := by
  unfold decodedBy
  split_ifs
  · exact (assemble_spec (by rwa [mouseAfterRead_byteIndex])).2.2.2
  · simp

end

/-! ## Runs -/

section

variable (setup : Setup) (host : Bool)

/-- A run decodes what a receiver of packets collects from its bytes. -/
theorem rawBytes_decodedPackets {events : List Interrupt} {m : Machine}
    (hindex : m.globals.mouse.byteIndex.toNat < 3)
    (hreads : ∀ event ∈ events, ReadsMouseByte event) :
    (decodedPackets setup host events m).map Packet.rawBytes =
      collectAll canStart 3 (heldBytes m.globals.mouse) (mouseStream events) := by
  induction events generalizing m with
  | nil => rfl
  | cons event events ih =>
      have hnext : (next setup host m event).globals.mouse.byteIndex.toNat < 3 :=
        next_byteIndex_lt hindex
      have hrest := ih hnext fun event hmem => hreads event (List.mem_cons_of_mem _ hmem)
      rw [decodedPackets, List.map_append, hrest, next_mouse, mouseStream_cons, decodedBy]
      cases hread : mouseRead event with
      | none => rfl
      | some read =>
          have hbyte : (mouseAfterRead m.globals.mouse event).currentByte = read.2.lsb := by
            rw [mouseAfterRead, hread]
            simp only [mouseIh, (hreads event List.mem_cons_self read hread).1, if_true]
          have hlt : (mouseAfterRead m.globals.mouse event).byteIndex.toNat < 3 := by
            rwa [mouseAfterRead_byteIndex]
          have hspec := assemble_spec hlt
          rw [heldBytes_mouseAfterRead, hbyte] at hspec
          simp only [Option.isSome_some, if_true, Option.map_some, Option.toList_some,
            List.singleton_append, collectAll]
          rw [hspec.2.1, ← hspec.2.2.1]
          cases completedPacket (mouseAfterRead m.globals.mouse event) <;> rfl

/-- The packets of a run have the fields that their bytes say. -/
theorem decodedPackets_eq_packetOf {events : List Interrupt} {m : Machine}
    (hindex : m.globals.mouse.byteIndex.toNat < 3) :
    ∀ packet ∈ decodedPackets setup host events m, packet = packetOf packet.bytes := by
  induction events generalizing m with
  | nil => simp [decodedPackets]
  | cons event events ih =>
      intro packet hpacket
      rw [decodedPackets, List.mem_append, Option.mem_toList] at hpacket
      rcases hpacket with hfirst | hrest
      · exact decodedBy_eq_packetOf hindex packet hfirst
      · exact ih (next_byteIndex_lt hindex) packet hrest

/-- Packets with the bytes of reports say what the reports say. -/
theorem values_of_rawBytes {packets : List Packet} {reports : List Report}
    (hfields : ∀ packet ∈ packets, packet = packetOf packet.bytes)
    (hbytes : packets.map Packet.rawBytes = reports.map Report.encode) :
    packets.map Packet.values = reports.map Report.values := by
  induction packets generalizing reports with
  | nil => rw [List.map_eq_nil_iff.mp hbytes.symm, List.map_nil, List.map_nil]
  | cons packet packets ih =>
      cases reports with
      | nil => cases hbytes
      | cons report reports =>
          rw [List.map_cons, List.map_cons, List.cons.injEq] at hbytes
          rw [List.map_cons, List.map_cons, hfields packet List.mem_cons_self,
            values_packetOf_encode hbytes.1,
            ih (fun p hmem => hfields p (List.mem_cons_of_mem _ hmem)) hbytes.2]

/-- In every run that reads mouse bytes without error from {lit}`byte_index` 0 on, the index
stays in {lit}`mouse_bytes`, the decoded packets are framed in the stream of bytes, and the
concatenation of encoded reports is decoded to these reports. -/
theorem mouse_stream_decoded (events : List Interrupt) (m : Machine)
    (hindex : m.globals.mouse.byteIndex = 0)
    (hreads : ∀ event ∈ events, ReadsMouseByte event) :
    Throughout (next setup host) IndexesInside events m ∧
      Framing canStart 3 (mouseStream events)
        ((decodedPackets setup host events m).map Packet.rawBytes) ∧
      ∀ reports : List Report, mouseStream events = (reports.map Report.encode).flatten →
        (decodedPackets setup host events m).map Packet.values = reports.map Report.values := by
  have hlt : m.globals.mouse.byteIndex.toNat < 3 := by
    rw [hindex]
    decide
  have hraw := rawBytes_decodedPackets setup host hlt hreads
  rw [heldBytes_of_byteIndex hindex] at hraw
  refine ⟨?_, ?_, fun reports hstream => ?_⟩
  · apply Throughout.imp (fun m => m.globals.mouse.byteIndex.toNat < 3) _ _ hlt
      (throughout_true events m)
    · intro m event h _
      exact next_byteIndex_lt h
    · intro m event h _ _
      rwa [mouseAfterRead_byteIndex]
  · rw [hraw]
    exact framing_collectAll (by decide) (mouseStream events)
  · apply values_of_rawBytes (decodedPackets_eq_packetOf setup host hlt)
    rw [hraw, hstream]
    apply collectAll_flatten
    intro packet hpacket
    rcases List.mem_map.mp hpacket with ⟨report, -, rfl⟩
    exact report.isPacket_encode

end

/-- A report of the mouse, followed by an interrupt of the clock. -/
theorem mouse_stream_decoded_report :
    let report : Report := ⟨true, false, false, -256, 255, false, true, by decide, by decide⟩
    let events := (report.encode.map mouseByte) ++ [.device (.rtc ⟨true, 0⟩ ⟨⟨true, 0⟩, ⟨true, 0⟩,
      ⟨true, 0⟩⟩)]
    (decodedPackets gameSetup false events (.init gameSetup)).map Packet.values =
      [report.values] := by
  intro report events
  have hreads : ∀ event ∈ events, ReadsMouseByte event := by
    intro event hevent
    rcases List.mem_append.mp hevent with hmouse | hclock
    · rcases List.mem_map.mp hmouse with ⟨byte, -, rfl⟩
      exact readsMouseByte_mouseByte byte
    · rw [List.mem_singleton.mp hclock]
      intro read hread
      cases hread
  exact (mouse_stream_decoded gameSetup false events (.init gameSetup) rfl hreads).2.2 [report]
    (by decide +kernel)

end LCOMaze
