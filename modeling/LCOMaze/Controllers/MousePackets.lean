import LCOMaze.Controllers.Devices
import LCOMaze.Foundations.Framing

/-!
# Mouse packets

The machine that {lit}`sync_bytes`, {lit}`create_packet` and the main loop form together
receives packets of three bytes, the first of which has its fourth bit set.  A report of the
mouse is encoded in such a packet with displacements of nine bits.

Main results:

- Theorem {lit}`assemble_spec`: one byte does to the machine what it does to a receiver of
  packets.
- Theorem {lit}`toInt_signExtend`: the sign bit and the byte give a displacement of nine
  bits.
- Theorem {lit}`values_packetOf_encode`: a packet is decoded to the report it encodes.
-/

namespace LCOMaze

open Foundations

/-! ## The machine -/

/-- What the main loop does with the byte read: {lit}`sync_bytes`, then
{lit}`create_packet` behind every third byte. -/
def assemble (mouse : Mouse) : Mouse :=
  let mouse := syncBytes mouse
  if mouse.byteIndex = 3 then createPacket { mouse with byteIndex := 0 } else mouse

/-- The packet that this creates. -/
def completedPacket (mouse : Mouse) : Option Packet :=
  if (syncBytes mouse).byteIndex = 3 then some (assemble mouse).packet else none

/-- The bytes of an unfinished packet. -/
def heldBytes (mouse : Mouse) : List UInt8 :=
  (List.ofFn mouse.mouseBytes).take mouse.byteIndex.toNat

/-- The byte has the bit that the first byte of a packet has. -/
def canStart (byte : UInt8) : Bool := byteBit byte 3

/-- The packet with these bytes. -/
def packetOf (bytes : Fin 3 → UInt8) : Packet :=
  (createPacket { Mouse.init with mouseBytes := bytes }).packet

/-- The bytes of a packet, in the order in which they came. -/
def Packet.rawBytes (packet : Packet) : List UInt8 := List.ofFn packet.bytes

/-- Reading a byte does not move the index. -/
@[simp]
theorem mouseIh_byteIndex (status data : PortAccess) (mouse : Mouse) :
    (mouseIh status data mouse).byteIndex = mouse.byteIndex := by
  unfold mouseIh
  split_ifs <;> rfl

@[simp]
theorem heldBytes_mouseIh (status data : PortAccess) (mouse : Mouse) :
    heldBytes (mouseIh status data mouse) = heldBytes mouse := by
  unfold mouseIh
  split_ifs <;> rfl

theorem heldBytes_of_byteIndex {mouse : Mouse} (h : mouse.byteIndex = 0) :
    heldBytes mouse = [] := by
  rw [heldBytes, h]
  rfl

/-- A byte that no packet can start with is left out while nothing is held. -/
theorem syncBytes_skip {mouse : Mouse} (hindex : mouse.byteIndex = 0)
    (hbyte : canStart mouse.currentByte = false) : syncBytes mouse = mouse := by
  unfold canStart at hbyte
  simp [syncBytes, hindex, hbyte]

/-- Any other byte is stored behind those held. -/
theorem syncBytes_take {mouse : Mouse}
    (h : mouse.byteIndex ≠ 0 ∨ canStart mouse.currentByte = true) :
    syncBytes mouse =
      { mouse with
        mouseBytes := fun i =>
          if i.val = mouse.byteIndex.toNat then mouse.currentByte else mouse.mouseBytes i
        byteIndex := mouse.byteIndex + 1 } := by
  rw [syncBytes, if_pos]
  rcases h with hindex | hbyte
  · simp [UInt8.pos_iff_ne_zero.mpr hindex]
  · unfold canStart at hbyte
    by_cases hindex : mouse.byteIndex = 0
    · simp [hindex, hbyte]
    · simp [UInt8.pos_iff_ne_zero.mpr hindex]

/-- An index below three. -/
theorem byteIndex_cases {index : UInt8} (h : index.toNat < 3) :
    index = 0 ∨ index = 1 ∨ index = 2 := by
  rw [← UInt8.toNat_inj, ← UInt8.toNat_inj, ← UInt8.toNat_inj]
  simp only [UInt8.reduceToNat]
  omega

/-- One byte does to the machine what it does to a receiver of packets of three bytes. -/
theorem assemble_spec {mouse : Mouse} (h : mouse.byteIndex.toNat < 3) :
    let received := collect canStart 3 (heldBytes mouse) mouse.currentByte
    (assemble mouse).byteIndex.toNat < 3 ∧
      heldBytes (assemble mouse) = received.1 ∧
      (completedPacket mouse).map Packet.rawBytes = received.2 ∧
      ∀ packet ∈ completedPacket mouse, packet = packetOf packet.bytes := by
  intro received
  by_cases htaken : mouse.byteIndex ≠ 0 ∨ canStart mouse.currentByte = true
  · have hsync := syncBytes_take htaken
    have hheld : heldBytes mouse ≠ [] ∨ canStart mouse.currentByte = true := by
      refine htaken.imp_left fun hindex hnil => hindex ?_
      have hlength := congrArg List.length hnil
      simp only [heldBytes, List.length_take, List.length_ofFn, List.length_nil] at hlength
      apply UInt8.toNat_inj.mp
      rw [UInt8.toNat_zero]
      omega
    simp only [received, collect_take hheld]
    simp only [assemble, completedPacket, hsync, heldBytes]
    rcases byteIndex_cases h with hindex | hindex | hindex
    · simp [hindex, List.ofFn_succ]
    · simp [hindex, List.ofFn_succ]
    · simp [hindex, List.ofFn_succ, Packet.rawBytes, createPacket, packetOf, Mouse.init]
  · rw [not_or, not_not, Bool.not_eq_true] at htaken
    have hsync := syncBytes_skip htaken.1 htaken.2
    have hheld := heldBytes_of_byteIndex htaken.1
    have hcollect : received = ([], none) := by
      simp only [received, hheld]
      exact collect_skip htaken.2
    rw [hcollect]
    simp [assemble, completedPacket, hsync, htaken.1, hheld]

/-! ## Reports -/

/-- What a mouse reports in one packet. -/
structure Report where
  lb : Bool
  rb : Bool
  mb : Bool
  deltaX : Int
  deltaY : Int
  xOv : Bool
  yOv : Bool
  deltaX_range : -256 ≤ deltaX ∧ deltaX ≤ 255
  deltaY_range : -256 ≤ deltaY ∧ deltaY ≤ 255

/-- The bit {lit}`n` when it is set. -/
def flagBit (flag : Bool) (n : UInt8) : UInt8 := if flag then 1 <<< n else 0

/-- The first byte of a packet. -/
def flagByte (lb rb mb xNegative yNegative xOv yOv : Bool) : UInt8 :=
  flagBit lb 0 ||| flagBit rb 1 ||| flagBit mb 2 ||| flagBit true 3 |||
    flagBit xNegative 4 ||| flagBit yNegative 5 ||| flagBit xOv 6 ||| flagBit yOv 7

/-- The lower eight bits of a displacement. -/
def lowByte (delta : Int) : UInt8 := UInt8.ofNat (delta % 256).toNat

/-- The three bytes that encode a report. -/
def Report.encode (report : Report) : List UInt8 :=
  [flagByte report.lb report.rb report.mb (report.deltaX < 0) (report.deltaY < 0) report.xOv
      report.yOv,
    lowByte report.deltaX, lowByte report.deltaY]

/-- What a report says. -/
def Report.values (report : Report) : Bool × Bool × Bool × Int × Int × Bool × Bool :=
  (report.lb, report.rb, report.mb, report.deltaX, report.deltaY, report.xOv, report.yOv)

/-- What a packet says. -/
def Packet.values (packet : Packet) : Bool × Bool × Bool × Int × Int × Bool × Bool :=
  (packet.lb, packet.rb, packet.mb, packet.deltaX.toInt, packet.deltaY.toInt, packet.xOv,
    packet.yOv)

/-- Each bit of the first byte is the flag put there. -/
theorem byteBit_flagByte : ∀ lb rb mb xNegative yNegative xOv yOv : Bool,
    let byte := flagByte lb rb mb xNegative yNegative xOv yOv
    byteBit byte 0 = lb ∧ byteBit byte 1 = rb ∧ byteBit byte 2 = mb ∧ byteBit byte 3 = true ∧
      byteBit byte 4 = xNegative ∧ byteBit byte 5 = yNegative ∧ byteBit byte 6 = xOv ∧
      byteBit byte 7 = yOv := by
  decide +kernel

/-- The conversion to {lit}`int16_t` keeps the residue modulo 65536. -/
theorem toInt_toInt16 (n : UInt16) : n.toInt16.toInt = (n.toNat : Int).bmod 65536 := by
  rw [Int16.toInt, UInt16.toBitVec_toInt16, BitVec.toInt_eq_toNat_bmod]
  rfl

/-- The displacement byte counts from -256 when the sign bit is set. -/
theorem toInt_signExtend (negative : Bool) (byte : UInt8) :
    (signExtend negative byte).toInt = byte.toNat - if negative then 256 else 0 := by
  have hlt : byte.toNat < 2 ^ 8 := byte.toNat_lt
  cases negative with
  | false =>
      simp only [signExtend, Bool.false_eq_true, if_false, toInt_toInt16, UInt8.toNat_toUInt16,
        Int.bmod_def]
      omega
  | true =>
      have hor : (0xFF00 ||| byte.toUInt16).toNat = 0xFF00 + byte.toNat :=
        (Nat.two_pow_add_eq_or_of_lt hlt 255).symm
      simp only [signExtend, if_true, toInt_toInt16, hor, Int.bmod_def]
      omega

/-- Sign and lower byte determine a displacement of nine bits. -/
theorem toInt_signExtend_lowByte {delta : Int} (h : -256 ≤ delta ∧ delta ≤ 255) :
    (signExtend (delta < 0) (lowByte delta)).toInt = delta := by
  have hbyte : ((lowByte delta).toNat : Int) = delta % 256 := by
    rw [lowByte, UInt8.toNat_ofNat']
    omega
  rw [toInt_signExtend, hbyte]
  by_cases hnegative : delta < 0
  · simp only [hnegative, decide_true, if_true]
    omega
  · simp only [hnegative, decide_false, Bool.false_eq_true, if_false]
    omega

/-- An encoded report is a packet. -/
theorem Report.isPacket_encode (report : Report) : IsPacket canStart 3 report.encode :=
  ⟨_, _, rfl, (byteBit_flagByte _ _ _ _ _ _ _).2.2.2.1, rfl⟩

/-- A packet is decoded to the report it encodes. -/
theorem values_packetOf_encode {report : Report} {bytes : Fin 3 → UInt8}
    (h : List.ofFn bytes = report.encode) : (packetOf bytes).values = report.values := by
  simp only [List.ofFn_succ, List.ofFn_zero, Report.encode, List.cons.injEq] at h
  rcases h with ⟨hfirst, hx, hy, -⟩
  rcases byteBit_flagByte report.lb report.rb report.mb (report.deltaX < 0) (report.deltaY < 0)
    report.xOv report.yOv with ⟨hlb, hrb, hmb, -, hxNegative, hyNegative, hxOv, hyOv⟩
  rw [← hfirst] at hlb hrb hmb hxNegative hyNegative hxOv hyOv
  have hdeltaX := toInt_signExtend_lowByte report.deltaX_range
  have hdeltaY := toInt_signExtend_lowByte report.deltaY_range
  rw [← hxNegative, ← hx] at hdeltaX
  rw [← hyNegative, ← hy] at hdeltaY
  simp only [Packet.values, Report.values, packetOf, createPacket, Prod.mk.injEq]
  exact ⟨hlb, hrb, hmb, hdeltaX, hdeltaY, hxOv, hyOv⟩

end LCOMaze
