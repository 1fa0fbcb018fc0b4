import LCOMaze.Controllers.Serial

/-!
# Keyboard, mouse and clock

The interrupt handlers of {lit}`keyboard.c`, {lit}`mouse.c` and {lit}`rtc.c`.  The
accesses of one call are given by their outcomes, one for each port read.

Main results:

- Definition {lit}`kbdIh`: without a scancode the variable keeps its value.
- Definition {lit}`createPacket`: a packet of three synchronized bytes.
- Definition {lit}`getTimeDirect`: a register that cannot be read leaves its field alone.
-/

namespace LCOMaze

/-! ## The keyboard controller -/

/-- The status read by both handlers lets {lit}`kbd_ih` read the data port. -/
def kbdStatusReady (status : PortAccess) : Bool :=
  status.ok && !bitSet status.value 7 && !bitSet status.value 6 && !bitSet status.value 1 &&
    bitSet status.value 0 && !bitSet status.value 5

/-- {lit}`kbd_ih`: the new value of {lit}`kbd_value`; the read of the data port is not
checked. -/
def kbdIh (status data : PortAccess) (kbdValue : UInt8) : UInt8 :=
  if kbdStatusReady status then data.lsb else kbdValue

/-! ## The mouse -/

/-- {lit}`struct packet`. -/
structure Packet where
  bytes : Fin 3 → UInt8
  rb : Bool
  mb : Bool
  lb : Bool
  deltaX : Int16
  deltaY : Int16
  xOv : Bool
  yOv : Bool

/-- The variables of {lit}`mouse.c`. -/
structure Mouse where
  currentByte : UInt8
  byteIndex : UInt8
  mouseBytes : Fin 3 → UInt8
  packet : Packet

/-- The zero-initialized variables of {lit}`mouse.c`. -/
def Mouse.init : Mouse :=
  ⟨0, 0, fun _ => 0, ⟨fun _ => 0, false, false, false, 0, 0, false, false⟩⟩

/-- The status that lets {lit}`mouse_ih` read the data port. -/
def mouseStatusReady (status : PortAccess) : Bool :=
  status.ok && !bitSet status.value 7 && !bitSet status.value 6 && bitSet status.value 0 &&
    bitSet status.value 5

/-- {lit}`mouse_ih`; the read of the data port is not checked. -/
def mouseIh (status data : PortAccess) (mouse : Mouse) : Mouse :=
  if mouseStatusReady status then { mouse with currentByte := data.lsb } else mouse

/-- {lit}`byte & BIT(n)`, converted to {lit}`bool`. -/
def byteBit (byte n : UInt8) : Bool := byte &&& (1 <<< n) ≠ 0

/-- {lit}`sync_bytes`; a write behind the end of {lit}`mouse_bytes` reaches none of its
elements. -/
def syncBytes (mouse : Mouse) : Mouse :=
  if (mouse.byteIndex = 0 && byteBit mouse.currentByte 3) || 0 < mouse.byteIndex then
    { mouse with
      mouseBytes := fun i =>
        if i.val = mouse.byteIndex.toNat then mouse.currentByte else mouse.mouseBytes i
      byteIndex := mouse.byteIndex + 1 }
  else mouse

/-- The conversion of a displacement byte with its sign bit to {lit}`int16_t`. -/
def signExtend (negative : Bool) (byte : UInt8) : Int16 :=
  if negative then (0xFF00 ||| byte.toUInt16).toInt16 else byte.toUInt16.toInt16

/-- {lit}`create_packet`. -/
def createPacket (mouse : Mouse) : Mouse :=
  let first := mouse.mouseBytes 0
  { mouse with
    packet :=
      { bytes := mouse.mouseBytes
        rb := byteBit first 1
        mb := byteBit first 2
        lb := byteBit first 0
        deltaX := signExtend (byteBit first 4) (mouse.mouseBytes 1)
        deltaY := signExtend (byteBit first 5) (mouse.mouseBytes 2)
        xOv := byteBit first 6
        yOv := byteBit first 7 } }

/-! ## The real-time clock -/

/-- {lit}`time_el`. -/
structure TimeEl where
  seconds : UInt32
  minutes : UInt32
  hours : UInt32
deriving DecidableEq, Repr

/-- The outcomes of the three register reads, in their order. -/
structure ClockRead where
  hours : PortAccess
  minutes : PortAccess
  seconds : PortAccess

/-- What a variable holds after an unchecked {lit}`sys_inb`, which is assumed to leave
it alone when it fails. -/
def PortAccess.storeInto (access : PortAccess) (old : UInt32) : UInt32 :=
  if access.ok then access.value else old

/-- {lit}`get_time_direct`. -/
def getTimeDirect (read : ClockRead) (time : TimeEl) : TimeEl where
  seconds := read.seconds.storeInto time.seconds
  minutes := read.minutes.storeInto time.minutes
  hours := read.hours.storeInto time.hours

/-- {lit}`get_time`: {lit}`time_stamp` is zeroed before the registers are read. -/
def getTime (read : ClockRead) : TimeEl := getTimeDirect read ⟨0, 0, 0⟩

/-- {lit}`update`: the bit {lit}`UE` of the cause register announces a new time. -/
def update (cause : PortAccess) (read : ClockRead) (timeStamp : TimeEl) : TimeEl :=
  if bitSet cause.value 4 then getTime read else timeStamp

end LCOMaze
