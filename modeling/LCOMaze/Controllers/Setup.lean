import LCOMaze.Controllers.KbcCommands
import LCOMaze.Controllers.Timer

/-!
# Setting up the devices

The functions that subscribe to interrupts and enable them, prepare the graphics mode, and undo
this.  A hook id is passed on and returned where the program keeps it in a variable.

Main results:

- Definition {lit}`spSubscribeInt`: the subscription with the most ways to fail.
- Definition {lit}`setFrameBuffer`: the mode is known, and the frame is mapped.
-/

namespace LCOMaze

open Foundations

/-! ## Subscriptions -/

/-- {lit}`timer_subscribe_int`: the bit of the interrupt, and the new hook id on success. -/
def timerSubscribeInt (timerHookId : Nat) : Driver (UInt8 × Option Nat) := do
  return (1 <<< timerHookId.toUInt8, ← sysIrqsetpolicy 0 false timerHookId)

/-- {lit}`kbd_subscribe_int`. -/
def kbdSubscribeInt (kbdHookId : Nat) : Driver (UInt16 × Option Nat) := do
  return (1 <<< kbdHookId.toUInt16, ← sysIrqsetpolicy 1 true kbdHookId)

/-- {lit}`mouse_subscribe_int`. -/
def mouseSubscribeInt (mouseHookId : Nat) : Driver (UInt16 × Option Nat) := do
  return (1 <<< mouseHookId.toUInt16, ← sysIrqsetpolicy 12 true mouseHookId)

/-- {lit}`subscribe_rtc`. -/
def subscribeRtc (hookIdRtc : Nat) : Driver (UInt16 × Option Nat) := do
  return (1 <<< hookIdRtc.toUInt16, ← sysIrqsetpolicy 8 false hookIdRtc)

/-- {lit}`sp_subscribe_int`: the policy stays when a queue cannot be created. -/
def spSubscribeInt (base : Nat) : Driver (Option (UInt32 × Nat)) := do
  if base ≠ 0x3f8 && base ≠ 0x2f8 then
    return none
  let (irq, spHookId) := if base = 0x3f8 then (4, 9) else (3, 3)
  let some newHookId ← sysIrqsetpolicy irq true spHookId | return none
  if !(← newQueue) then
    return none
  if !(← newQueue) then
    return none
  return some (1 <<< spHookId.toUInt32, newHookId)

/-- {lit}`timer_unsubscribe_int`. -/
def timerUnsubscribeInt (timerHookId : Nat) : Driver Bool := sysIrqrmpolicy timerHookId

/-- {lit}`kbd_unsubscribe_int`. -/
def kbdUnsubscribeInt (kbdHookId : Nat) : Driver Bool := sysIrqrmpolicy kbdHookId

/-- {lit}`mouse_unsubscribe_int`. -/
def mouseUnsubscribeInt (mouseHookId : Nat) : Driver Bool := sysIrqrmpolicy mouseHookId

/-- {lit}`unsubscribe_rtc`. -/
def unsubscribeRtc (hookIdRtc : Nat) : Driver Bool := sysIrqrmpolicy hookIdRtc

/-- {lit}`sp_unsubscribe`. -/
def spUnsubscribe (spHookId : Nat) : Driver Int := do
  if !(← sysIrqdisable spHookId) then
    return 1
  if !(← sysIrqrmpolicy spHookId) then
    return 1
  return 0

/-! ## Interrupts of the devices -/

/-- {lit}`set_update`: nothing is checked, so what a failed read leaves is written back. -/
def setUpdate : Driver Int := do
  let _ ← sysOutb 0x70 11
  let inf ← sysInb 0x71
  let _ ← sysOutb 0x70 11
  let _ ← sysOutb 0x71 (inf.value ||| 0x10)
  return 0

/-- {lit}`clean_update`. -/
def cleanUpdate : Driver Int := do
  let _ ← sysOutb 0x70 11
  let inf ← sysInb 0x71
  let _ ← sysOutb 0x70 11
  let _ ← sysOutb 0x71 (inf.value &&& (0xFF ^^^ 0x10))
  return 0

/-- {lit}`sp_enable_int`. -/
def spEnableInt (baseAddr : Nat) (mask : UInt8) : Driver Int := do
  let regIer ← sysInb (baseAddr + 1)
  if !regIer.ok then
    return 1
  if !(← sysOutb (baseAddr + 1) ((regIer.lsb &&& 0xF8) ||| mask).toUInt32) then
    return 1
  return 0

/-! ## The graphics mode -/

/-- {lit}`setFrameBuffer`, with the mode on success. -/
def setFrameBuffer (mode : UInt16) : Driver (Option ModeInfo) := do
  let some (modeInfo, physBasePtr) ← vbeGetModeInfo mode | return none
  let frameSize := modeInfo.frameSize
  if !(← sysPrivctl physBasePtr (physBasePtr + frameSize)) then
    return none
  if !(← vmMapPhys physBasePtr frameSize) then
    return none
  return some modeInfo

/-- {lit}`setGraphicsMode`. -/
def setGraphicsMode (mode : UInt16) : Driver Int := do
  if !(← sysInt86 ⟨0x10, 0x4F, 0x02, mode ||| 0x4000⟩) then
    return 1
  return 0

/-- {lit}`vg_exit_to_text`. -/
def vgExitToText : Driver Int := do
  if !(← sysInt86 ⟨0x10, 0x00, 0x03, 0⟩) then
    return 1
  return 0

end LCOMaze
