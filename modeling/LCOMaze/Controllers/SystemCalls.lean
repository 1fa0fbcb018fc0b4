import LCOMaze.Controllers.Devices
import LCOMaze.Controllers.Graphics
import LCOMaze.Foundations.Interaction

/-!
# System calls

The functions that set up the devices are programs over the calls of the system.  Nothing is
assumed about the answers: any call may fail.

Main results:

- Definition {lit}`SystemCall.Answer`: what each call answers.
- Definition {lit}`Driver`: the programs over these calls.
-/

namespace LCOMaze

open Foundations

/-! ## Calls and answers -/

/-- The registers of {lit}`reg86_t` that the program sets. -/
structure Reg86 where
  intno : UInt8
  ah : UInt8
  al : UInt8
  bx : UInt16
deriving DecidableEq, Repr

/-- The bits by which {lit}`proj_main_loop` tells the interrupts of the devices apart. -/
structure IrqSets where
  mouse : UInt16
  kbd : UInt16
  timer : UInt8
  rtc : UInt16
  serie : UInt32
deriving DecidableEq, Repr

/-- The calls made while the devices are set up and released.  The {lit}`while` loop in between
stands for one call: apart from notifications it needs ports only. -/
inductive SystemCall where
  | sysInb (port : Nat)
  | sysOutb (port : Nat) (value : UInt32)
  | tickdelay (micros : Nat)
  | sysIrqsetpolicy (irq : Nat) (exclusive : Bool) (hookId : Nat)
  | sysIrqrmpolicy (hookId : Nat)
  | sysIrqdisable (hookId : Nat)
  | vbeGetModeInfo (mode : UInt16)
  | sysPrivctl (base limit : UInt32)
  | vmMapPhys (base size : UInt32)
  | sysInt86 (registers : Reg86)
  | newQueue
  | loop (irqSets : IrqSets)
deriving DecidableEq

/-- What is answered: a failed read has left anything behind, a successful
{lit}`sys_irqsetpolicy` replaces the hook id, and {lit}`vbe_get_mode_info` knows the mode and the
address of its frame.  Everything else succeeds or fails; the loop succeeds if it ends because
{lit}`running` is false. -/
@[reducible]
def SystemCall.Answer : SystemCall → Type
  | .sysInb _ => PortAccess
  | .tickdelay _ => Unit
  | .sysIrqsetpolicy .. => Option Nat
  | .vbeGetModeInfo _ => Option (ModeInfo × UInt32)
  | _ => Bool

/-- The answer of a call that fails. -/
def SystemCall.failure : (call : SystemCall) → call.Answer
  | .sysInb _ => ⟨false, 0⟩
  | .tickdelay _ => ()
  | .sysIrqsetpolicy .. => none
  | .vbeGetModeInfo _ => none
  | .sysOutb .. | .sysIrqrmpolicy _ | .sysIrqdisable _ | .sysPrivctl .. | .vmMapPhys ..
  | .sysInt86 _ | .newQueue | .loop _ => false

/-- Programs over these calls. -/
abbrev Driver := Interaction SystemCall SystemCall.Answer

/-- A call with its answer. -/
abbrev SystemEvent := (c : SystemCall) × c.Answer

/-- {lit}`sys_inb`, and {lit}`util_sys_inb`, which stores its low byte. -/
def sysInb (port : Nat) : Driver PortAccess := Interaction.call (SystemCall.sysInb port)

/-- {lit}`sys_outb`. -/
def sysOutb (port : Nat) (value : UInt32) : Driver Bool :=
  Interaction.call (SystemCall.sysOutb port value)

/-- {lit}`tickdelay(micros_to_ticks(micros))`. -/
def tickdelay (micros : Nat) : Driver Unit := Interaction.call (SystemCall.tickdelay micros)

/-- {lit}`sys_irqsetpolicy`, always with {lit}`IRQ_REENABLE`. -/
def sysIrqsetpolicy (irq : Nat) (exclusive : Bool) (hookId : Nat) : Driver (Option Nat) :=
  Interaction.call (SystemCall.sysIrqsetpolicy irq exclusive hookId)

/-- {lit}`sys_irqrmpolicy`. -/
def sysIrqrmpolicy (hookId : Nat) : Driver Bool :=
  Interaction.call (SystemCall.sysIrqrmpolicy hookId)

/-- {lit}`sys_irqdisable`. -/
def sysIrqdisable (hookId : Nat) : Driver Bool :=
  Interaction.call (SystemCall.sysIrqdisable hookId)

/-- {lit}`vbe_get_mode_info`. -/
def vbeGetModeInfo (mode : UInt16) : Driver (Option (ModeInfo × UInt32)) :=
  Interaction.call (SystemCall.vbeGetModeInfo mode)

/-- {lit}`sys_privctl` with {lit}`SYS_PRIV_ADD_MEM`. -/
def sysPrivctl (base limit : UInt32) : Driver Bool :=
  Interaction.call (SystemCall.sysPrivctl base limit)

/-- {lit}`vm_map_phys`, which fails with {lit}`NULL`. -/
def vmMapPhys (base size : UInt32) : Driver Bool :=
  Interaction.call (SystemCall.vmMapPhys base size)

/-- {lit}`sys_int86`. -/
def sysInt86 (registers : Reg86) : Driver Bool := Interaction.call (SystemCall.sysInt86 registers)

/-- {lit}`new_queue`, which succeeds if both of its allocations do. -/
def newQueue : Driver Bool := Interaction.call SystemCall.newQueue

/-- The {lit}`while` loop of {lit}`proj_main_loop`. -/
def whileRunning (irqSets : IrqSets) : Driver Bool := Interaction.call (SystemCall.loop irqSets)

end LCOMaze
