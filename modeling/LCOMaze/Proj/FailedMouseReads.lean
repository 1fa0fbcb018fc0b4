import LCOMaze.Proj.MouseStream

/-!
# Interrupts of the mouse without a byte

{lit}`mouse_ih` reports nothing to its caller.  When it reads no byte, the main loop goes on
with the byte of an earlier interrupt.

Main results:

- Theorem {lit}`leavesAssembly_iff`: a failed read leaves the unfinished packet alone exactly
  when there is none and the old byte cannot start one.
- Theorem {lit}`decodedPackets_withoutFailed`: such failed reads can be left out of a run.
- Theorem {lit}`failed_mouse_reads_iff`: failed reads are harmless in the runs that meet them
  like this throughout.
- Theorem {lit}`failed_mouse_read_shifts`: one failed read between two bytes shifts a packet.
-/

namespace LCOMaze

open Foundations

/-! ## Failed reads -/

/-- An interrupt of the mouse at which {lit}`mouse_ih` returns without a byte. -/
def failsToRead (event : Interrupt) : Bool :=
  (mouseRead event).any fun read => !mouseStatusReady read.1

/-- The run without its failed reads. -/
def withoutFailed (events : List Interrupt) : List Interrupt :=
  events.filter fun event => !failsToRead event

/-- A failed read changes neither {lit}`byte_index` nor {lit}`mouse_bytes` nor
{lit}`mouse_packet`. -/
def LeavesAssembly (setup : Setup) (host : Bool) (m : Machine) (event : Interrupt) : Prop :=
  failsToRead event = true →
    let mouse := (next setup host m event).globals.mouse
    mouse.byteIndex = m.globals.mouse.byteIndex ∧
      mouse.mouseBytes = m.globals.mouse.mouseBytes ∧ mouse.packet = m.globals.mouse.packet

/-- Failed reads leave the assembly of packets alone, and the packets decoded are those
decoded without them. -/
def FailedReadsHarmless (setup : Setup) (host : Bool) (events : List Interrupt) (m : Machine) :
    Prop :=
  Throughout (next setup host) (LeavesAssembly setup host) events m ∧
    decodedPackets setup host events m = decodedPackets setup host (withoutFailed events) m

/-- A failed read finds no unfinished packet and an old byte that cannot start one. -/
def FailsBetweenPackets (m : Machine) (event : Interrupt) : Prop :=
  failsToRead event = true →
    m.globals.mouse.byteIndex = 0 ∧ canStart m.globals.mouse.currentByte = false

/-! ## One failed read -/

section

variable {setup : Setup} {host : Bool} {m : Machine} {event : Interrupt}

/-- Where nothing is held and the byte cannot start a packet, nothing happens. -/
theorem assemble_skip {mouse : Mouse} (hindex : mouse.byteIndex = 0)
    (hbyte : canStart mouse.currentByte = false) : assemble mouse = mouse := by
  rw [assemble, syncBytes_skip hindex hbyte, hindex]
  rfl

/-- Everywhere else the index moves. -/
theorem assemble_byteIndex_ne {mouse : Mouse}
    (h : mouse.byteIndex ≠ 0 ∨ canStart mouse.currentByte = true) :
    (assemble mouse).byteIndex ≠ mouse.byteIndex := by
  rw [assemble, syncBytes_take h]
  dsimp only
  split_ifs with hfull
  · intro hzero
    rw [← show (0 : UInt8) = mouse.byteIndex from hzero] at hfull
    exact absurd hfull (by decide)
  · intro hsame
    have hone : mouse.byteIndex + 1 - mouse.byteIndex = 0 := by
      rw [show mouse.byteIndex + 1 = mouse.byteIndex from hsame, UInt8.sub_self]
    rw [UInt8.add_comm, UInt8.add_sub_cancel] at hone
    exact absurd hone (by decide)

/-- A failed read is an interrupt of the mouse that keeps the old byte. -/
theorem mouseAfterRead_of_failsToRead (mouse : Mouse) (h : failsToRead event = true) :
    (mouseRead event).isSome = true ∧ mouseAfterRead mouse event = mouse := by
  unfold failsToRead at h
  unfold mouseAfterRead
  cases hread : mouseRead event with
  | none =>
      rw [hread] at h
      cases h
  | some read =>
      rw [hread, Option.any_some, Bool.not_eq_true'] at h
      exact ⟨rfl, by simp only [mouseIh, h, Bool.false_eq_true, if_false]⟩

/-- The old byte of a failed read is assembled again. -/
theorem next_mouse_of_failsToRead (h : failsToRead event = true) :
    (next setup host m event).globals.mouse = assemble m.globals.mouse := by
  rcases mouseAfterRead_of_failsToRead m.globals.mouse h with ⟨hmouse, hkept⟩
  rw [next_mouse, if_pos hmouse, hkept]

/-- A failed read leaves the unfinished packet alone exactly when there is none and the old
byte cannot start one. -/
theorem leavesAssembly_iff :
    LeavesAssembly setup host m event ↔ FailsBetweenPackets m event := by
  constructor
  · intro h hfails
    have hindex := (h hfails).1
    rw [next_mouse_of_failsToRead hfails] at hindex
    by_contra hheld
    rw [not_and_or, Bool.not_eq_false] at hheld
    exact assemble_byteIndex_ne hheld hindex
  · intro h hfails
    rcases h hfails with ⟨hindex, hbyte⟩
    rw [next_mouse_of_failsToRead hfails, assemble_skip hindex hbyte]
    exact ⟨rfl, rfl, rfl⟩

/-! ## Runs -/

/-- The packets decoded depend on the variables of {lit}`mouse.c` alone. -/
theorem decodedPackets_congr {events : List Interrupt} {m m' : Machine}
    (h : m.globals.mouse = m'.globals.mouse) :
    decodedPackets setup host events m = decodedPackets setup host events m' := by
  induction events generalizing m m' with
  | nil => rfl
  | cons event events ih =>
      have hnext : (next setup host m event).globals.mouse =
          (next setup host m' event).globals.mouse := by
        rw [next_mouse, next_mouse, h]
      rw [decodedPackets, decodedPackets, ih hnext, decodedBy, decodedBy, h]

/-- Failed reads between packets can be left out of a run. -/
theorem decodedPackets_withoutFailed {events : List Interrupt} {m : Machine}
    (h : Throughout (next setup host) FailsBetweenPackets events m) :
    decodedPackets setup host events m =
      decodedPackets setup host (withoutFailed events) m := by
  induction events generalizing m with
  | nil => rfl
  | cons event events ih =>
      have hrest := ih h.2
      unfold withoutFailed at hrest ⊢
      cases hfails : failsToRead event with
      | false =>
          rw [List.filter_cons_of_pos (by simp [hfails]), decodedPackets, decodedPackets, hrest]
      | true =>
          rcases h.1 hfails with ⟨hindex, hbyte⟩
          have hkept : (next setup host m event).globals.mouse = m.globals.mouse := by
            rw [next_mouse_of_failsToRead hfails, assemble_skip hindex hbyte]
          have hnone : decodedBy m event = none := by
            rcases mouseAfterRead_of_failsToRead m.globals.mouse hfails with ⟨hmouse, hold⟩
            rw [decodedBy, if_pos hmouse, hold, completedPacket, syncBytes_skip hindex hbyte,
              hindex]
            rfl
          rw [List.filter_cons_of_neg (by simp [hfails]), decodedPackets, hrest, hnone]
          exact decodedPackets_congr hkept

end

/-- In every run, failed reads are harmless if and only if each of them finds no unfinished
packet and an old byte that cannot start one. -/
theorem failed_mouse_reads_iff (setup : Setup) (host : Bool) (events : List Interrupt)
    (m : Machine) :
    FailedReadsHarmless setup host events m ↔
      Throughout (next setup host) FailsBetweenPackets events m := by
  have hsteps : Throughout (next setup host) (LeavesAssembly setup host) events m ↔
      Throughout (next setup host) FailsBetweenPackets events m :=
    throughout_congr_of_iff fun _ _ => leavesAssembly_iff
  rw [FailedReadsHarmless, hsteps]
  exact ⟨And.left, fun h => ⟨h, decodedPackets_withoutFailed h⟩⟩

/-- An interrupt of the mouse with an empty output buffer. -/
def emptyMouseRead : Interrupt := .device (.mouse ⟨true, 0x20⟩ ⟨true, 0⟩)

/-- A failed read behind the first byte of a packet takes that byte for the second one. -/
theorem failed_mouse_read_shifts :
    ¬∀ (setup : Setup) (host : Bool) (events : List Interrupt),
      FailedReadsHarmless setup host events (.init setup) := by
  intro hall
  have h := (hall gameSetup false [mouseByte 8, emptyMouseRead, mouseByte 1, mouseByte 2]).2
  exact absurd (congrArg (List.map Packet.rawBytes) h) (by decide +kernel)

end LCOMaze
