import LCOMaze.Foundations.Trace
import LCOMaze.Proj.MainLoop

/-!
# Serial interrupts that read no byte

{lit}`receive` leaves its argument alone when nothing was read, and the main loop then
dispatches the byte of an earlier interrupt once more.

Main results:

- Theorem {lit}`unread_invisible_iff`: a run shows nothing of such interrupts exactly when
  the byte left over is ineffective at each of them.
- Theorem {lit}`unread_visible`: an old {lit}`'M'` starts a client after an ESC.
-/

namespace LCOMaze

open Foundations

/-- Handling the interrupt shows nothing: {lit}`gameState` and {lit}`won` stay and nothing
is sent. -/
def Invisible (setup : Setup) (host : Bool) (m : Machine) (event : Interrupt) : Prop :=
  (handle setup host event m).1.session.gameState = m.session.gameState ∧
    (handle setup host event m).1.session.won = m.session.won ∧
    (handle setup host event m).2 = []

/-- A serial interrupt at which no byte is read shows nothing. -/
def UnreadInvisible (setup : Setup) (host : Bool) (m : Machine) (event : Interrupt) : Prop :=
  ∀ ports, event = .serial ports → bytesRead ports = [] → Invisible setup host m event

/-- At a serial interrupt at which no byte is read, the byte left over has no effect, or
the port is ignored. -/
def LeftoverIneffective (host : Bool) (m : Machine) (event : Interrupt) : Prop :=
  ∀ ports, event = .serial ports → bytesRead ports = [] →
    m.c = 0 ∨ ¬Effective host m.c m.session

/-- A serial interrupt shows nothing exactly when the byte it dispatches has no effect. -/
theorem serial_invisible_iff {setup : Setup} {host : Bool} {m : Machine} (h : m.Ready)
    (ports : PortScript) :
    Invisible setup host m (.serial ports) ↔
      m.c = 0 ∨ ¬Effective host (dispatchedByte ports m.c) m.session := by
  unfold Invisible
  by_cases hc : m.c = 0
  · simp only [handle, serialInterrupt_of_zero host ports hc, hc, true_or, and_self]
  · rcases serialInterrupt_spec host ports h hc with ⟨port, hrun, -⟩
    rw [handle, hrun, or_iff_right hc]
    exact dispatch_invisible_iff host (dispatchedByte ports m.c) m.session

/-- Over a whole run, the serial interrupts that read no byte show nothing if and only if
the byte left over is ineffective at each of them. -/
theorem unread_invisible_iff (setup : Setup) (host : Bool) (events : List Interrupt) :
    Throughout (next setup host) (UnreadInvisible setup host) events (.init setup) ↔
      Throughout (next setup host) (LeftoverIneffective host) events (.init setup) := by
  apply throughout_congr Machine.Ready fun _ _ => True
  · intro m event h _
    exact next_ready setup host event h
  · intro m event h _
    apply forall_congr'
    intro ports
    apply imp_congr_right
    intro hevent
    apply imp_congr_right
    intro hnone
    rw [hevent, serial_invisible_iff h, dispatchedByte, hnone]
    rfl
  · exact Machine.ready_init setup
  · exact throughout_true events _

/-- A client receives {lit}`'M'` in the menu, ESC is pressed, and a serial interrupt at
which nothing is pending starts the game that ESC had reset. -/
theorem unread_visible :
    ¬∀ (setup : Setup) (host : Bool) (events : List Interrupt),
      Throughout (next setup host) (UnreadInvisible setup host) events (.init setup) := by
  intro hall
  have h := hall gameSetup false
    [.serial (uartReads [byteM]), .device escKey, .serial [⟨true, 1⟩]]
  have hlast := h.2.2.1 [⟨true, 1⟩] rfl (by decide)
  exact absurd hlast.1 (by decide)

end LCOMaze
