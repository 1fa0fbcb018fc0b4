import LCOMaze.Controllers.SendInt
import LCOMaze.Proj.MainLoop

/-!
# The bytes of the handlers

The main loop takes a call of {lit}`sp_send_int` to send its byte.  Here every byte of a handler is
sent by such a call on the ports, of which no access fails.

Main results:

- Theorem {lit}`exists_sendsByte`: a call for one byte ends, returns 0 and leaves its queue empty.
- Theorem {lit}`exists_wiredRun`: every run of a machine can be made with its ports.
- Theorem {lit}`WiredRun.written`: the first port then gets the bytes that the machine sends.
-/

namespace LCOMaze

/-! ## One byte -/

/-- No access of a port fails. -/
def noFailures : PortFailures := ⟨fun _ => false, fun _ => false⟩

/-- A call of {lit}`sp_send_int` for one byte, on a queue in any memory, has returned 0 and left
the ports like this and that queue empty. -/
def SendsByte (c : UInt8) (ports ports' : Ports) : Prop :=
  ∃ memory fuel, spSendInt noFailures 0x3f8 [c] (some memory) ports fuel = some (ports', 0) ∧
    (sendLoop noFailures 0x3f8 [c] memory ports fuel).map (fun s => s.queue.contents) = some []

/-- The first port gets the byte. -/
theorem sendLoop_byte {c : UInt8} {memory : Fin bufferSize → UInt8} {ports : Ports} {fuel : Nat}
    {s : Sending} (h : sendLoop noFailures 0x3f8 [c] memory ports fuel = some s) :
    s.returned = 0 ∧ s.queue.contents = [] ∧
      (s.ports.uart 0x3f8).written = (ports.uart 0x3f8).written ++ [c] := by
  rcases sendLoop_written h with ⟨-, n, hread⟩ | ⟨hreturned, hwritten, hempty⟩
  · exact absurd hread Bool.false_ne_true
  · exact ⟨hreturned, hempty, hwritten⟩

/-- Whatever the timing of the port, a call ends. -/
theorem exists_sendsByte (c : UInt8) (ports : Ports) : ∃ ports', SendsByte c ports ports' := by
  rcases sendLoop_terminates noFailures 0x3f8 [c] (fun _ => 0) ports with ⟨fuel, s, hrun⟩
  rcases sendLoop_byte hrun with ⟨hreturned, hempty, -⟩
  refine ⟨s.ports, fun _ => 0, fuel, ?_, ?_⟩
  · rw [spSendInt, hrun, Option.map_some, hreturned]
  · rw [hrun, Option.map_some, hempty]

theorem SendsByte.written {c : UInt8} {ports ports' : Ports} (h : SendsByte c ports ports') :
    (ports'.uart 0x3f8).written = (ports.uart 0x3f8).written ++ [c] := by
  rcases h with ⟨memory, fuel, hcall, -⟩
  rcases Option.map_eq_some_iff.mp hcall with ⟨s, hrun, hs⟩
  rw [← (Prod.mk.inj hs).1]
  exact (sendLoop_byte hrun).2.2

/-! ## The bytes of a handler -/

/-- One call after the other, each for a byte. -/
inductive SendsBytes : List UInt8 → Ports → Ports → Prop
  | nil (ports : Ports) : SendsBytes [] ports ports
  | cons {c : UInt8} {sent : List UInt8} {ports ports' ports'' : Ports}
      (first : SendsByte c ports ports') (rest : SendsBytes sent ports' ports'') :
      SendsBytes (c :: sent) ports ports''

theorem exists_sendsBytes (sent : List UInt8) (ports : Ports) :
    ∃ ports', SendsBytes sent ports ports' := by
  induction sent generalizing ports with
  | nil => exact ⟨ports, .nil ports⟩
  | cons c sent ih =>
      rcases exists_sendsByte c ports with ⟨ports', hfirst⟩
      rcases ih ports' with ⟨ports'', hrest⟩
      exact ⟨ports'', .cons hfirst hrest⟩

theorem SendsBytes.written {sent : List UInt8} {ports ports' : Ports}
    (h : SendsBytes sent ports ports') :
    (ports'.uart 0x3f8).written = (ports.uart 0x3f8).written ++ sent := by
  induction h with
  | nil ports => exact (List.append_nil _).symm
  | cons first rest ih => rw [ih, first.written, List.append_assoc, List.singleton_append]

/-! ## The bytes of a run -/

/-- A run of a machine with its ports. -/
inductive WiredRun (setup : Setup) (host : Bool) :
    List Interrupt → Machine × Ports → Machine × Ports → Prop
  | nil (s : Machine × Ports) : WiredRun setup host [] s s
  | cons {event : Interrupt} {events : List Interrupt} {m : Machine} {ports ports' : Ports}
      {t : Machine × Ports} (sends : SendsBytes (handle setup host event m).2 ports ports')
      (rest : WiredRun setup host events ((handle setup host event m).1, ports') t) :
      WiredRun setup host (event :: events) (m, ports) t

/-- Whatever the timing of the port, the run goes on after each of the calls. -/
theorem exists_wiredRun (setup : Setup) (host : Bool) (events : List Interrupt) (m : Machine)
    (ports : Ports) : ∃ t, WiredRun setup host events (m, ports) t := by
  induction events generalizing m ports with
  | nil => exact ⟨_, .nil _⟩
  | cons event events ih =>
      rcases exists_sendsBytes (handle setup host event m).2 ports with ⟨ports', hsends⟩
      rcases ih (handle setup host event m).1 ports' with ⟨t, hrest⟩
      exact ⟨t, .cons hsends hrest⟩

/-- The machine is that of the run without ports, and the first port gets the bytes of that run,
each once and in order. -/
theorem WiredRun.written {setup : Setup} {host : Bool} {events : List Interrupt}
    {s t : Machine × Ports} (h : WiredRun setup host events s t) :
    t.1 = (handleAll setup host events s.1).1 ∧
      (t.2.uart 0x3f8).written =
        (s.2.uart 0x3f8).written ++ (handleAll setup host events s.1).2 := by
  induction h with
  | nil s => exact ⟨rfl, (List.append_nil _).symm⟩
  | cons sends rest ih =>
      refine ⟨ih.1, ?_⟩
      rw [ih.2, sends.written, List.append_assoc]
      rfl

end LCOMaze
