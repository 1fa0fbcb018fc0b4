import LCOMaze.Foundations.Duplex
import LCOMaze.Proj.MainLoop

/-!
# Two machines joined by their serial ports

The machine {lean}`true` is the host and {lean}`false` the client.  Clicks, keys and frames are
interrupts of a machine's own devices; a serial interrupt hands over some of the bytes in
flight.  A machine whose program was left keeps handling interrupts here, which only adds
runs.

Main results:

- Theorem {lit}`machineDuplex_map_session`: the machines simulate their sessions.
- Theorem {lit}`session_invariant`: invariants of the two sessions hold of the machines.
-/

namespace LCOMaze

open Foundations

/-! ## Machines and sessions -/

/-- The reactions of two machines. -/
def machineDuplex (setup : Bool → MenuSetup) : Duplex Machine DeviceInterrupt UInt8 where
  act i m event := handle (setup i) i (.device event) m
  receive i m bytes := handle (setup i) i (.serial (uartReads bytes)) m

/-- Both programs have just started. -/
def startNet (setup : Bool → MenuSetup) : Net Machine UInt8 :=
  ⟨fun i => .init (setup i), fun _ => [], fun _ => []⟩

/-- The reactions of two sessions: of the bytes handed over only the first one counts. -/
def sessionDuplex : Duplex Session Session.Action UInt8 where
  act i s action := s.perform i action
  receive i s bytes :=
    match bytes with
    | [] => (s, [])
    | c :: _ => dispatch i c s

/-- Both sessions at the start. -/
def startSessions : Net Session UInt8 := ⟨fun _ => .init, fun _ => [], fun _ => []⟩

/-- The move of the sessions for a move of the machines. -/
def sessionMove (setup : Bool → MenuSetup) (net : Net Machine UInt8) :
    Move DeviceInterrupt → Move Session.Action :=
  Duplex.translate (fun i m event => deviceAction (setup i) event m.globals) net

/-- The sessions of two machines. -/
def sessions (net : Net Machine UInt8) : Net Session UInt8 := net.map Machine.session

/-! ## Simulation -/

/-- Both machines listen to their port, and only bytes of the protocol are in flight. -/
structure Listening (net : Net Machine UInt8) : Prop where
  ready : ∀ i, (net.party i).Ready
  byte : ∀ i, (net.party i).c ≠ 0
  protocol : ∀ i, ∀ c ∈ net.inbox i, c ∈ protocolBytes

theorem Listening.start (setup : Bool → MenuSetup) : Listening (startNet setup) where
  ready := fun i => Machine.ready_init (setup i)
  byte := fun i => Machine.init_c (setup i)
  protocol := by simp [startNet]

/-- A reaction that keeps listening and sends bytes of the protocol. -/
theorem Listening.absorb {net : Net Machine UInt8} (h : Listening net) {i : Bool}
    {rest : List UInt8} {reaction : Machine × List UInt8} (hready : reaction.1.Ready)
    (hbyte : reaction.1.c ≠ 0) (hrest : ∀ c ∈ rest, c ∈ protocolBytes)
    (hsent : ∀ c ∈ reaction.2, c ∈ protocolBytes) : Listening (net.absorb i rest reaction) where
  ready := by
    rw [forall_party_iff i]
    simp only [Net.absorb_party_self, Net.absorb_party_other]
    exact ⟨hready, h.ready (!i)⟩
  byte := by
    rw [forall_party_iff i]
    simp only [Net.absorb_party_self, Net.absorb_party_other]
    exact ⟨hbyte, h.byte (!i)⟩
  protocol := by
    rw [forall_party_iff i]
    simp only [Net.absorb_inbox_self, Net.absorb_inbox_other, List.mem_append]
    refine ⟨hrest, ?_⟩
    intro c hc
    rcases hc with hc | hc
    · exact h.protocol (!i) c hc
    · exact hsent c hc

theorem Listening.step {setup : Bool → MenuSetup} {net : Net Machine UInt8} (h : Listening net)
    {move : Move DeviceInterrupt} (henabled : net.Enabled move) :
    Listening ((machineDuplex setup).step net move) := by
  cases move with
  | act i event =>
      have hsession := deviceInterrupt_session (setup i) i event (net.party i).globals
      have hsent : (deviceInterrupt (setup i) i event (net.party i).globals).2 =
          ((net.party i).session.perform i
            (deviceAction (setup i) event (net.party i).globals)).2 :=
        congrArg Prod.snd hsession
      apply h.absorb
      · exact ⟨(h.ready i).transmit, (h.ready i).receive⟩
      · exact h.byte i
      · exact h.protocol i
      · change ∀ c ∈ (deviceInterrupt (setup i) i event (net.party i).globals).2, _
        rw [hsent]
        exact Session.perform_sent i _ _
  | deliver i count =>
      rcases henabled.exists_take with ⟨c, rest, hinbox, htake, hdrop⟩
      rcases receive_dispatches (setup i) i (h.ready i) (h.byte i) c
        (rest.take (count - 1)) with ⟨port, hrun, htransmit, hreceive⟩
      have hprotocol := h.protocol i
      rw [hinbox] at hprotocol
      simp only [Duplex.step, machineDuplex, htake, hdrop, hrun]
      apply h.absorb
      · exact ⟨htransmit, hreceive⟩
      · exact ne_zero_of_mem_protocolBytes (hprotocol c List.mem_cons_self)
      · intro d hd
        exact hprotocol d (List.mem_cons_of_mem c (List.mem_of_mem_drop hd))
      · exact dispatch_sent i c _

/-- The machines simulate their sessions. -/
theorem machineDuplex_map_session (setup : Bool → MenuSetup) {net : Net Machine UInt8}
    (h : Listening net) {move : Move DeviceInterrupt} (henabled : net.Enabled move) :
    sessions ((machineDuplex setup).step net move) =
      sessionDuplex.step (sessions net) (sessionMove setup net move) := by
  cases move with
  | act i event =>
      have hsession := deviceInterrupt_session (setup i) i event (net.party i).globals
      rw [sessions, Duplex.step, Net.map_absorb]
      change (net.map Machine.session).absorb i _
        ((deviceInterrupt (setup i) i event (net.party i).globals).1.session,
          (deviceInterrupt (setup i) i event (net.party i).globals).2) = _
      rw [hsession]
      rfl
  | deliver i count =>
      rcases henabled.exists_take with ⟨c, rest, hinbox, htake, hdrop⟩
      rcases receive_dispatches (setup i) i (h.ready i) (h.byte i) c
        (rest.take (count - 1)) with ⟨port, hrun, -⟩
      rw [sessions, Duplex.step, Net.map_absorb]
      simp only [machineDuplex, htake, hrun, sessionMove, Duplex.translate, Duplex.step,
        sessionDuplex]
      change _ = (net.map Machine.session).absorb i ((net.inbox i).drop count)
        (match (net.inbox i).take count with
          | [] => ((net.party i).session, [])
          | c :: _ => dispatch i c (net.party i).session)
      rw [htake]

/-- The move of the sessions is made by the same party. -/
@[simp]
theorem sessionMove_party (setup : Bool → MenuSetup) (net : Net Machine UInt8)
    (move : Move DeviceInterrupt) : (sessionMove setup net move).party = move.party := by
  cases move <;> rfl

/-- Both moves are enabled together. -/
theorem sessionMove_enabled (setup : Bool → MenuSetup) {net : Net Machine UInt8}
    {move : Move DeviceInterrupt} (henabled : net.Enabled move) :
    (sessions net).Enabled (sessionMove setup net move) := by
  cases move with
  | act i event => trivial
  | deliver i count => exact henabled

/-- An invariant of the two sessions holds of the machines, along every run whose steps
satisfy the conditions under which the sessions keep it. -/
theorem session_invariant {setup : Bool → MenuSetup} {Inv : Net Session UInt8 → Prop}
    {Q : Net Session UInt8 → Move Session.Action → Prop} (hstart : Inv startSessions)
    (hinv : ∀ net move, Inv net → net.Enabled move → Q net move →
      Inv (sessionDuplex.step net move))
    {moves : List (Move DeviceInterrupt)}
    (hrun : Throughout (machineDuplex setup).step
      (fun net move => net.Enabled move ∧ Q (sessions net) (sessionMove setup net move)) moves
      (startNet setup)) :
    Inv (sessions (moves.foldl (machineDuplex setup).step (startNet setup))) := by
  let P : Net Machine UInt8 → Move DeviceInterrupt → Prop :=
    fun net move => net.Enabled move ∧ Q (sessions net) (sessionMove setup net move)
  have hgood : ∀ net move, Listening net → P net move →
      Listening ((machineDuplex setup).step net move) :=
    fun net move h hP => h.step hP.1
  have hmap : ∀ net move, Listening net → P net move →
      sessions ((machineDuplex setup).step net move) =
        sessionDuplex.step (sessions net) (sessionMove setup net move) :=
    fun net move h hP => machineDuplex_map_session setup h hP.1
  have hguard : ∀ net move, Listening net → P net move →
      (sessions net).Enabled (sessionMove setup net move) ∧
        Q (sessions net) (sessionMove setup net move) :=
    fun _ _ _ hP => ⟨sessionMove_enabled setup hP.1, hP.2⟩
  have hkeep : ∀ net move, Inv net → net.Enabled move ∧ Q net move →
      Inv (sessionDuplex.step net move) :=
    fun net move h hQ => hinv net move h hQ.1 hQ.2
  exact (Duplex.invariant_of_map (Q := fun net move => net.Enabled move ∧ Q net move) hgood hmap
    hguard hkeep (Listening.start setup) hstart hrun).2

end LCOMaze
