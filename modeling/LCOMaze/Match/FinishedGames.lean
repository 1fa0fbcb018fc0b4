import LCOMaze.Match.Handshake

/-!
# Finished games

The client only starts while it waits, the host whenever it receives an {lit}`'S'`.

Main results:

- Theorem {lit}`finished_stays_iff`: in a run all finished games stay finished exactly when
  no {lit}`'S'` is handed to a host that has finished.
- Theorem {lit}`finished_restarts`: the client leaves and joins again.
-/

namespace LCOMaze

open Foundations

/-- The machine shows the result of a game. -/
def Finished (s : Session) : Prop := s.state = .game ∧ s.gameState = .finish

/-- A finished game stays as it is at an event of its machine that is not an ESC. -/
def StaysFinished (setup : Bool → MenuSetup) (net : Net Machine UInt8)
    (move : Move DeviceInterrupt) : Prop :=
  let after := ((machineDuplex setup).step net move).party move.party
  Finished (net.party move.party).session → NoEsc (sessionMove setup net move) →
    after.session.gameState = .finish ∧ after.session.won = (net.party move.party).session.won

/-- An {lit}`'S'` is handed first to a host that has finished. -/
def LateHandshake (net : Net Machine UInt8) : Move DeviceInterrupt → Prop
  | .act _ _ => False
  | .deliver i _ =>
      i = true ∧ Finished (net.party true).session ∧ (net.inbox true).head? = some byteS

instance (s : Session) : Decidable (Finished s) :=
  inferInstanceAs (Decidable (s.state = .game ∧ s.gameState = .finish))

instance (setup : Bool → MenuSetup) (net : Net Machine UInt8) (move : Move DeviceInterrupt) :
    Decidable (StaysFinished setup net move) := by
  unfold StaysFinished
  infer_instance

/-- Local events other than ESC leave a finished game alone. -/
theorem Finished.perform {s : Session} (h : Finished s) (i : Bool) {action : Session.Action}
    (hesc : action ≠ .esc) : (s.perform i action).1 = s := by
  have hmenu : s.state ≠ .menu := by
    rw [h.1]
    decide
  have hperforms := Session.performs i action s
  generalize s.perform i action = reaction at hperforms ⊢
  cases hperforms with
  | unchanged => rfl
  | esc => exact absurd rfl hesc
  | singlePlayer hstate => exact absurd hstate hmenu
  | multiplePlayer hstate => exact absurd hstate hmenu
  | howTo hstate => exact absurd hstate hmenu
  | win _ hrunning => cases h.2.symm.trans hrunning

/-- A byte leaves a finished game alone unless it is an {lit}`'S'` at the host. -/
theorem Finished.dispatch_iff {s : Session} (h : Finished s) (i : Bool) (c : UInt8) :
    ((dispatch i c s).1.gameState = .finish ∧ (dispatch i c s).1.won = s.won) ↔
      ¬(i = true ∧ c = byteS) := by
  rcases dispatch_cases i c s with ⟨hc, -⟩ | ⟨hc, hrun⟩ | ⟨hc, -⟩ | ⟨-, hc, -, hrun⟩
  · cases h.2.symm.trans hc.2.2
  · rw [hrun]
    constructor
    · intro hstays
      cases hstays.1
    · intro hnot
      exact absurd ⟨hc.2, hc.1⟩ hnot
  · cases h.2.symm.trans hc.2
  · rw [hrun]
    constructor
    · exact fun _ hS => hc ⟨hS.2, hS.1⟩
    · exact fun _ => ⟨h.2, rfl⟩

/-- One step keeps a finished game unless it is a late handshake. -/
theorem staysFinished_iff {setup : Bool → MenuSetup} {net : Net Machine UInt8} (h : Listening net)
    {move : Move DeviceInterrupt} (henabled : net.Enabled move) :
    StaysFinished setup net move ↔ ¬LateHandshake net move := by
  have hparty := congrArg (fun n => n.party move.party)
    (machineDuplex_map_session setup h henabled)
  simp only [sessions, Net.map] at hparty
  unfold StaysFinished
  dsimp only
  rw [hparty]
  cases move with
  | act i event =>
      simp only [LateHandshake, not_false_eq_true, iff_true]
      intro hfinished hesc
      have hsame : ((net.party i).session.perform i
          (deviceAction (setup i) event (net.party i).globals)).1 = (net.party i).session :=
        hfinished.perform i hesc
      simp only [sessionMove, Duplex.translate, Duplex.step, sessionDuplex, Move.party,
        Net.absorb_party_self, hsame]
      exact ⟨hfinished.2, trivial⟩
  | deliver i count =>
      rcases henabled.exists_take with ⟨c, rest, hinbox, htake, -⟩
      simp only [sessionMove, Duplex.translate, Duplex.step, sessionDuplex, Move.party,
        Net.absorb_party_self, NoEsc, true_imp_iff, htake, LateHandshake]
      constructor
      · intro hstays hlate
        rcases hlate with ⟨rfl, hfinished, hhead⟩
        rw [hinbox, List.head?_cons, Option.some.injEq] at hhead
        exact (hfinished.dispatch_iff true c).mp (hstays hfinished) ⟨rfl, hhead⟩
      · intro hlate hfinished
        apply (hfinished.dispatch_iff i c).mpr
        intro hS
        rcases hS with ⟨rfl, rfl⟩
        exact hlate ⟨rfl, hfinished, by rw [hinbox]; rfl⟩

/-- Over a whole run of two machines, with ESC, finished games stay finished at every event
of their machine but its ESC, if and only if no {lit}`'S'` is handed first to a host that has
finished. -/
theorem finished_stays_iff (setup : Bool → MenuSetup) (moves : List (Move DeviceInterrupt))
    (hrun : Throughout (machineDuplex setup).step Net.Enabled moves (startNet setup)) :
    Throughout (machineDuplex setup).step (StaysFinished setup) moves (startNet setup) ↔
      Throughout (machineDuplex setup).step (fun net move => ¬LateHandshake net move) moves
        (startNet setup) :=
  throughout_congr Listening Net.Enabled (fun _ _ h henabled => h.step henabled)
    (fun _ _ h henabled => staysFinished_iff h henabled) (Listening.start setup) hrun

/-- The client wins, leaves and joins again; its new handshake resumes the host's game. -/
def rematch : List (Move DeviceInterrupt) :=
  [.act true (frame (some .multiPlayer)), .deliver false 1,
    .act false (frame (some .multiPlayer))] ++
    walkToGoal.map (.act false) ++ [.act false (frame none), .deliver true 1, .deliver true 1,
    .act false escKey, .act false (frame (some .multiPlayer)), .deliver true 1]

set_option maxRecDepth 100000 in
theorem finished_restarts :
    ¬∀ (setup : Bool → MenuSetup) (moves : List (Move DeviceInterrupt)),
      Throughout (machineDuplex setup).step Net.Enabled moves (startNet setup) →
      Throughout (machineDuplex setup).step (StaysFinished setup) moves (startNet setup) := by
  intro hall
  exact absurd (hall (fun _ => gameSetup) rematch (by decide +kernel)) (by decide +kernel)

set_option maxRecDepth 100000 in
/-- The same match without the rematch. -/
theorem finished_stays_iff_one_match :
    let moves := rematch.take 169
    Throughout (machineDuplex fun _ => gameSetup).step (StaysFinished fun _ => gameSetup) moves
        (startNet fun _ => gameSetup) ↔
      Throughout (machineDuplex fun _ => gameSetup).step (fun net move => ¬LateHandshake net move)
        moves (startNet fun _ => gameSetup) :=
  finished_stays_iff (fun _ => gameSetup) _ (by decide +kernel)

end LCOMaze
