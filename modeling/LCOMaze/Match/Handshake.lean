import LCOMaze.Match.TwoMachines
import Mathlib.Data.List.Count
import Mathlib.Tactic.Linarith

/-!
# The handshake of two machines

As long as nobody presses ESC, each machine first sends its handshake byte, and a machine
that has started has received one.

Main results:

- Theorem {lit}`HandshakeInvariant.step`: the invariant of both sessions and channels.
- Theorem {lit}`handshake_correct`: nobody plays against a peer that has not chosen to play,
  nobody keeps waiting, and the exchange is finite.
-/

namespace LCOMaze

open Foundations

/-- The move is not an ESC. -/
def NoEsc : Move Session.Action → Prop
  | .act _ action => action ≠ .esc
  | .deliver _ _ => True

instance (move : Move Session.Action) : Decidable (NoEsc move) :=
  match move with
  | .act _ action => inferInstanceAs (Decidable (action ≠ .esc))
  | .deliver _ _ => isTrue trivial

/-! ## The invariant -/

/-- The part of the invariant that belongs to one machine. -/
structure HandshakeSide (net : Net Session UInt8) (i : Bool) : Prop where
  outside : (net.party i).state ≠ .game → (net.party i).isMultiplayer = false
  silent : (net.party i).isMultiplayer = false → net.sent i = []
  hello : (net.party i).isMultiplayer = true → ∃ rest, net.sent i = handshakeByte i :: rest
  fresh : (net.party i).gameState = .waiting → net.inbox i = net.sent (!i)
  started : (net.party i).gameState ≠ .waiting → (net.party (!i)).isMultiplayer = true ∨
    ((net.party i).state = .game ∧ (net.party i).isMultiplayer = false)

/-- A click counts once, and so does leaving {lit}`Waiting`. -/
def flag (b : Bool) : Nat := if b then 1 else 0

/-- The handshake bytes are bounded: the client sends one with its click and one as it
starts, the host one with its click and one for each byte of the client. -/
structure HandshakeCounts (net : Net Session UInt8) : Prop where
  client : (net.sent false).count byteS ≤
    flag (net.party false).isMultiplayer +
      flag (decide ((net.party false).gameState ≠ .waiting))
  host : (net.sent true).count byteM + (net.inbox true).count byteS ≤
    flag (net.party true).isMultiplayer + (net.sent false).count byteS
  own : (net.sent true).count byteS = 0 ∧ (net.sent false).count byteM = 0

/-- The invariant of both sessions and channels. -/
structure HandshakeInvariant (net : Net Session UInt8) : Prop where
  side : ∀ i, HandshakeSide net i
  counts : HandshakeCounts net

theorem HandshakeInvariant.start : HandshakeInvariant startSessions where
  side := fun i =>
    { outside := fun _ => rfl
      silent := fun _ => rfl
      hello := fun h => by cases h
      fresh := fun _ => rfl
      started := fun h => absurd rfl h }
  counts := ⟨by decide, by decide, by decide⟩

/-- A reaction that keeps the choice of a machine keeps the side of its peer. -/
theorem HandshakeSide.peer {net : Net Session UInt8} {i : Bool} (h : HandshakeSide net (!i))
    {rest : List UInt8} {reaction : Session × List UInt8}
    (hmulti : (net.party i).isMultiplayer = true → reaction.1.isMultiplayer = true) :
    HandshakeSide (net.absorb i rest reaction) (!i) where
  outside := by simpa using h.outside
  silent := by simpa using h.silent
  hello := by simpa using h.hello
  fresh := by
    intro hwaiting
    rw [Net.absorb_party_other] at hwaiting
    have hfresh := h.fresh hwaiting
    rw [Bool.not_not] at hfresh
    rw [Net.absorb_inbox_other, Bool.not_not, Net.absorb_sent_self, hfresh]
  started := by
    intro hstarted
    rw [Net.absorb_party_other] at hstarted ⊢
    have hold := h.started hstarted
    rw [Bool.not_not] at hold ⊢
    rw [Net.absorb_party_self]
    exact hold.imp_left hmulti

/-- The side of the machine that reacts, in terms of its reaction. -/
theorem HandshakeSide.self {net : Net Session UInt8} {i : Bool} {rest : List UInt8}
    {reaction : Session × List UInt8}
    (outside : reaction.1.state ≠ .game → reaction.1.isMultiplayer = false)
    (silent : reaction.1.isMultiplayer = false → net.sent i ++ reaction.2 = [])
    (hello : reaction.1.isMultiplayer = true →
      ∃ later, net.sent i ++ reaction.2 = handshakeByte i :: later)
    (fresh : reaction.1.gameState = .waiting → rest = net.sent (!i))
    (started : reaction.1.gameState ≠ .waiting → (net.party (!i)).isMultiplayer = true ∨
      (reaction.1.state = .game ∧ reaction.1.isMultiplayer = false)) :
    HandshakeSide (net.absorb i rest reaction) i :=
  ⟨by simpa using outside, by simpa using silent, by simpa using hello, by simpa using fresh,
    by simpa using started⟩

/-! ## Local actions -/

/-- In the menu nobody has chosen to play a match. -/
theorem single_of_menu {s : Session} (houtside : s.state ≠ .game → s.isMultiplayer = false)
    (hmenu : s.state = .menu) : s.isMultiplayer = false := by
  apply houtside
  rw [hmenu]
  decide

/-- No local action but ESC takes back a choice. -/
theorem perform_keeps_choice {s : Session}
    (houtside : s.state ≠ .game → s.isMultiplayer = false) (i : Bool)
    {action : Session.Action} (hesc : action ≠ .esc) (hchosen : s.isMultiplayer = true) :
    (s.perform i action).1.isMultiplayer = true := by
  have hperforms := Session.performs i action s
  generalize s.perform i action = reaction at hperforms ⊢
  cases hperforms with
  | unchanged => exact hchosen
  | esc => exact absurd rfl hesc
  | singlePlayer hmenu => cases (single_of_menu houtside hmenu).symm.trans hchosen
  | multiplePlayer => rfl
  | howTo => exact hchosen
  | win => exact hchosen

/-- A machine in the menu that remembers a handshake has a peer that chose to play. -/
theorem HandshakeSide.peer_of_menu {net : Net Session UInt8} {i : Bool}
    (h : HandshakeSide net i) (hmenu : (net.party i).state = .menu)
    (hstarted : (net.party i).gameState ≠ .waiting) :
    (net.party (!i)).isMultiplayer = true := by
  rcases h.started hstarted with hpeer | ⟨hgame, -⟩
  · exact hpeer
  · cases hmenu.symm.trans hgame

/-- No local action but ESC breaks the side of its machine. -/
theorem HandshakeSide.act {net : Net Session UInt8} {i : Bool} (h : HandshakeSide net i)
    {action : Session.Action} (hesc : action ≠ .esc) :
    HandshakeSide (net.absorb i (net.inbox i) ((net.party i).perform i action)) i := by
  have hperforms := Session.performs i action (net.party i)
  generalize (net.party i).perform i action = reaction at hperforms ⊢
  cases hperforms with
  | unchanged =>
      rw [Net.absorb_silent]
      exact h
  | esc => exact absurd rfl hesc
  | singlePlayer hmenu =>
      apply HandshakeSide.self
      · exact fun _ => rfl
      · intro _
        rw [List.append_nil]
        exact h.silent (single_of_menu h.outside hmenu)
      · intro hmulti
        cases hmulti
      · intro hwaiting
        cases hwaiting
      · exact fun _ => Or.inr ⟨rfl, rfl⟩
  | multiplePlayer hmenu =>
      apply HandshakeSide.self
      · exact fun hstate => absurd rfl hstate
      · intro hmulti
        cases hmulti
      · intro _
        rw [h.silent (single_of_menu h.outside hmenu)]
        exact ⟨[], rfl⟩
      · exact h.fresh
      · exact fun hstarted => Or.inl (h.peer_of_menu hmenu hstarted)
  | howTo hmenu =>
      have hsingle := single_of_menu h.outside hmenu
      apply HandshakeSide.self
      · exact fun _ => hsingle
      · rw [List.append_nil]
        exact h.silent
      · rw [List.append_nil]
        exact h.hello
      · exact h.fresh
      · exact fun hstarted => Or.inl (h.peer_of_menu hmenu hstarted)
  | win hgame hrunning =>
      apply HandshakeSide.self
      · exact fun hstate => absurd hgame hstate
      · intro hsingle
        change (net.party i).isMultiplayer = false at hsingle
        rw [h.silent hsingle, gameWin, hsingle]
        rfl
      · intro hmulti
        rcases h.hello hmulti with ⟨later, hsent⟩
        exact ⟨later ++ (gameWin (net.party i)).2, by rw [hsent, List.cons_append]⟩
      · intro hwaiting
        cases hwaiting
      · intro _
        apply h.started
        rw [hrunning]
        decide

/-! ## Deliveries -/

/-- The handshake byte of the peer starts a machine that waits. -/
theorem dispatch_handshake {s : Session} (hwaiting : s.gameState = .waiting) (host : Bool) :
    dispatch host (handshakeByte !host) s = gameActivateMultiplayer host s := by
  cases host with
  | true => exact dispatch_byteS true s
  | false =>
      change dispatch false byteM s = _
      rw [dispatch_byteM, if_pos ⟨rfl, hwaiting⟩]

/-- A machine that has chosen a single player is silent. -/
theorem dispatch_silent {host : Bool} {c : UInt8} {s : Session} (h : s.isMultiplayer = false) :
    (dispatch host c s).2 = [] := by
  rcases dispatch_cases host c s with ⟨-, hrun⟩ | ⟨-, hrun⟩ | ⟨-, hrun⟩ | ⟨-, -, -, hrun⟩ <;>
    rw [hrun]
  · rw [gameActivateMultiplayer, h]
    rfl
  · rw [gameActivateMultiplayer, h]
    rfl

/-- A machine that waits and receives a byte starts, and its peer has chosen to play. -/
theorem HandshakeInvariant.starts {net : Net Session UInt8} (h : HandshakeInvariant net)
    {i : Bool} (hwaiting : (net.party i).gameState = .waiting) {c : UInt8} {rest : List UInt8}
    (hinbox : net.inbox i = c :: rest) :
    c = handshakeByte (!i) ∧ (net.party (!i)).isMultiplayer = true := by
  have hfresh := (h.side i).fresh hwaiting
  rw [hinbox] at hfresh
  cases hmulti : (net.party (!i)).isMultiplayer with
  | false =>
      rw [(h.side (!i)).silent hmulti] at hfresh
      cases hfresh
  | true =>
      rcases (h.side (!i)).hello hmulti with ⟨later, hsent⟩
      rw [hsent] at hfresh
      exact ⟨(List.cons.inj hfresh).1, rfl⟩

/-- A delivery keeps the side of its machine. -/
theorem HandshakeInvariant.deliver_side {net : Net Session UInt8} (h : HandshakeInvariant net)
    {i : Bool} {c : UInt8} {rest : List UInt8} (hinbox : net.inbox i = c :: rest)
    (remaining : List UInt8) :
    HandshakeSide (net.absorb i remaining (dispatch i c (net.party i))) i := by
  have hside := h.side i
  rcases dispatch_frame i c (net.party i) with ⟨hstate, hmulti, hleft⟩
  have hstarts : (dispatch i c (net.party i)).1.gameState ≠ .waiting := by
    by_cases hwaiting : (net.party i).gameState = .waiting
    · rw [(h.starts hwaiting hinbox).1, dispatch_handshake hwaiting]
      exact fun hgame => by cases hgame
    · exact hleft hwaiting
  apply HandshakeSide.self
  · rw [hstate, hmulti]
    exact hside.outside
  · intro hsingle
    rw [hmulti] at hsingle
    rw [hside.silent hsingle, dispatch_silent hsingle]
    rfl
  · intro hchosen
    rw [hmulti] at hchosen
    rcases hside.hello hchosen with ⟨later, hsent⟩
    exact ⟨later ++ (dispatch i c (net.party i)).2, by rw [hsent, List.cons_append]⟩
  · exact fun hwaiting => absurd hwaiting hstarts
  · intro _
    rw [hstate, hmulti]
    by_cases hwaiting : (net.party i).gameState = .waiting
    · exact Or.inl (h.starts hwaiting hinbox).2
    · exact hside.started hwaiting

/-! ## Counting -/

theorem flag_le_one (b : Bool) : flag b ≤ 1 := by
  cases b <;> decide

/-- A local action other than ESC announces a machine only as it chooses to play. -/
theorem perform_counts {s : Session} (houtside : s.state ≠ .game → s.isMultiplayer = false)
    (i : Bool) {action : Session.Action} (hesc : action ≠ .esc) :
    (s.perform i action).2.count (handshakeByte i) + flag s.isMultiplayer ≤
        flag (s.perform i action).1.isMultiplayer ∧
      flag (decide (s.gameState ≠ .waiting)) ≤
        flag (decide ((s.perform i action).1.gameState ≠ .waiting)) ∧
      (s.perform i action).2.count (handshakeByte !i) = 0 := by
  have hperforms := Session.performs i action s
  generalize s.perform i action = reaction at hperforms ⊢
  cases hperforms with
  | unchanged => simp
  | esc => exact absurd rfl hesc
  | singlePlayer hmenu =>
      rw [single_of_menu houtside hmenu]
      exact ⟨le_rfl, flag_le_one _, rfl⟩
  | multiplePlayer hmenu =>
      rw [single_of_menu houtside hmenu]
      refine ⟨?_, le_rfl, ?_⟩
      · simp [multiplePlayer, flag]
      · simp [multiplePlayer, handshakeByte_ne_other i]
  | howTo hmenu => exact ⟨by simp [howTo], le_rfl, rfl⟩
  | win hgame hrunning =>
      have hL : ∀ j, (gameWin s).2.count (handshakeByte j) = 0 := by
        intro j
        unfold gameWin
        split_ifs
        · simp [(handshakeByte_ne_byteL j).symm]
        · rfl
      rw [hL, hL, Nat.zero_add]
      exact ⟨le_rfl, flag_le_one _, rfl⟩

/-- The client announces itself at a delivery only as it starts. -/
theorem dispatch_counts_client (c : UInt8) (s : Session) :
    (dispatch false c s).2.count byteS + flag (decide (s.gameState ≠ .waiting)) ≤
        flag (decide ((dispatch false c s).1.gameState ≠ .waiting)) ∧
      (dispatch false c s).2.count byteM = 0 := by
  rcases dispatch_cases false c s with ⟨hc, hrun⟩ | ⟨hc, -⟩ | ⟨hc, hrun⟩ | ⟨-, -, -, hrun⟩
  · rw [hrun, gameActivateMultiplayer, hc.2.2]
    cases s.isMultiplayer
    · exact ⟨Nat.zero_le 1, rfl⟩
    · exact ⟨le_rfl, rfl⟩
  · cases hc.2
  · rw [hrun, hc.2]
    exact ⟨le_rfl, rfl⟩
  · rw [hrun]
    simp

/-- The host announces itself at a delivery only once for each byte of the client. -/
theorem dispatch_counts_host (c : UInt8) (s : Session) (rest : List UInt8) :
    (dispatch true c s).2.count byteM + rest.count byteS ≤ (c :: rest).count byteS ∧
      (dispatch true c s).2.count byteS = 0 := by
  rcases dispatch_cases true c s with ⟨hc, -⟩ | ⟨hc, hrun⟩ | ⟨-, hrun⟩ | ⟨-, -, -, hrun⟩
  · cases hc.2.1
  · rw [hrun, gameActivateMultiplayer, hc.1, List.count_cons_self, Nat.add_comm]
    cases s.isMultiplayer
    · exact ⟨Nat.le_succ _, rfl⟩
    · exact ⟨le_rfl, rfl⟩
  · rw [hrun]
    exact ⟨by simpa using List.count_le_count_cons, rfl⟩
  · rw [hrun]
    exact ⟨by simpa using List.count_le_count_cons, rfl⟩

/-- The counts after a local action. -/
theorem HandshakeInvariant.act_counts {net : Net Session UInt8} (h : HandshakeInvariant net)
    (i : Bool) {action : Session.Action} (hesc : action ≠ .esc) :
    HandshakeCounts (net.absorb i (net.inbox i) ((net.party i).perform i action)) := by
  rcases perform_counts (h.side i).outside i hesc with ⟨hown, hstarted, hother⟩
  have hclient := h.counts.client
  have hhost := h.counts.host
  have hownbytes := h.counts.own
  generalize (net.party i).perform i action = reaction at hown hstarted hother ⊢
  cases i with
  | true =>
      change reaction.2.count byteM + _ ≤ _ at hown
      change reaction.2.count byteS = 0 at hother
      refine ⟨?_, ?_, ?_⟩ <;>
        simp only [Net.absorb, if_true, Bool.false_eq_true, if_false, List.count_append]
      · exact hclient
      · omega
      · omega
  | false =>
      change reaction.2.count byteS + _ ≤ _ at hown
      change reaction.2.count byteM = 0 at hother
      refine ⟨?_, ?_, ?_⟩ <;>
        simp only [Net.absorb, if_true, Bool.true_eq_false, if_false, List.count_append]
      · omega
      · omega
      · omega

/-- The counts after a delivery. -/
theorem HandshakeInvariant.deliver_counts {net : Net Session UInt8} (h : HandshakeInvariant net)
    {i : Bool} {c : UInt8} {rest : List UInt8} (hinbox : net.inbox i = c :: rest)
    (count : Nat) :
    HandshakeCounts (net.absorb i (rest.drop count) (dispatch i c (net.party i))) := by
  have hclient := h.counts.client
  have hhost := h.counts.host
  have hownbytes := h.counts.own
  have hmulti := (dispatch_frame i c (net.party i)).2.1
  cases i with
  | true =>
      rcases dispatch_counts_host c (net.party true) rest with ⟨hM, hS⟩
      have hdrop := (List.drop_sublist count rest).count_le byteS
      rw [hinbox] at hhost
      generalize dispatch true c (net.party true) = reaction at hM hS hmulti ⊢
      refine ⟨?_, ?_, ?_⟩ <;>
        simp only [Net.absorb, if_true, Bool.false_eq_true, if_false, List.count_append]
      · exact hclient
      · rw [hmulti]
        omega
      · omega
  | false =>
      rcases dispatch_counts_client c (net.party false) with ⟨hS, hM⟩
      generalize dispatch false c (net.party false) = reaction at hM hS hmulti ⊢
      refine ⟨?_, ?_, ?_⟩ <;>
        simp only [Net.absorb, if_true, Bool.true_eq_false, if_false, List.count_append]
      · rw [hmulti]
        omega
      · omega
      · omega

/-! ## The whole run -/

/-- Every step but an ESC keeps the invariant. -/
theorem HandshakeInvariant.step {net : Net Session UInt8} (h : HandshakeInvariant net)
    {move : Move Session.Action} (henabled : net.Enabled move) (hesc : NoEsc move) :
    HandshakeInvariant (sessionDuplex.step net move) := by
  cases move with
  | act i action =>
      refine ⟨?_, h.act_counts i hesc⟩
      rw [forall_party_iff i]
      refine ⟨(h.side i).act hesc, (h.side (!i)).peer ?_⟩
      exact perform_keeps_choice (h.side i).outside i hesc
  | deliver i count =>
      rcases henabled.exists_take with ⟨c, rest, hinbox, htake, hdrop⟩
      have hmulti := (dispatch_frame i c (net.party i)).2.1
      simp only [Duplex.step, sessionDuplex, htake, hdrop]
      refine ⟨?_, h.deliver_counts hinbox (count - 1)⟩
      rw [forall_party_iff i]
      exact ⟨h.deliver_side hinbox _, (h.side (!i)).peer fun hchosen => hmulti.trans hchosen⟩

/-- The handshake of two machines, in every run from the program start without ESC: a
machine that plays a match has a peer that chose to play, nobody waits once both have
chosen and nothing is in flight, and at most two {lit}`'S'` and three {lit}`'M'` are sent. -/
theorem handshake_correct (setup : Bool → MenuSetup) (moves : List (Move DeviceInterrupt))
    (hrun : Throughout (machineDuplex setup).step
      (fun net move => net.Enabled move ∧ NoEsc (sessionMove setup net move)) moves
      (startNet setup)) :
    let net := moves.foldl (machineDuplex setup).step (startNet setup)
    (∀ i, (net.party i).session.isMultiplayer = true →
      (net.party i).session.gameState ≠ .waiting →
      (net.party (!i)).session.isMultiplayer = true) ∧
    ((∀ i, (net.party i).session.isMultiplayer = true) → (∀ i, net.inbox i = []) →
      ∀ i, (net.party i).session.gameState ≠ .waiting) ∧
    (net.sent true).count byteS + (net.sent false).count byteS ≤ 2 ∧
    (net.sent true).count byteM + (net.sent false).count byteM ≤ 3 := by
  intro net
  have h : HandshakeInvariant (sessions net) :=
    session_invariant (Q := fun _ move => NoEsc move) HandshakeInvariant.start
      (fun _ _ hinv henabled hesc => hinv.step henabled hesc) hrun
  refine ⟨?_, ?_, ?_, ?_⟩
  · intro i hmulti hstarted
    rcases (h.side i).started hstarted with hpeer | ⟨-, hsingle⟩
    · exact hpeer
    · cases hsingle.symm.trans hmulti
  · intro hmulti hempty i hwaiting
    have hfresh := (h.side i).fresh hwaiting
    rcases (h.side (!i)).hello (hmulti (!i)) with ⟨later, hsent⟩
    rw [hsent] at hfresh
    cases (hempty i).symm.trans hfresh
  · have hclient := h.counts.client
    have hown := h.counts.own
    have hmulti := flag_le_one ((sessions net).party false).isMultiplayer
    have hstarted := flag_le_one (decide (((sessions net).party false).gameState ≠ .waiting))
    change ((sessions net).sent true).count byteS + ((sessions net).sent false).count byteS ≤ 2
    omega
  · have hclient := h.counts.client
    have hhost := h.counts.host
    have hown := h.counts.own
    have hmulti := flag_le_one ((sessions net).party false).isMultiplayer
    have hstarted := flag_le_one (decide (((sessions net).party false).gameState ≠ .waiting))
    have hmulti' := flag_le_one ((sessions net).party true).isMultiplayer
    change ((sessions net).sent true).count byteM + ((sessions net).sent false).count byteM ≤ 3
    omega

/-- The client answers from the menu, and both bytes arrive. -/
theorem handshake_correct_two_clicks :
    let moves : List (Move DeviceInterrupt) :=
      [.act true (frame (some .multiPlayer)), .deliver false 1,
        .act false (frame (some .multiPlayer)), .deliver true 1]
    let net := moves.foldl (machineDuplex fun _ => gameSetup).step (startNet fun _ => gameSetup)
    (∀ i, (net.party i).session.isMultiplayer = true →
      (net.party i).session.gameState ≠ .waiting →
      (net.party (!i)).session.isMultiplayer = true) ∧
    ((∀ i, (net.party i).session.isMultiplayer = true) → (∀ i, net.inbox i = []) →
      ∀ i, (net.party i).session.gameState ≠ .waiting) ∧
    (net.sent true).count byteS + (net.sent false).count byteS ≤ 2 ∧
    (net.sent true).count byteM + (net.sent false).count byteM ≤ 3 :=
  handshake_correct (fun _ => gameSetup) _ (by decide)

end LCOMaze
