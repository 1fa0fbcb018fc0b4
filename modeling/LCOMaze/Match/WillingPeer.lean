import LCOMaze.Match.Handshake

/-!
# Matches with a willing peer

A handshake byte may arrive after its sender has left with ESC, and a machine outside the
game remembers it as {lit}`gameState`.

Main results:

- Theorem {lit}`WillingInvariant.step`: who announces itself, or is remembered, has chosen to
  play, as long as nobody leaves too early.
- Theorem {lit}`starts_willingly`: then every match starts with a peer that wants to play.
- Theorem {lit}`starts_unwillingly`: the host leaves while the client remembers it.
-/

namespace LCOMaze

open Foundations

/-- The machine plays a match. -/
def InMatch (s : Session) : Prop :=
  s.state = .game ∧ s.isMultiplayer = true ∧ s.gameState = .running

instance (s : Session) : Decidable (InMatch s) :=
  inferInstanceAs (Decidable (s.state = .game ∧ s.isMultiplayer = true ∧ s.gameState = .running))

/-- Nothing is in flight but the byte that the move delivers. -/
def NothingElse (net : Net Machine UInt8) : Move DeviceInterrupt → Prop
  | .act _ _ => net.inbox true = [] ∧ net.inbox false = []
  | .deliver i _ => (net.inbox i).length = 1 ∧ net.inbox (!i) = []

instance (net : Net Machine UInt8) (move : Move DeviceInterrupt) :
    Decidable (NothingElse net move) :=
  match move with
  | .act _ _ => inferInstanceAs (Decidable (net.inbox true = [] ∧ net.inbox false = []))
  | .deliver i _ =>
      inferInstanceAs (Decidable ((net.inbox i).length = 1 ∧ net.inbox (!i) = []))

/-- A move that brings its machine into a match meets a peer that has chosen to play. -/
def StartsWillingly (setup : Bool → MenuSetup) (net : Net Machine UInt8)
    (move : Move DeviceInterrupt) : Prop :=
  ¬InMatch (net.party move.party).session →
    InMatch (((machineDuplex setup).step net move).party move.party).session →
    NothingElse net move → (net.party (!move.party)).session.isMultiplayer = true

instance (setup : Bool → MenuSetup) (net : Net Machine UInt8) (move : Move DeviceInterrupt) :
    Decidable (StartsWillingly setup net move) := by
  unfold StartsWillingly
  infer_instance

/-- A machine that has chosen to play presses ESC only when none of its handshake bytes is
in flight and the peer does not remember one outside the game. -/
def LeavesCleanly (net : Net Session UInt8) : Move Session.Action → Prop
  | .act i .esc =>
      (net.party i).isMultiplayer = true →
        handshakeByte i ∉ net.inbox (!i) ∧
          ((net.party (!i)).state = .game ∨ (net.party (!i)).gameState = .waiting)
  | _ => True

instance (net : Net Session UInt8) (move : Move Session.Action) :
    Decidable (LeavesCleanly net move) := by
  unfold LeavesCleanly
  split <;> infer_instance

/-! ## The invariant -/

/-- Who announces itself, or is remembered, has chosen to play. -/
structure WillingInvariant (net : Net Session UInt8) : Prop where
  outside : ∀ i, (net.party i).state ≠ .game → (net.party i).isMultiplayer = false
  flying : ∀ i, handshakeByte i ∈ net.inbox (!i) → (net.party i).isMultiplayer = true
  remembered : ∀ i, (net.party (!i)).state ≠ .game → (net.party (!i)).gameState ≠ .waiting →
    (net.party i).isMultiplayer = true

theorem WillingInvariant.start : WillingInvariant startSessions where
  outside := fun _ _ => rfl
  flying := fun _ h => by cases h
  remembered := fun _ _ h => absurd rfl h

/-- The invariant after a reaction, in terms of the machine that reacts. -/
theorem WillingInvariant.absorb {net : Net Session UInt8} (h : WillingInvariant net) {i : Bool}
    {rest : List UInt8} {reaction : Session × List UInt8}
    (outside : reaction.1.state ≠ .game → reaction.1.isMultiplayer = false)
    (hrest : ∀ c ∈ rest, c ∈ net.inbox i)
    (flying : handshakeByte i ∈ net.inbox (!i) ∨ handshakeByte i ∈ reaction.2 →
      reaction.1.isMultiplayer = true)
    (peer : (net.party (!i)).state ≠ .game → (net.party (!i)).gameState ≠ .waiting →
      reaction.1.isMultiplayer = true)
    (remembered : reaction.1.state ≠ .game → reaction.1.gameState ≠ .waiting →
      (net.party (!i)).isMultiplayer = true) :
    WillingInvariant (net.absorb i rest reaction) where
  outside := by
    rw [forall_party_iff i]
    simp only [Net.absorb_party_self, Net.absorb_party_other]
    exact ⟨outside, h.outside (!i)⟩
  flying := by
    rw [forall_party_iff i]
    simp only [Net.absorb_party_self, Net.absorb_party_other, Net.absorb_inbox_other,
      Net.absorb_inbox_self, Bool.not_not, List.mem_append]
    refine ⟨flying, fun hmem => h.flying (!i) ?_⟩
    rw [Bool.not_not]
    exact hrest _ hmem
  remembered := by
    rw [forall_party_iff i]
    simp only [Net.absorb_party_self, Net.absorb_party_other, Bool.not_not]
    exact ⟨peer, remembered⟩

/-- Local actions keep the invariant, if the machine does not leave too early. -/
theorem WillingInvariant.act {net : Net Session UInt8} (h : WillingInvariant net) {i : Bool}
    {action : Session.Action} (hclean : LeavesCleanly net (.act i action)) :
    WillingInvariant (net.absorb i (net.inbox i) ((net.party i).perform i action)) := by
  have hperforms := Session.performs i action (net.party i)
  generalize (net.party i).perform i action = reaction at hperforms ⊢
  have hinbox : ∀ c ∈ net.inbox i, c ∈ net.inbox i := fun _ hc => hc
  have hremembered := h.remembered (!i)
  rw [Bool.not_not] at hremembered
  cases hperforms with
  | unchanged =>
      rw [Net.absorb_silent]
      exact h
  | esc =>
      -- a machine that was announced or remembered would have to stay
      apply h.absorb (fun _ => rfl) hinbox
      · intro hflying
        have hin := hflying.resolve_right (List.not_mem_nil)
        exact absurd hin (hclean (h.flying i hin)).1
      · intro hstate hgame
        rcases (hclean (h.remembered i hstate hgame)).2 with hin | hwaiting
        · exact absurd hin hstate
        · exact absurd hwaiting hgame
      · exact fun _ hgame => absurd rfl hgame
  | singlePlayer hmenu =>
      have hsingle := single_of_menu (h.outside i) hmenu
      apply h.absorb (fun _ => rfl) hinbox
      · intro hflying
        have hin := hflying.resolve_right (List.not_mem_nil)
        cases hsingle.symm.trans (h.flying i hin)
      · intro hstate hgame
        cases hsingle.symm.trans (h.remembered i hstate hgame)
      · exact fun hstate => absurd rfl hstate
  | multiplePlayer hmenu =>
      apply h.absorb (fun hstate => absurd rfl hstate) hinbox
      · exact fun _ => rfl
      · exact fun _ _ => rfl
      · exact fun hstate => absurd rfl hstate
  | howTo hmenu =>
      have hsingle := single_of_menu (h.outside i) hmenu
      apply h.absorb (fun _ => hsingle) hinbox
      · exact fun hflying => h.flying i (hflying.resolve_right (List.not_mem_nil))
      · exact h.remembered i
      · exact fun _ hgame => hremembered (by rw [hmenu]; decide) hgame
  | win hgame hrunning =>
      apply h.absorb (fun hstate => absurd hgame hstate) hinbox
      · intro hflying
        apply h.flying i
        apply hflying.resolve_right
        unfold gameWin
        split_ifs
        · simp [handshakeByte_ne_byteL]
        · simp
      · exact h.remembered i
      · exact fun hstate => absurd hgame hstate

/-- Only the handshake byte of the peer ends the waiting. -/
theorem eq_handshakeByte_of_started {i : Bool} {c : UInt8} {s : Session}
    (hwaiting : s.gameState = .waiting) (hstarted : (dispatch i c s).1.gameState ≠ .waiting) :
    c = handshakeByte !i := by
  rcases dispatch_cases i c s with ⟨hc, -⟩ | ⟨hc, -⟩ | ⟨hc, -⟩ | ⟨-, -, -, hrun⟩
  · rw [hc.1, hc.2.1]
    rfl
  · rw [hc.1, hc.2]
    rfl
  · cases hwaiting.symm.trans hc.2
  · rw [hrun] at hstarted
    exact absurd hwaiting hstarted

/-- Only a machine that has chosen to play answers a byte. -/
theorem multiplayer_of_answer {i : Bool} {c d : UInt8} {s : Session}
    (hd : d ∈ (dispatch i c s).2) : s.isMultiplayer = true := by
  cases hmulti : s.isMultiplayer with
  | false =>
      rw [dispatch_silent hmulti] at hd
      cases hd
  | true => rfl

/-- Deliveries keep the invariant. -/
theorem WillingInvariant.deliver {net : Net Session UInt8} (h : WillingInvariant net)
    {i : Bool} {c : UInt8} {rest : List UInt8} (hinbox : net.inbox i = c :: rest)
    (count : Nat) :
    WillingInvariant (net.absorb i (rest.drop count) (dispatch i c (net.party i))) := by
  rcases dispatch_frame i c (net.party i) with ⟨hstate, hmulti, -⟩
  have hflying := h.flying (!i)
  have hremembered := h.remembered (!i)
  rw [Bool.not_not] at hflying hremembered
  apply h.absorb
  · rw [hstate, hmulti]
    exact h.outside i
  · intro d hd
    rw [hinbox]
    exact List.mem_cons_of_mem c (List.mem_of_mem_drop hd)
  · intro hannounced
    rw [hmulti]
    rcases hannounced with hin | hanswer
    · exact h.flying i hin
    · exact multiplayer_of_answer hanswer
  · rw [hmulti]
    exact h.remembered i
  · intro hout hstarted
    rw [hstate] at hout
    by_cases hwaiting : (net.party i).gameState = .waiting
    · apply hflying
      rw [hinbox, ← eq_handshakeByte_of_started hwaiting hstarted]
      exact List.mem_cons_self
    · exact hremembered hout hwaiting

/-- Every step keeps the invariant as long as nobody leaves too early. -/
theorem WillingInvariant.step {net : Net Session UInt8} (h : WillingInvariant net)
    {move : Move Session.Action} (henabled : net.Enabled move)
    (hclean : LeavesCleanly net move) : WillingInvariant (sessionDuplex.step net move) := by
  cases move with
  | act i action => exact h.act hclean
  | deliver i count =>
      rcases henabled.exists_take with ⟨c, rest, hinbox, htake, hdrop⟩
      simp only [Duplex.step, sessionDuplex, htake, hdrop]
      exact h.deliver hinbox (count - 1)

/-! ## Starting a match -/

/-- Under the invariant, a session enters a match only against a willing peer. -/
theorem WillingInvariant.starts {net : Net Session UInt8} (h : WillingInvariant net)
    {move : Move Session.Action} (henabled : net.Enabled move)
    (hbefore : ¬InMatch (net.party move.party))
    (hafter : InMatch ((sessionDuplex.step net move).party move.party)) :
    (net.party (!move.party)).isMultiplayer = true := by
  cases move with
  | act i action =>
      simp only [Move.party, Duplex.step, sessionDuplex, Net.absorb_party_self] at hbefore hafter ⊢
      have hremembered := h.remembered (!i)
      rw [Bool.not_not] at hremembered
      have hperforms := Session.performs i action (net.party i)
      generalize (net.party i).perform i action = reaction at hperforms hafter
      cases hperforms with
      | unchanged => exact absurd hafter hbefore
      | esc => cases hafter.1
      | singlePlayer => cases hafter.2.1
      | multiplePlayer hmenu =>
          -- the machine remembers the peer's handshake
          have hrunning : (net.party i).gameState = .running := hafter.2.2
          exact hremembered (by rw [hmenu]; decide) (by rw [hrunning]; decide)
      | howTo => cases hafter.1
      | win => cases hafter.2.2
  | deliver i count =>
      rcases henabled.exists_take with ⟨c, rest, hinbox, htake, -⟩
      simp only [Duplex.step, sessionDuplex, Move.party, Net.absorb_party_self, htake]
        at hbefore hafter ⊢
      have hflying := h.flying (!i)
      rw [Bool.not_not] at hflying
      rcases dispatch_cases i c (net.party i) with
        ⟨hc, -⟩ | ⟨hc, -⟩ | ⟨-, hrun⟩ | ⟨-, -, -, hrun⟩
      · apply hflying
        rw [hinbox, hc.1, hc.2.1]
        exact List.mem_cons_self
      · apply hflying
        rw [hinbox, hc.1, hc.2]
        exact List.mem_cons_self
      · rw [hrun] at hafter
        cases hafter.2.2
      · rw [hrun] at hafter
        exact absurd hafter hbefore

/-- In every run in which a machine that has chosen to play leaves only when none of its
handshake bytes is in flight and the peer does not remember one, every match starts with a
peer that has chosen to play. -/
theorem starts_willingly (setup : Bool → MenuSetup) (moves : List (Move DeviceInterrupt))
    (hrun : Throughout (machineDuplex setup).step
      (fun net move => net.Enabled move ∧
        LeavesCleanly (sessions net) (sessionMove setup net move)) moves (startNet setup)) :
    Throughout (machineDuplex setup).step (StartsWillingly setup) moves (startNet setup) := by
  apply hrun.imp (fun net => Listening net ∧ WillingInvariant (sessions net))
  · intro net move h hP
    refine ⟨h.1.step hP.1, ?_⟩
    rw [machineDuplex_map_session setup h.1 hP.1]
    exact h.2.step (sessionMove_enabled setup hP.1) hP.2
  · intro net move h hP hbefore hafter _
    have hstarts := h.2.starts (sessionMove_enabled setup hP.1)
    rw [← machineDuplex_map_session setup h.1 hP.1, sessionMove_party] at hstarts
    exact hstarts hbefore hafter
  · exact ⟨Listening.start setup, WillingInvariant.start⟩

/-- The client hears of the host in the menu, the host leaves, and the client joins. -/
def deserted : List (Move DeviceInterrupt) :=
  [.act true (frame (some .multiPlayer)), .deliver false 1, .act true escKey,
    .act false (frame (some .multiPlayer))]

theorem starts_unwillingly :
    ¬∀ (setup : Bool → MenuSetup) (moves : List (Move DeviceInterrupt)),
      Throughout (machineDuplex setup).step Net.Enabled moves (startNet setup) →
      Throughout (machineDuplex setup).step (StartsWillingly setup) moves (startNet setup) := by
  intro hall
  exact absurd (hall (fun _ => gameSetup) deserted (by decide)) (by decide)

/-- The host plays alone first, and only then announces itself. -/
theorem starts_willingly_after_single_player :
    let moves : List (Move DeviceInterrupt) :=
      [.act true (frame (some .singlePlayer)), .act true escKey,
        .act true (frame (some .multiPlayer)), .deliver false 1,
        .act false (frame (some .multiPlayer)), .deliver true 1]
    Throughout (machineDuplex fun _ => gameSetup).step (StartsWillingly fun _ => gameSetup) moves
      (startNet fun _ => gameSetup) :=
  starts_willingly (fun _ => gameSetup) _ (by decide)

end LCOMaze
