import LCOMaze.Match.Winners

/-!
# Losers

Only an {lit}`'L'` makes a loser, and only a winner of a match sends one.  The client never
leaves a finished game, and the host loses only to a client that has won, so whoever is
told that he has lost has a peer that still counts itself as the winner.

Main results:

- Theorem {lit}`LoserInvariant.step`: every defeat, felt or in flight, has its winner.
- Theorem {lit}`loser_has_winner`: in every run without ESC a loser has a peer that has won.
-/

namespace LCOMaze

open Foundations

/-- The machine shows that it has lost a match. -/
def LostMatch (s : Session) : Prop :=
  s.isMultiplayer = true ∧ s.gameState = .finish ∧ s.won = false

instance (s : Session) : Decidable (LostMatch s) :=
  inferInstanceAs (Decidable (s.isMultiplayer = true ∧ s.gameState = .finish ∧ s.won = false))

/-! ## The invariant -/

/-- What the verdicts in flight and the defeats say about both sessions.  A host that has won
may be resumed, so only the client is known to stay finished. -/
structure Defeats (host client : Session) (toHost toClient : List UInt8) : Prop where
  final : client.won = true → client.gameState = .finish
  hostBeaten : byteL ∈ toHost ∨ Lost host → Won client
  clientBeaten : client.won = false → byteL ∈ toClient ∨ client.gameState = .finish → Won host

/-- The defeats of two sessions. -/
abbrev DefeatsOf (net : Net Session UInt8) : Prop :=
  Defeats (net.party true) (net.party false) (net.inbox true) (net.inbox false)

/-- The invariant of both sessions and channels. -/
structure LoserInvariant (net : Net Session UInt8) : Prop where
  outside : ∀ i, (net.party i).state ≠ .game → (net.party i).isMultiplayer = false
  played : ∀ i, Played (net.party i)
  defeats : DefeatsOf net

theorem LoserInvariant.start : LoserInvariant startSessions where
  outside := fun _ _ => rfl
  played := fun _ hwon => by cases hwon
  defeats :=
    { final := fun hwon => by cases hwon
      hostBeaten := fun h =>
        h.elim (fun hL => absurd hL List.not_mem_nil) (fun hlost => by cases hlost.1)
      clientBeaten := fun _ h =>
        h.elim (fun hL => absurd hL List.not_mem_nil) (fun hfinish => by cases hfinish) }

/-- A client that has not won has beaten nobody. -/
theorem Defeats.unbeaten {host client : Session} {toHost toClient : List UInt8}
    (h : Defeats host client toHost toClient) (hclient : client.won ≠ true) :
    ¬(byteL ∈ toHost ∨ Lost host) :=
  fun hbeaten => hclient (h.hostBeaten hbeaten).2

/-- The client does something that neither wins nor tells anything of a victory. -/
theorem Defeats.client_quiet {host client client' : Session}
    {toHost toClient remaining sent : List UInt8} (h : Defeats host client toHost toClient)
    (hremaining : remaining.Sublist toClient) (hunwon : client.won = false)
    (hunwon' : client'.won = false) (hsent : byteL ∉ sent)
    (hfinish : client'.gameState = .finish → byteL ∈ toClient ∨ client.gameState = .finish) :
    Defeats host client' (toHost ++ sent) remaining where
  final := by
    intro hwon
    cases hunwon'.symm.trans hwon
  hostBeaten := by
    intro hbeaten
    have hno : ¬(byteL ∈ toHost ∨ Lost host) := by
      apply h.unbeaten
      rw [hunwon]
      decide
    rcases hbeaten with hL | hlost
    · rcases List.mem_append.mp hL with hL | hL
      · exact absurd (Or.inl hL) hno
      · exact absurd hL hsent
    · exact absurd (Or.inr hlost) hno
  clientBeaten := by
    intro _ hbeaten
    apply h.clientBeaten hunwon
    rcases hbeaten with hL | hfinished
    · exact Or.inl (hremaining.subset hL)
    · exact hfinish hfinished

/-- The host does something that makes no new loser and forgets no victory over the client. -/
theorem Defeats.host_quiet {host host' client : Session}
    {toHost toClient remaining sent : List UInt8} (h : Defeats host client toHost toClient)
    (hremaining : remaining.Sublist toHost) (hlost : Lost host' → Lost host)
    (hwon : Won host → Won host') (hsent : byteL ∈ sent → Won host') :
    Defeats host' client remaining (toClient ++ sent) where
  final := h.final
  hostBeaten := fun hbeaten => h.hostBeaten (hbeaten.imp (fun hL => hremaining.subset hL) hlost)
  clientBeaten := by
    intro hunwon hbeaten
    rcases hbeaten with hL | hfinish
    · rcases List.mem_append.mp hL with hL | hL
      · exact hwon (h.clientBeaten hunwon (Or.inl hL))
      · exact hsent hL
    · exact hwon (h.clientBeaten hunwon (Or.inr hfinish))

/-- The client wins, before it is told anything. -/
theorem Defeats.client_wins {host client : Session} {toHost toClient : List UInt8}
    (h : Defeats host client toHost toClient) (hrunning : client.gameState = .running) :
    Defeats host (gameWin client).1 (toHost ++ (gameWin client).2) toClient where
  final := fun _ => rfl
  hostBeaten := by
    intro hbeaten
    have hno : ¬(byteL ∈ toHost ∨ Lost host) := by
      apply h.unbeaten
      intro hwon
      cases hrunning.symm.trans (h.final hwon)
    have hsent : byteL ∈ (gameWin client).2 := by
      rcases hbeaten with hL | hlost
      · exact (List.mem_append.mp hL).resolve_left fun hL => hno (Or.inl hL)
      · exact absurd (Or.inr hlost) hno
    unfold gameWin at hsent
    split_ifs at hsent with hmulti
    · exact ⟨hmulti, rfl⟩
    · exact absurd hsent List.not_mem_nil
  clientBeaten := by
    intro hunwon
    cases hunwon

/-- A byte that only leaves the channel tells nobody anything. -/
theorem Defeats.dropped {host client : Session} {toHost toClient remaining : List UInt8}
    (h : Defeats host client toHost toClient) (hremaining : remaining.Sublist toClient) :
    Defeats host client (toHost ++ []) remaining where
  final := h.final
  hostBeaten := by
    rw [List.append_nil]
    exact h.hostBeaten
  clientBeaten := fun hunwon hbeaten =>
    h.clientBeaten hunwon (hbeaten.imp_left fun hL => hremaining.subset hL)

/-- The client loses to the host that has sent the {lit}`'L'`. -/
theorem Defeats.client_loses {host client : Session} {toHost rest remaining : List UInt8}
    (h : Defeats host client toHost (byteL :: rest)) (hremaining : remaining.Sublist rest)
    (hrunning : client.gameState = .running) :
    Defeats host (gameLose client) (toHost ++ []) remaining := by
  have hunwon : client.won = false := by
    rw [Bool.eq_false_iff]
    intro hwon
    cases hrunning.symm.trans (h.final hwon)
  exact h.client_quiet (hremaining.cons byteL) hunwon rfl List.not_mem_nil
    (fun _ => Or.inl List.mem_cons_self)

/-- The host loses to the client that has sent the {lit}`'L'`. -/
theorem Defeats.host_loses {host client : Session} {rest remaining toClient : List UInt8}
    (h : Defeats host client (byteL :: rest) toClient) :
    Defeats (gameLose host) client remaining (toClient ++ []) where
  final := h.final
  hostBeaten := fun _ => h.hostBeaten (Or.inl List.mem_cons_self)
  clientBeaten := by
    intro hunwon
    cases hunwon.symm.trans (h.hostBeaten (Or.inl List.mem_cons_self)).2

/-! ## Steps of the sessions -/

namespace LoserInvariant

variable {net : Net Session UInt8}

/-- What an action or a byte does to the facts about the machine that reacts. -/
theorem absorb (h : LoserInvariant net) {i : Bool} {rest : List UInt8}
    {reaction : Session × List UInt8}
    (houtside : reaction.1.state ≠ .game → reaction.1.isMultiplayer = false)
    (hplayed : Played reaction.1) (hdefeats : DefeatsOf (net.absorb i rest reaction)) :
    LoserInvariant (net.absorb i rest reaction) where
  outside := by
    rw [forall_party_iff i]
    simp only [Net.absorb_party_self, Net.absorb_party_other]
    exact ⟨houtside, h.outside (!i)⟩
  played := by
    rw [forall_party_iff i]
    simp only [Net.absorb_party_self, Net.absorb_party_other]
    exact ⟨hplayed, h.played (!i)⟩
  defeats := hdefeats

/-- In the menu nobody has won. -/
theorem unwon_of_menu (h : LoserInvariant net) {i : Bool} (hmenu : (net.party i).state = .menu) :
    (net.party i).won = false := by
  rw [Bool.eq_false_iff]
  intro hwon
  cases hmenu.symm.trans (h.played i hwon).1

/-- A click in the menu makes neither winners nor losers. -/
theorem click (h : LoserInvariant net) {i : Bool} {reaction : Session × List UInt8}
    (hmenu : (net.party i).state = .menu)
    (houtside : reaction.1.state ≠ .game → reaction.1.isMultiplayer = false)
    (hwon : reaction.1.won = (net.party i).won)
    (hfinish : reaction.1.gameState = .finish → (net.party i).gameState = .finish)
    (hsent : byteL ∉ reaction.2) : LoserInvariant (net.absorb i (net.inbox i) reaction) := by
  have hunwon := h.unwon_of_menu hmenu
  have hunwon' : reaction.1.won = false := hwon.trans hunwon
  apply h.absorb houtside
  · intro hwins
    cases hunwon'.symm.trans hwins
  · cases i with
    | true =>
        apply h.defeats.host_quiet (List.Sublist.refl _)
        · exact fun hlost => ⟨hfinish hlost.1, hunwon⟩
        · intro hwins
          cases hunwon.symm.trans hwins.2
        · exact fun hL => absurd hL hsent
    | false =>
        exact h.defeats.client_quiet (List.Sublist.refl _) hunwon hunwon' hsent
          (fun hfinished => Or.inr (hfinish hfinished))

/-- Local actions but ESC keep the invariant. -/
theorem act (h : LoserInvariant net) {i : Bool} {action : Session.Action}
    (hesc : action ≠ .esc) :
    LoserInvariant (net.absorb i (net.inbox i) ((net.party i).perform i action)) := by
  have hperforms := Session.performs i action (net.party i)
  generalize (net.party i).perform i action = reaction at hperforms ⊢
  cases hperforms with
  | unchanged =>
      rw [Net.absorb_silent]
      exact h
  | esc => exact absurd rfl hesc
  | singlePlayer hmenu =>
      exact h.click hmenu (fun _ => rfl) rfl (fun hfinish => by cases hfinish) List.not_mem_nil
  | multiplePlayer hmenu =>
      apply h.click hmenu
      · exact fun hstate => absurd rfl hstate
      · rfl
      · exact id
      · simp [multiplePlayer, (handshakeByte_ne_byteL i).symm]
  | howTo hmenu =>
      have hsingle := single_of_menu (h.outside i) hmenu
      exact h.click hmenu (fun _ => hsingle) rfl id List.not_mem_nil
  | win hgame hrunning =>
      apply h.absorb
      · exact fun hstate => absurd hgame hstate
      · exact fun _ => ⟨hgame, fun hwaiting => by cases hwaiting⟩
      · cases i with
        | true =>
            apply h.defeats.host_quiet (List.Sublist.refl _)
            · intro hlost
              cases hlost.2
            · exact fun hwon => ⟨hwon.1, rfl⟩
            · intro hL
              unfold gameWin at hL
              split_ifs at hL with hmulti
              · exact ⟨hmulti, rfl⟩
              · exact absurd hL List.not_mem_nil
        | false => exact h.defeats.client_wins hrunning

/-- A received byte keeps the invariant. -/
theorem deliver (h : LoserInvariant net) {i : Bool} {c : UInt8} {rest remaining : List UInt8}
    (hinbox : net.inbox i = c :: rest) (hremaining : remaining.Sublist rest) :
    LoserInvariant (net.absorb i remaining (dispatch i c (net.party i))) := by
  have hlater : remaining.Sublist (net.inbox i) := by
    rw [hinbox]
    exact hremaining.cons c
  have hplayed := h.played i
  rcases dispatch_frame i c (net.party i) with ⟨hstate, hmulti, -⟩
  have houtside : (dispatch i c (net.party i)).1.state ≠ .game →
      (dispatch i c (net.party i)).1.isMultiplayer = false := by
    rw [hstate, hmulti]
    exact h.outside i
  rcases dispatch_cases i c (net.party i) with ⟨hc, hrun⟩ | ⟨hc, hrun⟩ | ⟨hc, hrun⟩ |
    ⟨-, -, -, hrun⟩
  · -- only the client starts with an 'M'
    have hunwon : (net.party i).won = false := by
      rw [Bool.eq_false_iff]
      exact fun hwon => (hplayed hwon).2 hc.2.2
    rw [hrun] at houtside ⊢
    have hi : i = false := hc.2.1
    subst hi
    apply h.absorb houtside
    · intro hwon
      cases hunwon.symm.trans hwon
    · exact h.defeats.client_quiet hlater hunwon hunwon
        (byteL_not_mem_activate false _) (fun hfinish => by cases hfinish)
  · -- only the host starts with an 'S', and keeps what it has won
    rw [hrun] at houtside ⊢
    have hi : i = true := hc.2
    subst hi
    apply h.absorb houtside
    · exact fun hwon => ⟨(hplayed hwon).1, fun hwaiting => by cases hwaiting⟩
    · exact h.defeats.host_quiet hlater (fun hlost => by cases hlost.1) id
        (fun hL => absurd hL (byteL_not_mem_activate true _))
  · rw [hrun] at houtside ⊢
    apply h.absorb houtside
    · intro hwon
      cases hwon
    · have hdefeats := h.defeats
      cases i with
      | true =>
          rw [DefeatsOf, hinbox, hc.1] at hdefeats
          exact hdefeats.host_loses
      | false =>
          rw [DefeatsOf, hinbox, hc.1] at hdefeats
          exact hdefeats.client_loses hremaining hc.2
  · rw [hrun] at houtside ⊢
    apply h.absorb houtside hplayed
    cases i with
    | true =>
        exact h.defeats.host_quiet hlater id id (fun hL => absurd hL List.not_mem_nil)
    | false => exact h.defeats.dropped hlater

/-- Every step but ESC keeps the invariant. -/
theorem step (h : LoserInvariant net) {move : Move Session.Action}
    (henabled : net.Enabled move) (hesc : NoEsc move) :
    LoserInvariant (sessionDuplex.step net move) := by
  cases move with
  | act i action => exact h.act hesc
  | deliver i count =>
      rcases henabled.exists_take with ⟨c, rest, hinbox, htake, hdrop⟩
      simp only [Duplex.step, sessionDuplex, htake, hdrop]
      exact h.deliver hinbox (List.drop_sublist _ _)

/-- A loser has lost to its peer. -/
theorem winner (h : LoserInvariant net) (i : Bool) (hlost : LostMatch (net.party i)) :
    Won (net.party (!i)) := by
  cases i with
  | true => exact h.defeats.hostBeaten (Or.inr hlost.2)
  | false => exact h.defeats.clientBeaten hlost.2.2 (Or.inr hlost.2.1)

end LoserInvariant

/-! ## The whole run -/

/-- In every run without ESC, the peer of a machine that has lost a match has chosen to play
one and has won; so the two players never both lose. -/
theorem loser_has_winner (setup : Bool → MenuSetup) (moves : List (Move DeviceInterrupt))
    (hrun : Throughout (machineDuplex setup).step
      (fun net move => net.Enabled move ∧ NoEsc (sessionMove setup net move)) moves
      (startNet setup)) :
    let net := moves.foldl (machineDuplex setup).step (startNet setup)
    (∀ i, LostMatch (net.party i).session →
      (net.party (!i)).session.isMultiplayer = true ∧ (net.party (!i)).session.won = true) ∧
    ¬∀ i, LostMatch (net.party i).session := by
  intro net
  have h : LoserInvariant (sessions net) :=
    session_invariant (Q := fun _ move => NoEsc move) LoserInvariant.start
      (fun _ _ hinv henabled hesc => hinv.step henabled hesc) hrun
  refine ⟨h.winner, ?_⟩
  intro hboth
  have hwon := h.winner true (hboth true)
  cases (hboth false).2.2.symm.trans hwon.2

set_option maxRecDepth 100000 in
/-- The client wins the match and the host hears of it. -/
theorem loser_has_winner_host :
    let moves := bothWalk ++ [.act false (frame none), .deliver true 1]
    let net := moves.foldl (machineDuplex fun _ => gameSetup).step (startNet fun _ => gameSetup)
    LostMatch (net.party true).session ∧
      (net.party false).session.isMultiplayer = true ∧ (net.party false).session.won = true := by
  intro moves net
  have hlost : LostMatch (net.party true).session := by decide +kernel
  exact ⟨hlost, (loser_has_winner (fun _ => gameSetup) moves (by decide +kernel)).1 true hlost⟩

end LCOMaze
