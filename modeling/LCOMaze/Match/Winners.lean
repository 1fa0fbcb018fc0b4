import LCOMaze.Match.Handshake

/-!
# Winners

The winner of a match tells the loser by an {lit}`'L'`.  It comes too late for a peer that
wins while the byte is in flight, and not at all when it is handed over behind another byte.

Main results:

- Theorem {lit}`WinnerInvariant.step`: every victory has been heard of, or is in flight.
- Theorem {lit}`one_winner`: a match has at most one winner as long as every verdict is heard.
- Theorem {lit}`two_winners`: both players reach the end before either hears of the other.
-/

namespace LCOMaze

open Foundations

/-- The machine shows that it has won a match. -/
def WonMatch (s : Session) : Prop :=
  s.state = .game ∧ s.isMultiplayer = true ∧ s.gameState = .finish ∧ s.won = true

instance (s : Session) : Decidable (WonMatch s) :=
  inferInstanceAs (Decidable
    (s.state = .game ∧ s.isMultiplayer = true ∧ s.gameState = .finish ∧ s.won = true))

/-- Nobody wins a match while the {lit}`'L'` of a finished peer is in flight to it, and no
delivery takes the last {lit}`'L'` away unheard from a machine that has not finished. -/
def VerdictHeard (net : Net Session UInt8) : Move Session.Action → Prop
  | .act i action =>
      action = .win → (net.party i).state = .game → (net.party i).gameState = .running →
        (net.party i).isMultiplayer = true → byteL ∈ net.inbox i →
        (net.party (!i)).gameState ≠ .finish
  | .deliver i count =>
      byteL ∈ net.inbox i → (net.inbox i).head? = some byteL ∨
        (net.party i).gameState = .finish ∨ byteL ∈ (net.inbox i).drop count

instance (net : Net Session UInt8) (move : Move Session.Action) :
    Decidable (VerdictHeard net move) :=
  match move with
  | .act i action =>
      inferInstanceAs (Decidable (action = .win → (net.party i).state = .game →
        (net.party i).gameState = .running → (net.party i).isMultiplayer = true →
        byteL ∈ net.inbox i → (net.party (!i)).gameState ≠ .finish))
  | .deliver i count =>
      inferInstanceAs (Decidable (byteL ∈ net.inbox i → (net.inbox i).head? = some byteL ∨
        (net.party i).gameState = .finish ∨ byteL ∈ (net.inbox i).drop count))

/-! ## The invariant -/

/-- The machine plays a match and counts itself as its winner. -/
def Won (s : Session) : Prop := s.isMultiplayer = true ∧ s.won = true

/-- The machine has lost. -/
def Lost (s : Session) : Prop := s.gameState = .finish ∧ s.won = false

/-- Only who is in a game can have won it. -/
def Played (s : Session) : Prop := s.won = true → s.state = .game ∧ s.gameState ≠ .waiting

/-- No {lit}`'S'` follows an {lit}`'L'`. -/
def VerdictLast (bytes : List UInt8) : Prop := bytes.Pairwise fun c d => c = byteL → d ≠ byteS

/-- What the verdicts in flight say about both sessions.  The host may be resumed by a late
{lit}`'S'` after it has won, the client is never resumed. -/
structure Verdicts (host client : Session) (toHost toClient : List UInt8) : Prop where
  hostPlayed : Played host
  clientPlayed : Played client
  clientWon : Won client → byteL ∈ toHost ∨ Lost host
  hostWon : Won host →
    byteL ∈ toClient ∨ Lost client ∨ (Won client ∧ host.gameState = .running)
  single : Won client → Won host → host.gameState = .running
  announced : byteL ∈ toHost ∨ Lost host → Won client ∧ client.gameState = .finish
  last : VerdictLast toHost
  settled : Lost host → byteS ∉ toHost

/-- The verdicts of two sessions. -/
abbrev VerdictsOf (net : Net Session UInt8) : Prop :=
  Verdicts (net.party true) (net.party false) (net.inbox true) (net.inbox false)

/-- The invariant of both sessions and channels. -/
structure WinnerInvariant (net : Net Session UInt8) : Prop where
  handshake : HandshakeInvariant net
  verdicts : VerdictsOf net

theorem verdictLast_of_not_mem {bytes : List UInt8} (h : byteL ∉ bytes) : VerdictLast bytes := by
  apply List.pairwise_of_forall_mem_list
  intro c hc d _ hL
  rw [hL] at hc
  exact absurd hc h

/-- As long as the client has not won, only the host has something to tell. -/
theorem Verdicts.quiet {host client : Session} {toHost toClient : List UInt8}
    (hostPlayed : Played host) (clientPlayed : Played client) (hclient : ¬Won client)
    (hL : byteL ∉ toHost) (hlost : ¬Lost host)
    (hhost : Won host → byteL ∈ toClient ∨ Lost client) :
    Verdicts host client toHost toClient where
  hostPlayed := hostPlayed
  clientPlayed := clientPlayed
  clientWon := fun hwon => absurd hwon hclient
  hostWon := fun hwon => (hhost hwon).imp_right Or.inl
  single := fun hwon => absurd hwon hclient
  announced := fun h => (h.elim hL hlost).elim
  last := verdictLast_of_not_mem hL
  settled := fun h => absurd h hlost

/-- A client that has not won has told the host nothing. -/
theorem Verdicts.unannounced {host client : Session} {toHost toClient : List UInt8}
    (h : Verdicts host client toHost toClient) (hclient : ¬Won client) :
    byteL ∉ toHost ∧ ¬Lost host :=
  ⟨fun hL => hclient (h.announced (Or.inl hL)).1,
    fun hlost => hclient (h.announced (Or.inr hlost)).1⟩

/-- A client that plays has not won. -/
theorem Verdicts.not_won_of_running {host client : Session} {toHost toClient : List UInt8}
    (h : Verdicts host client toHost toClient) (hrunning : client.gameState = .running) :
    ¬Won client := by
  intro hwon
  cases hrunning.symm.trans (h.announced (h.clientWon hwon)).2

theorem WinnerInvariant.start : WinnerInvariant startSessions where
  handshake := HandshakeInvariant.start
  verdicts :=
    Verdicts.quiet (fun h => by cases h) (fun h => by cases h) (fun h => by cases h.2)
      List.not_mem_nil (fun h => by cases h.1) (fun h => by cases h.2)

/-! ## Victories -/

/-- The client wins before it hears of a victory of the host. -/
theorem Verdicts.client_wins {host client : Session} {toHost toClient : List UInt8}
    (h : Verdicts host client toHost toClient) (hgame : client.state = .game)
    (hrunning : client.gameState = .running) (hmulti : client.isMultiplayer = true)
    (hheard : byteL ∈ toClient → host.gameState ≠ .finish) :
    Verdicts host (gameWin client).1 (toHost ++ [byteL]) toClient := by
  have hnotyet := h.not_won_of_running hrunning
  have hwon : Won (gameWin client).1 := ⟨hmulti, rfl⟩
  have hflying : Won host → byteL ∈ toClient := by
    intro hhost
    rcases h.hostWon hhost with hL | hlost | hboth
    · exact hL
    · cases hrunning.symm.trans hlost.1
    · exact absurd hboth.1 hnotyet
  rcases h.unannounced hnotyet with ⟨hL, hlost⟩
  refine
    { hostPlayed := h.hostPlayed
      clientPlayed := fun _ => ⟨hgame, fun hwaiting => by cases hwaiting⟩
      clientWon := fun _ => Or.inl (by simp)
      hostWon := fun hhost => Or.inl (hflying hhost)
      single := ?_
      announced := fun _ => ⟨hwon, rfl⟩
      last := ?_
      settled := fun hlost' => absurd hlost' hlost }
  · intro _ hhost
    have hfinish := hheard (hflying hhost)
    have hwaiting := (h.hostPlayed hhost.2).2
    cases hstate : host.gameState with
    | waiting => exact absurd hstate hwaiting
    | running => rfl
    | finish => exact absurd hstate hfinish
  · apply List.pairwise_append.mpr
    refine ⟨h.last, List.pairwise_singleton _ _, ?_⟩
    intro c hc d _ hcL
    rw [hcL] at hc
    exact absurd hc hL

/-- The host wins before it hears of a victory of the client. -/
theorem Verdicts.host_wins {host client : Session} {toHost toClient : List UInt8}
    (h : Verdicts host client toHost toClient) (hgame : host.state = .game)
    (hrunning : host.gameState = .running)
    (hheard : byteL ∈ toHost → client.gameState ≠ .finish) :
    Verdicts (gameWin host).1 client toHost (toClient ++ [byteL]) := by
  have hL : byteL ∉ toHost := fun hL => hheard hL (h.announced (Or.inl hL)).2
  have hclient : ¬Won client := by
    intro hwon
    rcases h.clientWon hwon with hflying | hlost
    · exact hL hflying
    · cases hrunning.symm.trans hlost.1
  exact Verdicts.quiet (fun _ => ⟨hgame, fun hwaiting => by cases hwaiting⟩) h.clientPlayed hclient
    hL (fun hlost => by cases hlost.2) (fun _ => Or.inl (by simp))

/-! ## Deliveries -/

/-- Against a winning host, a client that has finished has lost or is the second winner. -/
theorem Verdicts.client_finished {host client : Session} {toHost toClient : List UInt8}
    (h : Verdicts host client toHost toClient) (hhost : Won host)
    (hmulti : client.isMultiplayer = true) (hfinish : client.gameState = .finish) :
    Lost client ∨ (Won client ∧ host.gameState = .running) := by
  cases hwon : client.won with
  | false => exact Or.inl ⟨hfinish, hwon⟩
  | true =>
      have hclient : Won client := ⟨hmulti, hwon⟩
      exact Or.inr ⟨hclient, h.single hclient hhost⟩

/-- Against a winning client, a host that has finished has lost. -/
theorem Verdicts.host_finished {host client : Session} {toHost toClient : List UInt8}
    (h : Verdicts host client toHost toClient) (hclient : Won client)
    (hmulti : host.isMultiplayer = true) (hfinish : host.gameState = .finish) : Lost host := by
  cases hwon : host.won with
  | false => exact ⟨hfinish, hwon⟩
  | true => cases hfinish.symm.trans (h.single hclient ⟨hmulti, hwon⟩)

/-- Starting a match announces no victory. -/
theorem byteL_not_mem_activate (host : Bool) (s : Session) :
    byteL ∉ (gameActivateMultiplayer host s).2 := by
  unfold gameActivateMultiplayer
  split_ifs
  · simp [(handshakeByte_ne_byteL host).symm]
  · exact List.not_mem_nil

/-- The client starts: it has neither won nor lost. -/
theorem Verdicts.client_starts {host client : Session} {toHost toClient remaining : List UInt8}
    (h : Verdicts host client toHost toClient) (hwaiting : client.gameState = .waiting)
    (hheard : byteL ∈ toClient → byteL ∈ remaining) :
    Verdicts host (gameActivateMultiplayer false client).1
      (toHost ++ (gameActivateMultiplayer false client).2) remaining := by
  have hunwon : client.won ≠ true := fun hwon => (h.clientPlayed hwon).2 hwaiting
  have hnotyet : ¬Won client := fun hwon => hunwon hwon.2
  rcases h.unannounced hnotyet with ⟨htold, hlost⟩
  apply Verdicts.quiet h.hostPlayed
  · exact fun hwon => absurd hwon hunwon
  · exact hnotyet
  · rw [List.mem_append, not_or]
    exact ⟨htold, byteL_not_mem_activate false client⟩
  · exact hlost
  · intro hhost
    left
    rcases h.hostWon hhost with hflying | hfinish | hboth
    · exact hheard hflying
    · cases hwaiting.symm.trans hfinish.1
    · exact absurd hboth.1 hnotyet

/-- The client hears of every victory of the host, unless it has won itself. -/
theorem Verdicts.client_hears {host client : Session} {c : UInt8}
    {toHost rest remaining : List UInt8} (h : Verdicts host client toHost (c :: rest))
    (hstarts : client.gameState = .waiting → c = byteM)
    (hmulti : Won host → client.isMultiplayer = true)
    (hheard : byteL ∈ c :: rest →
      c = byteL ∨ client.gameState = .finish ∨ byteL ∈ remaining) :
    Verdicts host (dispatch false c client).1 (toHost ++ (dispatch false c client).2)
      remaining := by
  rcases dispatch_cases false c client with ⟨hc, hrun⟩ | ⟨hc, -⟩ | ⟨hc, hrun⟩ | ⟨-, -, hL, hrun⟩
  · rw [hrun]
    apply h.client_starts hc.2.2
    intro hflying
    rcases hheard hflying with hcL | hfinish | hlater
    · exact absurd (hc.1.symm.trans hcL) (by decide)
    · cases hc.2.2.symm.trans hfinish
    · exact hlater
  · cases hc.2
  · rcases h.unannounced (h.not_won_of_running hc.2) with ⟨htold, hlost⟩
    rw [hrun, List.append_nil]
    exact Verdicts.quiet h.hostPlayed (fun hwon => by cases hwon) (fun hwon => by cases hwon.2)
      htold hlost (fun _ => Or.inr ⟨rfl, rfl⟩)
  · rw [hrun, List.append_nil]
    refine { h with hostWon := ?_ }
    intro hhost
    have hfinished := h.client_finished hhost (hmulti hhost)
    rcases h.hostWon hhost with hflying | hsettled
    · rcases hheard hflying with hcL | hfinish | hlater
      · -- an ineffective 'L' finds a client that has finished
        right
        apply hfinished
        cases hstate : client.gameState with
        | waiting => exact absurd (hcL.symm.trans (hstarts hstate)) (by decide)
        | running => exact absurd ⟨hcL, hstate⟩ hL
        | finish => rfl
      · exact Or.inr (hfinished hfinish)
      · exact Or.inl hlater
    · exact Or.inr hsettled

/-- The host starts, or resumes a game that it has won. -/
theorem Verdicts.host_starts {host client : Session} {rest remaining toClient : List UInt8}
    (h : Verdicts host client (byteS :: rest) toClient) (hremaining : remaining.Sublist rest)
    (hmulti : Won client → host.isMultiplayer = true)
    (hheard : byteL ∈ byteS :: rest → host.gameState = .finish ∨ byteL ∈ remaining) :
    Verdicts (gameActivateMultiplayer true host).1 client remaining
      (toClient ++ (gameActivateMultiplayer true host).2) := by
  have hlost : ¬Lost host := fun hlost => h.settled hlost List.mem_cons_self
  refine
    { hostPlayed := fun hwon => ⟨(h.hostPlayed hwon).1, fun hwaiting => by cases hwaiting⟩
      clientPlayed := h.clientPlayed
      clientWon := ?_
      hostWon := ?_
      single := fun _ _ => rfl
      announced := ?_
      last := (List.pairwise_cons.mp h.last).2.sublist hremaining
      settled := fun hlost' => by cases hlost'.1 }
  · intro hclient
    left
    rcases h.clientWon hclient with hflying | hlost'
    · rcases hheard hflying with hfinish | hlater
      · exact absurd (h.host_finished hclient (hmulti hclient) hfinish) hlost
      · exact hlater
    · exact absurd hlost' hlost
  · intro hhost
    rcases h.hostWon hhost with hflying | hsettled | hboth
    · exact Or.inl (List.mem_append_left _ hflying)
    · exact Or.inr (Or.inl hsettled)
    · exact Or.inr (Or.inr ⟨hboth.1, rfl⟩)
  · intro hannounced
    rcases hannounced with hflying | hlost'
    · exact h.announced (Or.inl (List.mem_cons_of_mem _ (hremaining.subset hflying)))
    · cases hlost'.1

/-- The host loses, and no late {lit}`'S'` can resume its game. -/
theorem Verdicts.host_loses {host client : Session} {rest remaining toClient : List UInt8}
    (h : Verdicts host client (byteL :: rest) toClient) (hremaining : remaining.Sublist rest) :
    Verdicts (gameLose host) client remaining toClient where
  hostPlayed := fun hwon => by cases hwon
  clientPlayed := h.clientPlayed
  clientWon := fun _ => Or.inr ⟨rfl, rfl⟩
  hostWon := fun hhost => by cases hhost.2
  single := fun _ hhost => by cases hhost.2
  announced := fun _ => h.announced (Or.inl List.mem_cons_self)
  last := (List.pairwise_cons.mp h.last).2.sublist hremaining
  settled := fun _ hS =>
    (List.pairwise_cons.mp h.last).1 byteS (hremaining.subset hS) rfl rfl

/-- The host hears of every victory of the client. -/
theorem Verdicts.host_hears {host client : Session} {c : UInt8}
    {rest remaining toClient : List UInt8} (h : Verdicts host client (c :: rest) toClient)
    (hremaining : remaining.Sublist rest) (hstarts : host.gameState = .waiting → c = byteS)
    (hmulti : Won client → host.isMultiplayer = true)
    (hheard : byteL ∈ c :: rest → c = byteL ∨ host.gameState = .finish ∨ byteL ∈ remaining) :
    Verdicts (dispatch true c host).1 client remaining
      (toClient ++ (dispatch true c host).2) := by
  rcases dispatch_cases true c host with ⟨hc, -⟩ | ⟨hc, hrun⟩ | ⟨hc, hrun⟩ | ⟨-, -, hL, hrun⟩
  · cases hc.2.1
  · rw [hrun]
    rw [hc.1] at h hheard
    apply h.host_starts hremaining hmulti
    intro hflying
    exact (hheard hflying).resolve_left (by decide)
  · rw [hrun, List.append_nil]
    rw [hc.1] at h
    exact h.host_loses hremaining
  · have hmem : ∀ d ∈ remaining, d ∈ c :: rest :=
      fun d hd => List.mem_cons_of_mem c (hremaining.subset hd)
    rw [hrun, List.append_nil]
    refine
      { h with
        clientWon := ?_
        announced := fun hannounced => h.announced (hannounced.imp_left (hmem _))
        last := (List.pairwise_cons.mp h.last).2.sublist hremaining
        settled := fun hlost hS => h.settled hlost (hmem _ hS) }
    intro hclient
    have hfinished := h.host_finished hclient (hmulti hclient)
    rcases h.clientWon hclient with hflying | hlost
    · rcases hheard hflying with hcL | hfinish | hlater
      · -- an ineffective 'L' finds a host that has finished
        right
        apply hfinished
        cases hstate : host.gameState with
        | waiting => exact absurd (hcL.symm.trans (hstarts hstate)) (by decide)
        | running => exact absurd ⟨hcL, hstate⟩ hL
        | finish => rfl
      · exact Or.inr (hfinished hfinish)
      · exact Or.inl hlater
    · exact Or.inr hlost

/-! ## Steps of the sessions -/

namespace WinnerInvariant

variable {net : Net Session UInt8}

theorem played (h : WinnerInvariant net) (i : Bool) : Played (net.party i) := by
  cases i with
  | true => exact h.verdicts.hostPlayed
  | false => exact h.verdicts.clientPlayed

/-- A winner has an opponent. -/
theorem opponent (h : WinnerInvariant net) {i : Bool} (hwon : Won (net.party i)) :
    (net.party (!i)).isMultiplayer = true := by
  rcases (h.handshake.side i).started (h.played i hwon.2).2 with hpeer | ⟨-, hsingle⟩
  · exact hpeer
  · cases hsingle.symm.trans hwon.1

/-- While a machine has not chosen to play a match, nobody has won. -/
theorem nobody (h : WinnerInvariant net) {i : Bool}
    (hsingle : (net.party i).isMultiplayer = false) (j : Bool) : ¬Won (net.party j) := by
  revert j
  rw [forall_party_iff i]
  constructor
  · intro hwon
    cases hsingle.symm.trans hwon.1
  · intro hwon
    have hopponent := h.opponent hwon
    rw [Bool.not_not] at hopponent
    cases hsingle.symm.trans hopponent

/-- What a machine does that has not chosen to play a match does not touch the verdicts. -/
theorem act_quiet (h : WinnerInvariant net) {i : Bool} {reaction : Session × List UInt8}
    (hsingle : (net.party i).isMultiplayer = false) (hplayed : Played reaction.1)
    (hwon : ¬Won reaction.1) (hlost : Lost reaction.1 → Lost (net.party i))
    (hsent : byteL ∉ reaction.2) :
    VerdictsOf (net.absorb i (net.inbox i) reaction) := by
  have hnobody := h.nobody hsingle
  rcases h.verdicts.unannounced (hnobody false) with ⟨htold, hnotlost⟩
  cases i with
  | true =>
      exact Verdicts.quiet hplayed (h.played false) (hnobody false) htold
        (fun hlost' => hnotlost (hlost hlost')) (fun hhost => absurd hhost hwon)
  | false =>
      refine Verdicts.quiet (h.played true) hplayed hwon ?_ hnotlost
        (fun hhost => absurd hhost (hnobody true))
      intro hL
      exact (List.mem_append.mp hL).elim htold hsent

/-- Local actions but ESC keep the verdicts. -/
theorem act (h : WinnerInvariant net) {i : Bool} {action : Session.Action}
    (hesc : action ≠ .esc) (hheard : VerdictHeard net (.act i action)) :
    VerdictsOf (net.absorb i (net.inbox i) ((net.party i).perform i action)) := by
  have hperforms := Session.performs i action (net.party i)
  generalize (net.party i).perform i action = reaction at hperforms ⊢
  have hmenu_single := single_of_menu (h.handshake.side i).outside
  have hmenu_unwon : (net.party i).state = .menu → (net.party i).won ≠ true := by
    intro hmenu hwon
    cases hmenu.symm.trans (h.played i hwon).1
  cases hperforms with
  | unchanged =>
      rw [Net.absorb_silent]
      exact h.verdicts
  | esc => exact absurd rfl hesc
  | singlePlayer hmenu =>
      have hunwon := hmenu_unwon hmenu
      exact h.act_quiet (hmenu_single hmenu) (fun hwon => absurd hwon hunwon)
        (fun hwon => hunwon hwon.2) (fun hlost => by cases hlost.1) List.not_mem_nil
  | multiplePlayer hmenu =>
      have hunwon := hmenu_unwon hmenu
      apply h.act_quiet (hmenu_single hmenu)
      · exact fun hwon => absurd hwon hunwon
      · exact fun hwon => hunwon hwon.2
      · exact id
      · simp [multiplePlayer, (handshakeByte_ne_byteL i).symm]
  | howTo hmenu =>
      have hunwon := hmenu_unwon hmenu
      exact h.act_quiet (hmenu_single hmenu) (fun hwon => absurd hwon hunwon)
        (fun hwon => hunwon hwon.2) id List.not_mem_nil
  | win hgame hrunning =>
      cases hmulti : (net.party i).isMultiplayer with
      | false =>
          apply h.act_quiet hmulti
          · exact fun _ => ⟨hgame, fun hwaiting => by cases hwaiting⟩
          · intro hwon
            cases hmulti.symm.trans hwon.1
          · intro hlost
            cases hlost.2
          · simp [gameWin, hmulti]
      | true =>
          have hsent : (gameWin (net.party i)).2 = [byteL] := if_pos hmulti
          have hnotlate := hheard rfl hgame hrunning hmulti
          cases i with
          | true =>
              have hwins := h.verdicts.host_wins hgame hrunning hnotlate
              rw [← hsent] at hwins
              exact hwins
          | false =>
              have hwins := h.verdicts.client_wins hgame hrunning hmulti hnotlate
              rw [← hsent] at hwins
              exact hwins

/-- Deliveries in which the verdict is heard keep the verdicts. -/
theorem deliver (h : WinnerInvariant net) {i : Bool} {c : UInt8} {rest remaining : List UInt8}
    (hinbox : net.inbox i = c :: rest) (hremaining : remaining.Sublist rest)
    (hheard : byteL ∈ c :: rest →
      c = byteL ∨ (net.party i).gameState = .finish ∨ byteL ∈ remaining) :
    VerdictsOf (net.absorb i remaining (dispatch i c (net.party i))) := by
  have hstarts := fun hwaiting => (h.handshake.starts hwaiting hinbox).1
  have hverdicts := h.verdicts
  cases i with
  | true =>
      rw [VerdictsOf, hinbox] at hverdicts
      exact hverdicts.host_hears hremaining hstarts h.opponent hheard
  | false =>
      rw [VerdictsOf, hinbox] at hverdicts
      exact hverdicts.client_hears hstarts h.opponent hheard

/-- Every step in which the verdict is heard keeps the invariant. -/
theorem step (h : WinnerInvariant net) {move : Move Session.Action}
    (henabled : net.Enabled move) (hesc : NoEsc move) (hheard : VerdictHeard net move) :
    WinnerInvariant (sessionDuplex.step net move) := by
  refine ⟨h.handshake.step henabled hesc, ?_⟩
  cases move with
  | act i action => exact h.act hesc hheard
  | deliver i count =>
      rcases henabled.exists_take with ⟨c, rest, hinbox, htake, hdrop⟩
      simp only [VerdictHeard, hdrop] at hheard
      rw [hinbox, List.head?_cons, Option.some.injEq] at hheard
      simp only [Duplex.step, sessionDuplex, htake, hdrop]
      exact h.deliver hinbox (List.drop_sublist _ _) hheard

/-- The two victories exclude each other. -/
theorem at_most_one (h : WinnerInvariant net) : ¬∀ i, WonMatch (net.party i) := by
  intro hboth
  have hclient : Won (net.party false) := ⟨(hboth false).2.1, (hboth false).2.2.2⟩
  have hhost : Won (net.party true) := ⟨(hboth true).2.1, (hboth true).2.2.2⟩
  cases (hboth true).2.2.1.symm.trans (h.verdicts.single hclient hhost)

end WinnerInvariant

/-! ## The whole run -/

/-- In every run without ESC in which every verdict is heard, at most one machine has won. -/
theorem one_winner (setup : Bool → MenuSetup) (moves : List (Move DeviceInterrupt))
    (hrun : Throughout (machineDuplex setup).step
      (fun net move => net.Enabled move ∧ NoEsc (sessionMove setup net move) ∧
        VerdictHeard (sessions net) (sessionMove setup net move)) moves (startNet setup)) :
    ¬∀ i, WonMatch
      ((moves.foldl (machineDuplex setup).step (startNet setup)).party i).session := by
  have h : WinnerInvariant (sessions (moves.foldl (machineDuplex setup).step (startNet setup))) :=
    session_invariant (Q := fun net move => NoEsc move ∧ VerdictHeard net move)
      WinnerInvariant.start
      (fun _ _ hinv henabled hQ => hinv.step henabled hQ.1 hQ.2) hrun
  exact h.at_most_one

/-- A match that both players walk to the end. -/
def bothWalk : List (Move DeviceInterrupt) :=
  [.act true (frame (some .multiPlayer)), .deliver false 1,
    .act false (frame (some .multiPlayer)), .deliver true 1] ++
    walkToGoal.map (.act false) ++ walkToGoal.map (.act true)

/-- Both players reach the end while the {lit}`'L'` of the client is in flight. -/
def photoFinish : List (Move DeviceInterrupt) :=
  bothWalk ++ [.act false (frame none), .act true (frame none)]

set_option maxRecDepth 100000 in
theorem two_winners :
    ¬∀ (setup : Bool → MenuSetup) (moves : List (Move DeviceInterrupt)),
      Throughout (machineDuplex setup).step
        (fun net move => net.Enabled move ∧ NoEsc (sessionMove setup net move)) moves
        (startNet setup) →
      ¬∀ i, WonMatch
        ((moves.foldl (machineDuplex setup).step (startNet setup)).party i).session := by
  intro hall
  exact absurd (by decide +kernel) (hall (fun _ => gameSetup) photoFinish (by decide +kernel))

set_option maxRecDepth 100000 in
/-- The same match, but the host hears of the client's victory in time. -/
theorem one_winner_in_time :
    let moves := bothWalk ++ [.act false (frame none), .deliver true 1, .act true (frame none)]
    ¬∀ i, WonMatch ((moves.foldl (machineDuplex fun _ => gameSetup).step
      (startNet fun _ => gameSetup)).party i).session :=
  one_winner (fun _ => gameSetup) _ (by decide +kernel)

end LCOMaze
