import Mathlib.Tactic.Common

/-!
# The session of one machine

The global variables that decide which screen is shown and how far a match has come,
with the functions of {lit}`game.c`, {lit}`menu.c` and {lit}`proj.c` that write them.  A function
that calls {lit}`sp_send_int` also returns the bytes it sends.

Main results:

- Theorem {lit}`dispatch_cases`: everything that a received byte can do.
- Theorem {lit}`dispatch_invisible_iff`: exactly the ineffective bytes show nothing.
- Theorem {lit}`Session.performs`: everything that a local action can do.
-/

namespace LCOMaze

/-! ## Variables -/

/-- {lit}`State`. -/
inductive State where
  | menu
  | game
  | howTo
deriving DecidableEq, Repr

/-- {lit}`GameState`. -/
inductive GameState where
  | waiting
  | running
  | finish
deriving DecidableEq, Repr

/-- The global variables of a session. -/
structure Session where
  state : State
  isMultiplayer : Bool
  gameState : GameState
  won : Bool
deriving DecidableEq, Repr

/-- Their initial values. -/
def Session.init : Session := ⟨.menu, false, .waiting, false⟩

/-- The byte {lit}`'M'`. -/
def byteM : UInt8 := 0x4D

/-- The byte {lit}`'S'`. -/
def byteS : UInt8 := 0x53

/-- The byte {lit}`'L'`. -/
def byteL : UInt8 := 0x4C

/-- The byte by which a machine announces that it plays. -/
def handshakeByte (host : Bool) : UInt8 := if host then byteM else byteS

/-- All bytes that a machine sends. -/
def protocolBytes : List UInt8 := [byteM, byteS, byteL]

theorem ne_zero_of_mem_protocolBytes {c : UInt8} (h : c ∈ protocolBytes) : c ≠ 0 := by
  intro hzero
  rw [hzero] at h
  exact absurd h (by decide)

theorem handshakeByte_mem (host : Bool) : handshakeByte host ∈ protocolBytes := by
  cases host <;> decide

theorem handshakeByte_ne_byteL (host : Bool) : handshakeByte host ≠ byteL := by
  cases host <;> decide

/-- The two machines announce themselves by different bytes. -/
theorem handshakeByte_ne_other (host : Bool) : handshakeByte host ≠ handshakeByte !host := by
  cases host <;> decide

/-! ## The functions of {lit}`game.c` and {lit}`menu.c` -/

/-- {lit}`game_activate_multiplayer`. -/
def gameActivateMultiplayer (host : Bool) (s : Session) : Session × List UInt8 :=
  ({ s with gameState := .running }, if s.isMultiplayer then [handshakeByte host] else [])

/-- The assignments of {lit}`game_reset` to the session. -/
def Session.reset (s : Session) : Session :=
  { s with isMultiplayer := false, won := false, gameState := .waiting }

/-- {lit}`game_lose`. -/
def gameLose (s : Session) : Session := { s with gameState := .finish, won := false }

/-- The branch of {lit}`game_main_loop` in which {lit}`check_game_end` holds. -/
def gameWin (s : Session) : Session × List UInt8 :=
  ({ s with gameState := .finish, won := true }, if s.isMultiplayer then [byteL] else [])

/-- {lit}`can_lose`. -/
def canLose (s : Session) : Bool := s.gameState = .running

/-- {lit}`can_enter_multiplayer`. -/
def canEnterMultiplayer (s : Session) : Bool := s.gameState = .waiting

/-- {lit}`single_player`. -/
def singlePlayer (s : Session) : Session :=
  { s with state := .game, isMultiplayer := false, gameState := .running }

/-- {lit}`multiple_player`. -/
def multiplePlayer (host : Bool) (s : Session) : Session × List UInt8 :=
  ({ s with state := .game, isMultiplayer := true }, [handshakeByte host])

/-- {lit}`how_to`. -/
def howTo (s : Session) : Session := { s with state := .howTo }

/-! ## The dispatch of {lit}`proj_main_loop` -/

/-- The three tests on the received byte. -/
def dispatch (host : Bool) (c : UInt8) (s : Session) : Session × List UInt8 :=
  let (s, sentM) :=
    if c = byteM && !host && canEnterMultiplayer s then gameActivateMultiplayer host s
    else (s, [])
  let (s, sentS) :=
    if c = byteS && host then gameActivateMultiplayer host s else (s, [])
  let s := if c = byteL && canLose s then gameLose s else s
  (s, sentM ++ sentS)

/-- The byte starts a match at the client. -/
def StartsClient (host : Bool) (c : UInt8) (s : Session) : Prop :=
  c = byteM ∧ host = false ∧ s.gameState = .waiting

/-- The byte starts a match at the host, whatever it is doing. -/
def StartsHost (host : Bool) (c : UInt8) : Prop := c = byteS ∧ host = true

/-- The byte ends a game. -/
def EndsGame (c : UInt8) (s : Session) : Prop := c = byteL ∧ s.gameState = .running

/-- {lit}`'M'` is guarded at the client and ignored by the host. -/
theorem dispatch_byteM (host : Bool) (s : Session) :
    dispatch host byteM s =
      if host = false ∧ s.gameState = .waiting then gameActivateMultiplayer host s
      else (s, []) := by
  rcases s with ⟨state, isMultiplayer, gameState, won⟩
  cases host <;> cases gameState <;> cases isMultiplayer <;> rfl

/-- {lit}`'S'` is not guarded at the host and ignored by the client. -/
theorem dispatch_byteS (host : Bool) (s : Session) :
    dispatch host byteS s =
      if host = true then gameActivateMultiplayer host s else (s, []) := by
  cases host <;> rfl

/-- {lit}`'L'` is guarded at both machines. -/
theorem dispatch_byteL (host : Bool) (s : Session) :
    dispatch host byteL s = if s.gameState = .running then (gameLose s, []) else (s, []) := by
  rcases s with ⟨state, isMultiplayer, gameState, won⟩
  cases host <;> cases gameState <;> rfl

/-- Any other byte is ignored. -/
theorem dispatch_other {c : UInt8} (hM : c ≠ byteM) (hS : c ≠ byteS) (hL : c ≠ byteL)
    (host : Bool) (s : Session) : dispatch host c s = (s, []) := by
  simp [dispatch, hM, hS, hL]

/-- Everything that a received byte can do. -/
theorem dispatch_cases (host : Bool) (c : UInt8) (s : Session) :
    (StartsClient host c s ∧ dispatch host c s = gameActivateMultiplayer host s) ∨
    (StartsHost host c ∧ dispatch host c s = gameActivateMultiplayer host s) ∨
    (EndsGame c s ∧ dispatch host c s = (gameLose s, [])) ∨
    (¬StartsClient host c s ∧ ¬StartsHost host c ∧ ¬EndsGame c s ∧
      dispatch host c s = (s, [])) := by
  have hMS : byteM ≠ byteS := by decide
  have hML : byteM ≠ byteL := by decide
  have hSL : byteS ≠ byteL := by decide
  by_cases hM : c = byteM
  · subst hM
    rw [dispatch_byteM]
    split_ifs with hstart
    · exact Or.inl ⟨⟨rfl, hstart⟩, rfl⟩
    · exact Or.inr (Or.inr (Or.inr
        ⟨fun h => hstart h.2, fun h => hMS h.1, fun h => hML h.1, rfl⟩))
  · by_cases hS : c = byteS
    · subst hS
      rw [dispatch_byteS]
      split_ifs with hhost
      · exact Or.inr (Or.inl ⟨⟨rfl, hhost⟩, rfl⟩)
      · exact Or.inr (Or.inr (Or.inr
          ⟨fun h => hM h.1, fun h => hhost h.2, fun h => hSL h.1, rfl⟩))
    · by_cases hL : c = byteL
      · subst hL
        rw [dispatch_byteL]
        split_ifs with hrunning
        · exact Or.inr (Or.inr (Or.inl ⟨⟨rfl, hrunning⟩, rfl⟩))
        · exact Or.inr (Or.inr (Or.inr
            ⟨fun h => hM h.1, fun h => hS h.1, fun h => hrunning h.2, rfl⟩))
      · rw [dispatch_other hM hS hL]
        exact Or.inr (Or.inr (Or.inr
          ⟨fun h => hM h.1, fun h => hS h.1, fun h => hL h.1, rfl⟩))

/-- A received byte neither leads back to waiting nor changes the screen or the choice. -/
theorem dispatch_frame (host : Bool) (c : UInt8) (s : Session) :
    (dispatch host c s).1.state = s.state ∧
      (dispatch host c s).1.isMultiplayer = s.isMultiplayer ∧
      (s.gameState ≠ .waiting → (dispatch host c s).1.gameState ≠ .waiting) := by
  rcases dispatch_cases host c s with ⟨-, hrun⟩ | ⟨-, hrun⟩ | ⟨-, hrun⟩ | ⟨-, -, -, hrun⟩ <;>
    rw [hrun]
  · exact ⟨rfl, rfl, fun _ hwaiting => by cases hwaiting⟩
  · exact ⟨rfl, rfl, fun _ hwaiting => by cases hwaiting⟩
  · exact ⟨rfl, rfl, fun _ hwaiting => by cases hwaiting⟩
  · exact ⟨rfl, rfl, id⟩

/-- The byte has a visible effect: it changes {lit}`gameState` or {lit}`won`, or it is
answered. -/
def Effective (host : Bool) (c : UInt8) (s : Session) : Prop :=
  StartsClient host c s ∨
    (StartsHost host c ∧ (s.gameState ≠ .running ∨ s.isMultiplayer = true)) ∨ EndsGame c s

instance (host : Bool) (c : UInt8) (s : Session) : Decidable (Effective host c s) := by
  unfold Effective StartsClient StartsHost EndsGame
  infer_instance

/-- An ineffective byte leaves the whole session alone. -/
theorem dispatch_of_not_effective {host : Bool} {c : UInt8} {s : Session}
    (h : ¬Effective host c s) : dispatch host c s = (s, []) := by
  rcases dispatch_cases host c s with ⟨hc, -⟩ | ⟨hc, hrun⟩ | ⟨hc, -⟩ | ⟨-, -, -, hrun⟩
  · exact absurd (Or.inl hc) h
  · -- the host is playing alone already
    have hquiet : ¬(s.gameState ≠ .running ∨ s.isMultiplayer = true) :=
      fun hloud => h (Or.inr (Or.inl ⟨hc, hloud⟩))
    rw [not_or, not_not] at hquiet
    rcases s with ⟨state, isMultiplayer, gameState, won⟩
    rw [hrun, gameActivateMultiplayer, if_neg hquiet.2, ← hquiet.1]
  · exact absurd (Or.inr (Or.inr hc)) h
  · exact hrun

/-- Exactly the ineffective bytes show nothing. -/
theorem dispatch_invisible_iff (host : Bool) (c : UInt8) (s : Session) :
    ((dispatch host c s).1.gameState = s.gameState ∧ (dispatch host c s).1.won = s.won ∧
      (dispatch host c s).2 = []) ↔ ¬Effective host c s := by
  constructor
  · intro h heffective
    rcases dispatch_cases host c s with ⟨hc, hrun⟩ | ⟨hc, hrun⟩ | ⟨hc, hrun⟩ | ⟨hM, hS, hL, -⟩
    · rw [hrun, gameActivateMultiplayer, hc.2.2] at h
      cases h.1
    · rw [hrun, gameActivateMultiplayer] at h
      rcases heffective with hM | ⟨-, hrunning | hmulti⟩ | hL
      · exact absurd (hM.1.symm.trans hc.1) (by decide)
      · exact hrunning h.1.symm
      · rw [if_pos hmulti] at h
        exact absurd h.2.2 (List.cons_ne_nil _ _)
      · exact absurd (hL.1.symm.trans hc.1) (by decide)
    · rw [hrun, gameLose, hc.2] at h
      cases h.1
    · rcases heffective with hM' | ⟨hS', -⟩ | hL'
      · exact hM hM'
      · exact hS hS'
      · exact hL hL'
  · intro h
    rw [dispatch_of_not_effective h]
    exact ⟨rfl, rfl, rfl⟩

/-! ## Local actions -/

/-- What an interrupt of a local device can do to a session. -/
inductive Session.Action where
  | idle
  | esc
  | singlePlayer
  | multiplePlayer
  | howTo
  | win
deriving DecidableEq, Repr

/-- The effect of an action; outside its screen it has none. -/
def Session.perform (host : Bool) (action : Session.Action) (s : Session) :
    Session × List UInt8 :=
  match action with
  | .idle => (s, [])
  | .esc => ({ s.reset with state := .menu }, [])
  | .singlePlayer => if s.state = .menu then (LCOMaze.singlePlayer s, []) else (s, [])
  | .multiplePlayer => if s.state = .menu then LCOMaze.multiplePlayer host s else (s, [])
  | .howTo => if s.state = .menu then (LCOMaze.howTo s, []) else (s, [])
  | .win => if s.state = .game ∧ s.gameState = .running then gameWin s else (s, [])

/-- Everything that a local action can do, with the guards under which it does it. -/
inductive Session.Performs (host : Bool) (s : Session) :
    Session.Action → Session × List UInt8 → Prop
  | unchanged {action : Session.Action} (hesc : action ≠ .esc) : Performs host s action (s, [])
  | esc : Performs host s .esc ({ s.reset with state := .menu }, [])
  | singlePlayer (hmenu : s.state = .menu) :
      Performs host s .singlePlayer (LCOMaze.singlePlayer s, [])
  | multiplePlayer (hmenu : s.state = .menu) :
      Performs host s .multiplePlayer (LCOMaze.multiplePlayer host s)
  | howTo (hmenu : s.state = .menu) : Performs host s .howTo (LCOMaze.howTo s, [])
  | win (hgame : s.state = .game) (hrunning : s.gameState = .running) :
      Performs host s .win (gameWin s)

/-- {lit}`perform` does one of these things. -/
theorem Session.performs (host : Bool) (action : Session.Action) (s : Session) :
    Session.Performs host s action (s.perform host action) := by
  cases action with
  | idle => exact .unchanged (by decide)
  | esc => exact .esc
  | singlePlayer =>
      by_cases hmenu : s.state = .menu
      · rw [Session.perform, if_pos hmenu]
        exact .singlePlayer hmenu
      · rw [Session.perform, if_neg hmenu]
        exact .unchanged (by decide)
  | multiplePlayer =>
      by_cases hmenu : s.state = .menu
      · rw [Session.perform, if_pos hmenu]
        exact .multiplePlayer hmenu
      · rw [Session.perform, if_neg hmenu]
        exact .unchanged (by decide)
  | howTo =>
      by_cases hmenu : s.state = .menu
      · rw [Session.perform, if_pos hmenu]
        exact .howTo hmenu
      · rw [Session.perform, if_neg hmenu]
        exact .unchanged (by decide)
  | win =>
      by_cases hwin : s.state = .game ∧ s.gameState = .running
      · rw [Session.perform, if_pos hwin]
        exact .win hwin.1 hwin.2
      · rw [Session.perform, if_neg hwin]
        exact .unchanged (by decide)

/-- Only bytes of the protocol are sent. -/
theorem Session.perform_sent (host : Bool) (action : Session.Action) (s : Session) :
    ∀ c ∈ (s.perform host action).2, c ∈ protocolBytes := by
  have hperforms := Session.performs host action s
  generalize s.perform host action = result at hperforms ⊢
  cases hperforms with
  | unchanged => simp
  | esc => simp
  | singlePlayer => simp
  | multiplePlayer => simp [LCOMaze.multiplePlayer, handshakeByte_mem]
  | howTo => simp
  | win =>
      unfold gameWin
      split_ifs
      · simp [protocolBytes]
      · simp

theorem gameActivateMultiplayer_sent (host : Bool) (s : Session) :
    ∀ c ∈ (gameActivateMultiplayer host s).2, c ∈ protocolBytes := by
  unfold gameActivateMultiplayer
  split_ifs
  · simp [handshakeByte_mem]
  · simp

theorem dispatch_sent (host : Bool) (c : UInt8) (s : Session) :
    ∀ d ∈ (dispatch host c s).2, d ∈ protocolBytes := by
  rcases dispatch_cases host c s with ⟨-, hrun⟩ | ⟨-, hrun⟩ | ⟨-, hrun⟩ | ⟨-, -, -, hrun⟩
  · rw [hrun]
    exact gameActivateMultiplayer_sent host s
  · rw [hrun]
    exact gameActivateMultiplayer_sent host s
  · rw [hrun]
    simp
  · rw [hrun]
    simp

end LCOMaze
