import LCOMaze.Proj.StartCell

/-!
# Interrupts of the keyboard without a scancode

{lit}`kbd_ih` reports nothing to its caller.  When it reads no scancode, the main loop acts
once more on the scancode of an earlier interrupt.

Main results:

- Theorem {lit}`staleEsc_iff`, Theorem {lit}`staleKey_iff`: when acting again shows nothing.
- Theorem {lit}`failed_keys_iff`: failed reads are harmless in the runs that meet an idle
  scancode throughout.
- Theorem {lit}`failed_key_moves`: a failed read moves the player.
-/

namespace LCOMaze

open Foundations

/-! ## Failed reads -/

/-- An interrupt of the keyboard at which {lit}`kbd_ih` returns without a scancode. -/
def FailsToReadKey (event : Interrupt) : Prop :=
  ∃ status data, event = .device (.kbd status data) ∧ kbdStatusReady status = false

/-- What a key can change: the position, {lit}`direction`, {lit}`gameState`,
{lit}`isMultiplayer` and {lit}`state`. -/
def keyVisible (m : Machine) : (ℚ × ℚ) × ℚ × GameState × Bool × State :=
  (m.position, m.globals.player.direction, m.session.gameState, m.session.isMultiplayer,
    m.session.state)

/-- A failed read changes nothing of this. -/
def FailedKeyHarmless (setup : Setup) (host : Bool) (m : Machine) (event : Interrupt) : Prop :=
  FailsToReadKey event → keyVisible (next setup host m event) = keyVisible m

/-- The old scancode is idle: ESC in a menu that was reset already, any other key outside of a
game, or a key that neither moves nor turns the player. -/
def StaleKeyIdle (setup : Setup) (m : Machine) : Prop :=
  (m.globals.kbdValue = escBreak →
    m.position = startPosition ∧ m.session.gameState = .waiting ∧
      m.session.isMultiplayer = false ∧ m.session.state = .menu) ∧
  (m.globals.kbdValue ≠ escBreak → m.session.state = .game →
    KeyRejected setup.lib setup.maze m.globals.kbdValue m.globals.player ∧
      keyDirection setup.lib m.globals.kbdValue m.globals.player = m.globals.player.direction)

/-- A failed read finds an idle scancode. -/
def FailsIdle (setup : Setup) (m : Machine) (event : Interrupt) : Prop :=
  FailsToReadKey event → StaleKeyIdle setup m

/-! ## One failed read -/

section

variable {setup : Setup} {host : Bool} {m : Machine} {status data : PortAccess}

/-- Without a scancode the variable keeps its value. -/
theorem kbdIh_of_failed (hfailed : kbdStatusReady status = false) (kbdValue : UInt8) :
    kbdIh status data kbdValue = kbdValue := by
  simp only [kbdIh, hfailed, Bool.false_eq_true, if_false]

/-- The direction after a key is the one that the key asks for. -/
theorem gameKeyboardHandler_direction {W H : Nat} (lib : MathLib) (maze : Maze W H)
    (kbdValue : UInt8) (player : Player) :
    (gameKeyboardHandler lib maze kbdValue player).direction =
      keyDirection lib kbdValue player := by
  simp only [gameKeyboardHandler, movePlayer]
  split_ifs <;> rfl

/-- ESC leads to the menu and to a game reset. -/
theorem keyVisible_next_esc (hesc : kbdIh status data m.globals.kbdValue = escBreak) :
    keyVisible (next setup host m (.device (.kbd status data))) =
      (startPosition, m.globals.player.direction, .waiting, false, .menu) := by
  simp only [next, handle, deviceInterrupt, keyboardInterrupt, hesc, if_true]
  rfl

/-- A second ESC shows nothing exactly in a menu that was reset already. -/
theorem staleEsc_iff (hfailed : kbdStatusReady status = false)
    (hesc : m.globals.kbdValue = escBreak) :
    keyVisible (next setup host m (.device (.kbd status data))) = keyVisible m ↔
      m.position = startPosition ∧ m.session.gameState = .waiting ∧
        m.session.isMultiplayer = false ∧ m.session.state = .menu := by
  have hread : kbdIh status data m.globals.kbdValue = escBreak := by
    rw [kbdIh_of_failed hfailed, hesc]
  rw [keyVisible_next_esc hread, keyVisible]
  simp only [Prod.mk.injEq, true_and]
  exact and_congr eq_comm (and_congr eq_comm (and_congr eq_comm eq_comm))

/-- The direction after a key in a game. -/
theorem next_direction_inside (hstate : m.session.state = .game)
    (hesc : kbdIh status data m.globals.kbdValue ≠ escBreak) :
    (next setup host m (.device (.kbd status data))).globals.player.direction =
      keyDirection setup.lib (kbdIh status data m.globals.kbdValue) m.globals.player := by
  simp only [next, handle, deviceInterrupt, keyboardInterrupt, if_neg hesc]
  rw [if_pos hstate]
  exact gameKeyboardHandler_direction _ _ _ m.globals.player

/-- The direction after a key elsewhere. -/
theorem next_direction_outside (hstate : m.session.state ≠ .game)
    (hesc : kbdIh status data m.globals.kbdValue ≠ escBreak) :
    (next setup host m (.device (.kbd status data))).globals.player.direction =
      m.globals.player.direction := by
  simp only [next, handle, deviceInterrupt, keyboardInterrupt, if_neg hesc]
  rw [if_neg hstate]

/-- Any other key pressed again shows nothing exactly outside of a game, or if it is rejected
and asks for the direction that the player has. -/
theorem staleKey_iff (hfailed : kbdStatusReady status = false)
    (hesc : m.globals.kbdValue ≠ escBreak) :
    keyVisible (next setup host m (.device (.kbd status data))) = keyVisible m ↔
      (m.session.state = .game →
        KeyRejected setup.lib setup.maze m.globals.kbdValue m.globals.player ∧
          keyDirection setup.lib m.globals.kbdValue m.globals.player =
            m.globals.player.direction) := by
  have hkept : kbdIh status data m.globals.kbdValue = m.globals.kbdValue :=
    kbdIh_of_failed hfailed _
  have hread : kbdIh status data m.globals.kbdValue ≠ escBreak := by
    rw [hkept]
    exact hesc
  simp only [keyVisible, next_session_of_key hread, Prod.mk.injEq, and_true]
  by_cases hstate : m.session.state = .game
  · rw [next_position_inside_iff hstate hread, next_direction_inside hstate hread, hkept]
    exact ⟨fun h _ => h, fun h => h hstate⟩
  · rw [next_position_outside hstate hread, next_direction_outside hstate hread]
    exact ⟨fun _ hgame => absurd hgame hstate, fun _ => ⟨rfl, rfl⟩⟩

/-- A failed read is harmless exactly when it finds an idle scancode. -/
theorem failedKeyHarmless_iff {event : Interrupt} :
    FailedKeyHarmless setup host m event ↔ FailsIdle setup m event := by
  refine forall_congr' fun hfails => ?_
  rcases hfails with ⟨status, data, rfl, hfailed⟩
  by_cases hesc : m.globals.kbdValue = escBreak
  · rw [staleEsc_iff hfailed hesc, StaleKeyIdle]
    exact ⟨fun h => ⟨fun _ => h, fun hne => absurd hesc hne⟩, fun h => h.1 hesc⟩
  · rw [staleKey_iff hfailed hesc, StaleKeyIdle]
    exact ⟨fun h => ⟨fun heq => absurd heq hesc, fun _ => h⟩, fun h => h.2 hesc⟩

end

/-! ## Runs -/

/-- In every run of the program, failed reads of the keyboard are harmless if and only if each
of them finds an idle scancode.  The sums of doubles that make a target are taken to be exact; a
stale key is tested and moves with the same target. -/
theorem failed_keys_iff (setup : Setup) (host : Bool) (events : List Interrupt) :
    Throughout (next setup host) (FailedKeyHarmless setup host) events (.init setup) ↔
      Throughout (next setup host) (FailsIdle setup) events (.init setup) :=
  throughout_congr_of_iff fun _ _ => failedKeyHarmless_iff

/-- An interrupt of the keyboard with an empty output buffer. -/
def emptyKeyRead : Interrupt := .device (.kbd ⟨true, 0⟩ ⟨true, 0⟩)

/-- A failed read after the key W moves the player once more. -/
theorem failed_key_moves :
    ¬∀ (setup : Setup) (host : Bool) (events : List Interrupt),
      Throughout (next setup host) (FailedKeyHarmless setup host) events (.init setup) := by
  intro hall
  have h := hall gameSetup false
    [.device (frame (some .singlePlayer)), .device (keyPressed 0x11), emptyKeyRead]
  have hsame := h.2.2.1 ⟨_, _, rfl, by decide⟩
  exact absurd (congrArg (fun shown => shown.1.1) hsame) (by decide +kernel)

end LCOMaze
