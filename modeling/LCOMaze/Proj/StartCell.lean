import LCOMaze.Proj.Isolation

/-!
# Where a match starts

The keyboard handler is gated by {lit}`state` only, so a key is handled as well while
{lit}`gameState` is {lit}`Waiting` or {lit}`Finish`.  Position, phase and reset are followed
together along a run.

Main results:

- Theorem {lit}`next_position_of_quiet`: only keys move the player.
- Theorem {lit}`AtStart.next`: unless a key moves the player before the play, a game
  that has not begun finds the player at the start.
- Theorem {lit}`start_cell_iff`: the runs in which every match begins at the start are those
  whose early keys ask for nothing or run into a wall.
- Theorem {lit}`start_cell_left`: a key pressed while waiting moves the start of the match.
-/

namespace LCOMaze

open Foundations

/-! ## The position -/

/-- The centre of the player. -/
def Machine.position (m : Machine) : ℚ × ℚ := (m.globals.player.x, m.globals.player.y)

/-- Where {lit}`init_game` and {lit}`game_reset` put the player. -/
def startPosition : ℚ × ℚ := (50, 50)

/-- The interrupt is one of the keyboard. -/
def IsKey (event : Interrupt) : Prop := ∃ status data, event = .device (.kbd status data)

/-- The scancode moves nothing: it asks for no displacement, or for one that
{lit}`check_collision` rejects. -/
def KeyRejected {W H : Nat} (lib : MathLib) (maze : Maze W H) (kbdValue : UInt8)
    (player : Player) : Prop :=
  let changer := keyChanger lib kbdValue player.delta
  changer = (0, 0) ∨
    checkCollision maze (truncToInt (player.x + changer.1 * 10))
      (truncToInt (player.y - changer.2 * 10)) 25 = true

/-- Exactly the rejected keys leave the player in place. -/
theorem gameKeyboardHandler_stays_iff {W H : Nat} (lib : MathLib) (maze : Maze W H)
    (kbdValue : UInt8) (player : Player) :
    ((gameKeyboardHandler lib maze kbdValue player).x = player.x ∧
      (gameKeyboardHandler lib maze kbdValue player).y = player.y) ↔
      KeyRejected lib maze kbdValue player := by
  have hposition := gameKeyboardHandler_position lib maze kbdValue player
  simp only [hposition.1, hposition.2, movePlayer, KeyRejected]
  split_ifs with hcollision
  · exact ⟨fun _ => Or.inr hcollision, fun _ => ⟨rfl, rfl⟩⟩
  · constructor
    · intro h
      left
      apply Prod.ext
      · linarith [h.1]
      · linarith [h.2]
    · intro h
      have hzero := h.resolve_right hcollision
      simp only [hzero]
      constructor <;> norm_num

section

variable {setup : Setup} {host : Bool} {m : Machine}

/-- An interrupt that is not one of the keyboard does not move the player. -/
theorem next_position_of_quiet {event : Interrupt} (hkey : ¬IsKey event) :
    (next setup host m event).position = m.position := by
  cases event with
  | serial ports =>
      rw [next, handle, serialInterrupt]
      split_ifs <;> rfl
  | device event =>
      cases event with
      | kbd status data => exact absurd ⟨status, data, rfl⟩ hkey
      | mouse status data =>
          simp only [next, handle, deviceInterrupt, mouseInterrupt]
          cases m.globals.session.state with
          | game =>
              simp only [gameMouseHandler]
              split_ifs <;> rfl
          | menu => rfl
          | howTo => rfl
      | timer pressed reads => exact (timerInterrupt_frame setup host pressed reads m.globals).2
      | rtc cause read => rfl

/-- ESC puts the player back to the start. -/
theorem next_position_esc {status data : PortAccess}
    (hesc : kbdIh status data m.globals.kbdValue = escBreak) :
    (next setup host m (.device (.kbd status data))).position = startPosition := by
  simp only [next, handle, deviceInterrupt, keyboardInterrupt, hesc, if_true]
  rfl

/-- Outside a game, a key does not move the player. -/
theorem next_position_outside {status data : PortAccess} (hstate : m.session.state ≠ .game)
    (hesc : kbdIh status data m.globals.kbdValue ≠ escBreak) :
    (next setup host m (.device (.kbd status data))).position = m.position := by
  simp only [next, handle, deviceInterrupt, keyboardInterrupt, if_neg hesc]
  rw [if_neg hstate]
  rfl

/-- In a game, exactly the rejected keys leave the player in place. -/
theorem next_position_inside_iff {status data : PortAccess} (hstate : m.session.state = .game)
    (hesc : kbdIh status data m.globals.kbdValue ≠ escBreak) :
    (next setup host m (.device (.kbd status data))).position = m.position ↔
      KeyRejected setup.lib setup.maze (kbdIh status data m.globals.kbdValue)
        m.globals.player := by
  rw [← gameKeyboardHandler_stays_iff]
  simp only [next, handle, deviceInterrupt, keyboardInterrupt, if_neg hesc]
  rw [if_pos hstate]
  simp only [Machine.position, Prod.mk.injEq]

end

/-! ## Before the play -/

/-- The machine shows no game, or one that waits for its peer. -/
def NotBegun (s : Session) : Prop := s.state ≠ .game ∨ s.gameState = .waiting

theorem NotBegun.of_perform {s : Session} {host : Bool} {action : Session.Action}
    (h : NotBegun (s.perform host action).1) (hesc : action ≠ .esc) : NotBegun s := by
  have hperforms := Session.performs host action s
  generalize s.perform host action = result at hperforms h
  have hmenu : s.state = .menu → NotBegun s := by
    intro hstate
    left
    rw [hstate]
    decide
  cases hperforms with
  | unchanged => exact h
  | esc => exact absurd rfl hesc
  | singlePlayer hstate => exact hmenu hstate
  | multiplePlayer hstate => exact hmenu hstate
  | howTo hstate => exact hmenu hstate
  | win hstate => exact absurd h (by simp [NotBegun, gameWin, hstate])

theorem NotBegun.of_dispatch {s : Session} {host : Bool} {c : UInt8}
    (h : NotBegun (dispatch host c s).1) : NotBegun s := by
  rcases dispatch_cases host c s with ⟨-, hrun⟩ | ⟨-, hrun⟩ | ⟨-, hrun⟩ | ⟨-, -, -, hrun⟩
  · rw [hrun] at h
    exact Or.inl (h.resolve_right (by simp [gameActivateMultiplayer]))
  · rw [hrun] at h
    exact Or.inl (h.resolve_right (by simp [gameActivateMultiplayer]))
  · rw [hrun] at h
    exact Or.inl (h.resolve_right (by simp [gameLose]))
  · rw [hrun] at h
    exact h

/-- Before the play the player is at the start. -/
def AtStart (m : Machine) : Prop := NotBegun m.session → m.position = startPosition

/-- A key other than ESC that is handled in a game that does not run is rejected. -/
def EarlyKeyRejected (setup : Setup) (m : Machine) (event : Interrupt) : Prop :=
  ∀ status data, event = .device (.kbd status data) →
    kbdIh status data m.globals.kbdValue ≠ escBreak →
    m.session.state = .game → m.session.gameState ≠ .running →
    KeyRejected setup.lib setup.maze (kbdIh status data m.globals.kbdValue) m.globals.player

/-- A key other than ESC leaves the player in place unless {lit}`gameState` is {lit}`Running`, and
a game that turns from {lit}`Waiting` to {lit}`Running` finds the player at the start. -/
def StartsInPlace (setup : Setup) (host : Bool) (m : Machine) (event : Interrupt) : Prop :=
  (∀ status data, event = .device (.kbd status data) →
    kbdIh status data m.globals.kbdValue ≠ escBreak → m.session.gameState ≠ .running →
    (next setup host m event).position = m.position) ∧
  (m.session.gameState = .waiting → (next setup host m event).session.state = .game →
    (next setup host m event).session.gameState = .running →
    (next setup host m event).position = startPosition)

section

variable {setup : Setup} {host : Bool} {m : Machine} {event : Interrupt}

/-- A key other than ESC does not change the session. -/
theorem next_session_of_key {status data : PortAccess}
    (hesc : kbdIh status data m.globals.kbdValue ≠ escBreak) :
    (next setup host m (.device (.kbd status data))).session = m.session := by
  simp only [next, handle, deviceInterrupt, keyboardInterrupt, if_neg hesc]
  split_ifs <;> rfl

/-- What has not begun after an interrupt other than a key had not begun before it. -/
theorem NotBegun.of_next (hready : m.Ready) (hkey : ¬IsKey event)
    (h : NotBegun (next setup host m event).session) : NotBegun m.session := by
  cases event with
  | device event =>
      have hsession := deviceInterrupt_session setup host event m.globals
      have hact : (next setup host m (.device event)).session =
          (m.session.perform host (deviceAction setup event m.globals)).1 :=
        congrArg Prod.fst hsession
      rw [hact] at h
      apply h.of_perform
      intro hesc
      cases event with
      | kbd status data => exact hkey ⟨status, data, rfl⟩
      | mouse status data => cases hesc
      | timer pressed reads =>
          simp only [deviceAction] at hesc
          split at hesc
          · split_ifs at hesc
          · split at hesc <;> cases hesc
          · cases hesc
      | rtc cause read => cases hesc
  | serial ports =>
      by_cases hc : m.c = 0
      · rw [next, handle, serialInterrupt_of_zero host ports hc] at h
        exact h
      · rcases serialInterrupt_spec host ports hready hc with ⟨port, hrun, -⟩
        rw [next, handle, hrun] at h
        exact NotBegun.of_dispatch h

/-- If early keys are rejected, a game that has not begun finds the player at the start. -/
theorem AtStart.next (hready : m.Ready) (h : AtStart m)
    (hrejected : EarlyKeyRejected setup m event) : AtStart (next setup host m event) := by
  intro hbegun
  by_cases hkey : IsKey event
  · rcases hkey with ⟨status, data, rfl⟩
    by_cases hesc : kbdIh status data m.globals.kbdValue = escBreak
    · exact next_position_esc hesc
    · rw [next_session_of_key hesc] at hbegun
      rw [← h hbegun]
      by_cases hstate : m.session.state = .game
      · have hwaiting := hbegun.resolve_left (not_not_intro hstate)
        apply (next_position_inside_iff hstate hesc).mpr
        apply hrejected status data rfl hesc hstate
        rw [hwaiting]
        decide
      · exact next_position_outside hstate hesc
  · rw [next_position_of_quiet hkey]
    exact h (hbegun.of_next hready hkey)

/-- Early keys are rejected exactly when they leave the player in place. -/
theorem earlyKeyRejected_iff :
    EarlyKeyRejected setup m event ↔
      ∀ status data, event = .device (.kbd status data) →
        kbdIh status data m.globals.kbdValue ≠ escBreak → m.session.gameState ≠ .running →
        (LCOMaze.next setup host m event).position = m.position := by
  constructor
  · intro h status data hevent hesc hidle
    subst hevent
    by_cases hstate : m.session.state = .game
    · exact (next_position_inside_iff hstate hesc).mpr (h status data rfl hesc hstate hidle)
    · exact next_position_outside hstate hesc
  · intro h status data hevent hesc hstate hidle
    subst hevent
    exact (next_position_inside_iff hstate hesc).mp (h status data rfl hesc hidle)

/-- A step in which early keys are rejected starts a match in place. -/
theorem AtStart.startsInPlace (h : AtStart m) (hrejected : EarlyKeyRejected setup m event) :
    StartsInPlace setup host m event := by
  refine ⟨earlyKeyRejected_iff.mp hrejected, ?_⟩
  intro hwaiting hstate hrunning
  have hkey : ¬IsKey event := by
    rintro ⟨status, data, rfl⟩
    by_cases hesc : kbdIh status data m.globals.kbdValue = escBreak
    · simp only [LCOMaze.next, handle, deviceInterrupt, keyboardInterrupt, hesc, if_true] at hstate
      cases hstate
    · rw [next_session_of_key hesc, hwaiting] at hrunning
      cases hrunning
  rw [next_position_of_quiet hkey]
  exact h (Or.inr hwaiting)

end

/-- In every run, each match begins at the start and no key moves the player outside the
play if and only if every key other than ESC that is handled in state {lit}`Game` while
{lit}`gameState` is {lit}`Waiting` or {lit}`Finish` is rejected.  The sums of doubles that make a
target are taken to be exact; a key is tested and moves with the same target. -/
theorem start_cell_iff (setup : MenuSetup) (host : Bool) (events : List Interrupt) :
    Throughout (next setup host) (StartsInPlace setup host) events (.init setup) ↔
      Throughout (next setup host) (EarlyKeyRejected setup) events (.init setup) := by
  constructor
  · apply Throughout.mono
    intro m event h
    exact earlyKeyRejected_iff.mpr h.1
  · apply Throughout.imp (fun m => m.Ready ∧ AtStart m) _ _ ⟨Machine.ready_init setup, fun _ => rfl⟩
    · intro m event h hrejected
      exact ⟨next_ready setup host event h.1, h.2.next h.1 hrejected⟩
    · intro m event h hrejected
      exact h.2.startsInPlace hrejected

/-- A client that presses W while it waits begins the match ten pixels from the start. -/
theorem start_cell_left :
    ¬∀ (setup : MenuSetup) (host : Bool) (events : List Interrupt),
      Throughout (next setup host) (StartsInPlace setup host) events (.init setup) := by
  intro hall
  have h := hall gameSetup false
    [.device (frame (some .multiPlayer)), .device (keyPressed 0x11), .serial (uartReads [byteM])]
  have hstart := h.2.2.1.2 rfl rfl rfl
  exact absurd (congrArg Prod.fst hstart) (by decide +kernel)

end LCOMaze
