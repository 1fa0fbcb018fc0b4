import LCOMaze.Proj.CursorMoves
import LCOMaze.Proj.StartCell

/-!
# Where the cursor is drawn

{lit}`menu_mouse_handler` keeps the cursor on the screen, {lit}`game_mouse_handler` leaves this to
the frames of a running game.  ESC leads back to the menu, whose frames draw the cursor where it
is.

Main results:

- Theorem {lit}`cursor_drawn_on_screen_iff`: the cursor is on the screen whenever it is drawn
  exactly in the runs in which it is there at every ESC, or a packet comes in before the next
  frame.
- Theorem {lit}`cursor_drawn_off_screen`: packets, ESC and a frame that draw it outside.
-/

namespace LCOMaze

open Foundations

/-! ## Drawing the cursor -/

/-- The position is within the resolution of the screen. -/
def OnScreen (setup : Setup) (position : ℚ × ℚ) : Prop :=
  (0 ≤ position.1 ∧ position.1 ≤ setup.xResolution.toNat) ∧
    (0 ≤ position.2 ∧ position.2 ≤ setup.yResolution.toNat)

/-- Where an interrupt draws the cursor, if it does: {lit}`menu_main_loop` where it is,
{lit}`game_main_loop` in a running game after {lit}`game_check_bound`. -/
def drawnCursor (setup : Setup) (m : Machine) : Interrupt → Option (ℚ × ℚ)
  | .device (.timer _ _) =>
      match m.session.state with
      | .menu => some m.cursor
      | .game =>
          match m.session.gameState with
          | .running =>
              let player := gameCheckBound setup m.globals.player
              some (player.xMouse, player.yMouse)
          | .waiting | .finish => none
      | .howTo => none
  | _ => none

/-- The cursor is on the screen if the interrupt draws it. -/
def DrawsOnScreen (setup : Setup) (m : Machine) (event : Interrupt) : Prop :=
  ∀ position, drawnCursor setup m event = some position → OnScreen setup position

/-- The interrupt is one of the keyboard that is taken for ESC. -/
def ReadsEsc (m : Machine) (event : Interrupt) : Prop :=
  ∃ status data, event = .device (.kbd status data) ∧
    kbdIh status data m.globals.kbdValue = escBreak

/-- The first interrupt of the mouse or the timer, if there is one, is one of the mouse. -/
def MouseFirst : List Interrupt → Prop
  | [] => True
  | .device (.mouse _ _) :: _ => True
  | .device (.timer _ _) :: _ => False
  | .device (.kbd _ _) :: events => MouseFirst events
  | .device (.rtc _ _) :: events => MouseFirst events
  | .serial _ :: events => MouseFirst events

/-- ESC finds the cursor on the screen, or the mouse brings it back before the next frame. -/
def EscOnScreen (setup : Setup) (m : Machine) (event : Interrupt) (events : List Interrupt) :
    Prop :=
  ReadsEsc m event → OnScreen setup m.cursor ∨ MouseFirst events

section

variable {setup : Setup} {host : Bool} {m : Machine}

/-- A coordinate that was clamped is on the screen. -/
theorem clampCoordinate_mem (resolution : UInt16) (q : ℚ) :
    0 ≤ clampCoordinate resolution q ∧ clampCoordinate resolution q ≤ resolution.toNat := by
  have hnonneg : (0 : ℚ) ≤ resolution.toNat := Nat.cast_nonneg _
  simp only [clampCoordinate]
  split_ifs with hhigh hneg hneg
  · exact ⟨le_refl 0, hnonneg⟩
  · exact ⟨hnonneg, le_refl _⟩
  · exact ⟨le_refl 0, hnonneg⟩
  · exact ⟨not_lt.mp hneg, not_lt.mp hhigh⟩

/-- After {lit}`game_check_bound` the cursor is on the screen. -/
theorem gameCheckBound_onScreen (player : Player) :
    OnScreen setup
      ((gameCheckBound setup player).xMouse, (gameCheckBound setup player).yMouse) :=
  ⟨clampCoordinate_mem _ _, clampCoordinate_mem _ _⟩

/-! ## One interrupt -/

/-- ESC leads to the menu and leaves the cursor where it is. -/
theorem next_of_esc (setup : Setup) (host : Bool) {event : Interrupt} (h : ReadsEsc m event) :
    (next setup host m event).session.state = .menu ∧
      (next setup host m event).cursor = m.cursor := by
  rcases h with ⟨status, data, rfl, hesc⟩
  simp only [next, handle, deviceInterrupt, keyboardInterrupt, hesc, if_true]
  exact ⟨rfl, rfl⟩

/-- Another key leaves the cursor and the screen shown as they are. -/
theorem next_of_key {status data : PortAccess}
    (hesc : kbdIh status data m.globals.kbdValue ≠ escBreak) :
    (next setup host m (.device (.kbd status data))).session.state = m.session.state ∧
      (next setup host m (.device (.kbd status data))).cursor = m.cursor := by
  refine ⟨congrArg Session.state (next_session_of_key hesc), ?_⟩
  simp only [next, handle, deviceInterrupt, keyboardInterrupt, if_neg hesc]
  split_ifs
  · exact gameKeyboardHandler_cursor _ _ _ m.globals.player
  · rfl

/-- So does the clock. -/
theorem next_of_rtc (cause : PortAccess) (read : ClockRead) :
    (next setup host m (.device (.rtc cause read))).session.state = m.session.state ∧
      (next setup host m (.device (.rtc cause read))).cursor = m.cursor := ⟨rfl, rfl⟩

/-- So does the serial port. -/
theorem next_of_serial (ports : PortScript) :
    (next setup host m (.serial ports)).session.state = m.session.state ∧
      (next setup host m (.serial ports)).cursor = m.cursor := by
  rw [next, handle, serialInterrupt]
  split_ifs
  · exact ⟨rfl, rfl⟩
  · exact ⟨(dispatch_frame host _ m.session).1, rfl⟩

/-- The mouse leaves the screen shown as it is; in the menu it brings the cursor back. -/
theorem next_of_mouse (setup : Setup) (host : Bool) (m : Machine) (status data : PortAccess) :
    (next setup host m (.device (.mouse status data))).session.state = m.session.state ∧
      (m.session.state = .menu →
        OnScreen setup (next setup host m (.device (.mouse status data))).cursor) ∧
      (m.session.state = .howTo →
        (next setup host m (.device (.mouse status data))).cursor = m.cursor) := by
  simp only [next, handle, deviceInterrupt, mouseInterrupt]
  cases hstate : m.globals.session.state with
  | menu => exact ⟨hstate, fun _ => gameCheckBound_onScreen _, fun h => (by cases h)⟩
  | game => exact ⟨hstate, fun h => (by cases h), fun h => (by cases h)⟩
  | howTo => exact ⟨hstate, fun h => (by cases h), fun _ => rfl⟩

/-- A frame of the menu or the instructions leaves the cursor where it is, and one of a game
leads to no other screen. -/
theorem next_of_timer (setup : Setup) (host : Bool) (m : Machine) (pressed : Option Button)
    (reads : ClockRead × ClockRead) :
    (m.session.state ≠ .game →
      (next setup host m (.device (.timer pressed reads))).cursor = m.cursor) ∧
    (m.session.state = .game →
      (next setup host m (.device (.timer pressed reads))).session.state = .game) ∧
    (m.session.state = .howTo →
      (next setup host m (.device (.timer pressed reads))).session.state = .howTo) := by
  simp only [next, handle, deviceInterrupt, timerInterrupt]
  cases hstate : m.globals.session.state with
  | menu =>
      refine ⟨fun _ => ?_, fun h => (by cases h), fun h => (by cases h)⟩
      have hplayer := (menuMainLoop_frame host pressed m.globals).2.2
      exact congrArg (fun player : Player => (player.xMouse, player.yMouse)) hplayer
  | game =>
      refine ⟨fun h => absurd rfl h, fun _ => ?_, fun h => (by cases h)⟩
      exact (gameMainLoop_frame setup reads m.globals).1.trans hstate
  | howTo => exact ⟨fun _ => rfl, fun h => (by cases h), fun _ => hstate⟩

/-- Only a frame of the menu or of a running game draws the cursor. -/
theorem drawnCursor_cases {event : Interrupt} {position : ℚ × ℚ}
    (h : drawnCursor setup m event = some position) :
    (∃ pressed reads, event = .device (.timer pressed reads)) ∧
      ((m.session.state = .menu ∧ position = m.cursor) ∨
        (m.session.state = .game ∧ m.session.gameState = .running ∧
          position = ((gameCheckBound setup m.globals.player).xMouse,
            (gameCheckBound setup m.globals.player).yMouse))) := by
  unfold drawnCursor at h
  split at h
  · rename_i pressed reads
    refine ⟨⟨pressed, reads, rfl⟩, ?_⟩
    split at h
    · rename_i hstate
      exact Or.inl ⟨hstate, (Option.some.inj h).symm⟩
    · rename_i hstate
      split at h
      · rename_i hrunning
        exact Or.inr ⟨hstate, hrunning, (Option.some.inj h).symm⟩
      · cases h
      · cases h
    · cases h
  · cases h

/-! ## Runs -/

/-- Between interrupts, the cursor is on the screen outside of a game, or the mouse will bring it
back to the menu. -/
def CursorKept (setup : Setup) (m : Machine) (events : List Interrupt) : Prop :=
  (m.session.state = .menu → OnScreen setup m.cursor ∨ MouseFirst events) ∧
    (m.session.state = .howTo → OnScreen setup m.cursor)

/-- What an interrupt draws is then on the screen. -/
theorem CursorKept.draws {event : Interrupt} {events : List Interrupt}
    (h : CursorKept setup m (event :: events)) : DrawsOnScreen setup m event := by
  intro position hdrawn
  rcases drawnCursor_cases hdrawn with ⟨⟨pressed, reads, rfl⟩, ⟨hstate, rfl⟩ | ⟨-, -, rfl⟩⟩
  · exact (h.1 hstate).resolve_right id
  · exact gameCheckBound_onScreen m.globals.player

/-- It is kept by an interrupt that changes neither the screen shown nor the cursor. -/
theorem CursorKept.of_same {m' : Machine} {events events' : List Interrupt}
    (h : CursorKept setup m events)
    (hsame : m'.session.state = m.session.state ∧ m'.cursor = m.cursor)
    (hfirst : MouseFirst events → MouseFirst events') : CursorKept setup m' events' := by
  rw [CursorKept, hsame.1, hsame.2]
  exact ⟨fun hstate => (h.1 hstate).imp_right hfirst, h.2⟩

/-- Every interrupt keeps it, if it is none that ESC with the cursor outside. -/
theorem CursorKept.next {event : Interrupt} {events : List Interrupt}
    (h : CursorKept setup m (event :: events)) (hesc : EscOnScreen setup m event events) :
    CursorKept setup (LCOMaze.next setup host m event) events := by
  cases event with
  | serial ports => exact h.of_same (next_of_serial ports) id
  | device event =>
      cases event with
      | kbd status data =>
          by_cases hread : kbdIh status data m.globals.kbdValue = escBreak
          · have hreads : ReadsEsc m (.device (.kbd status data)) := ⟨status, data, rfl, hread⟩
            rcases next_of_esc setup host hreads with ⟨hstate, hcursor⟩
            rw [CursorKept, hstate, hcursor]
            exact ⟨fun _ => hesc hreads, fun h => (by cases h)⟩
          · exact h.of_same (next_of_key hread) id
      | mouse status data =>
          rcases next_of_mouse setup host m status data with
            ⟨hstate, hmenu, hhowTo⟩
          rw [CursorKept, hstate]
          refine ⟨fun h => Or.inl (hmenu h), fun hstate => ?_⟩
          rw [hhowTo hstate]
          exact h.2 hstate
      | timer pressed reads =>
          rcases next_of_timer setup host m pressed reads with
            ⟨hcursor, hgame, -⟩
          by_cases hstate : m.session.state = .game
          · rw [CursorKept, hgame hstate]
            exact ⟨fun h => (by cases h), fun h => (by cases h)⟩
          · have hon : OnScreen setup m.cursor := by
              cases hshown : m.session.state with
              | menu => exact (h.1 hshown).resolve_right id
              | game => exact absurd hshown hstate
              | howTo => exact h.2 hshown
            rw [CursorKept, hcursor hstate]
            exact ⟨fun _ => Or.inl hon, fun _ => hon⟩
      | rtc cause read => exact h.of_same (next_of_rtc cause read) id

/-- With the cursor outside in the menu, what is drawn next is outside, unless the mouse comes
first. -/
theorem mouseFirst_of_draws {events : List Interrupt} (hstate : m.session.state = .menu)
    (hoff : ¬OnScreen setup m.cursor)
    (h : Throughout (LCOMaze.next setup host) (DrawsOnScreen setup) events m) :
    MouseFirst events := by
  induction events generalizing m with
  | nil => trivial
  | cons event events ih =>
      have hsame : ∀ m' : Machine, m'.session.state = m.session.state ∧ m'.cursor = m.cursor →
          Throughout (LCOMaze.next setup host) (DrawsOnScreen setup) events m' →
          MouseFirst events :=
        fun _ hsame hrest => ih (hsame.1.trans hstate) (by rw [hsame.2]; exact hoff) hrest
      cases event with
      | serial ports => exact hsame _ (next_of_serial ports) h.2
      | device event =>
          cases event with
          | kbd status data =>
              by_cases hread : kbdIh status data m.globals.kbdValue = escBreak
              · rcases next_of_esc setup host ⟨status, data, rfl, hread⟩ with ⟨hmenu, hcursor⟩
                exact hsame _ ⟨hmenu.trans hstate.symm, hcursor⟩ h.2
              · exact hsame _ (next_of_key hread) h.2
          | mouse status data => trivial
          | timer pressed reads =>
              have hdrawn : drawnCursor setup m (.device (.timer pressed reads)) =
                  some m.cursor := by
                simp only [drawnCursor, hstate]
              exact hoff (h.1 _ hdrawn)
          | rtc cause read => exact hsame _ (next_of_rtc cause read) h.2

end

/-- For every screen and every run of the program from its start, in whatever order packets,
clicks, keys, received bytes and frames come: the cursor is on the screen whenever it is drawn, if
and only if every ESC finds it there, or the mouse sends something after it before the next
frame. -/
theorem cursor_drawn_on_screen_iff (setup : Setup) (host : Bool) (events : List Interrupt) :
    Throughout (next setup host) (DrawsOnScreen setup) events (.init setup) ↔
      ThroughoutAhead (next setup host) (EscOnScreen setup) events (.init setup) := by
  constructor
  · intro h
    rw [throughoutAhead_iff]
    rintro before event after rfl hreads
    rw [throughout_append, throughout_cons] at h
    by_cases hon : OnScreen setup (before.foldl (next setup host) (.init setup)).cursor
    · exact Or.inl hon
    · rcases next_of_esc setup host hreads with ⟨hmenu, hcursor⟩
      exact Or.inr (mouseFirst_of_draws hmenu (by rw [hcursor]; exact hon) h.2.2)
  · intro h
    have hinit : OnScreen setup (Machine.init setup).cursor :=
      ⟨⟨le_refl 0, Nat.cast_nonneg _⟩, ⟨le_refl 0, Nat.cast_nonneg _⟩⟩
    exact h.imp (CursorKept setup) (fun _ _ _ hkept hesc => hkept.next hesc)
      (fun _ _ _ hkept => hkept.draws) ⟨fun _ => Or.inl hinit, fun _ => hinit⟩

/-- Two packets that move the cursor onto the first button, one that holds the left button of the
mouse there, a frame that handles the click, two packets that move the cursor to the left by more
than it has come, ESC and a frame. -/
def escOutside : List Interrupt :=
  [0x28, 160, 156, 0x28, 160, 156, 0x09, 0, 0].map mouseByte ++
    [.device (frame (some .singlePlayer))] ++ [0x18, 6, 0, 0x18, 6, 0].map mouseByte ++
    [.device escKey, .device (frame none)]

/-- The menu draws the cursor left of the screen. -/
theorem cursor_drawn_off_screen :
    ¬Throughout (next gameSetup false) (DrawsOnScreen gameSetup) escOutside (.init gameSetup) := by
  intro h
  rw [throughout_iff] at h
  have hdrawn := h (escOutside.take 17) _ [] rfl _ rfl
  exact absurd hdrawn.1.1 (by decide +kernel)

end LCOMaze
