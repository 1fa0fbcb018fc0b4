import LCOMaze.Foundations.Trace
import LCOMaze.Proj.MainLoop

/-!
# When the time of a game starts

{lit}`check_time` latches the start of the measured time at the first frame of a game, before
the frame looks at {lit}`gameState`.  A run is extended by a record of the latest latch, which no
function of the program reads.

Main results:

- Theorem {lit}`next_clock`: the start of the time changes at a latch only, and only ESC
  releases it.
- Theorem {lit}`time_starts_with_play`: if every latch happens while the game runs, the time of
  every win screen started while its game ran.
- Theorem {lit}`time_starts_waiting`: a frame that waits for the peer starts the time.
-/

namespace LCOMaze

open Foundations

/-! ## Latches -/

/-- The latest execution of the first branch of {lit}`check_time` since ESC: the phase of the
game at that frame and the time remembered. -/
structure Latch where
  gameState : GameState
  time : TimeEl

/-- The frame enters the first branch of {lit}`check_time`. -/
def latches (m : Machine) : Interrupt → Bool
  | .device (.timer _ _) =>
      decide (m.session.state = .game) && !m.globals.clock.initialTimeSet
  | _ => false

/-- The key is handled as ESC. -/
def resets (m : Machine) : Interrupt → Bool
  | .device (.kbd status data) => decide (kbdIh status data m.globals.kbdValue = escBreak)
  | _ => false

/-- A machine with the record of its latest latch. -/
structure Timed where
  machine : Machine
  latch : Option Latch

/-- The start of the program, at which nothing has been latched. -/
def Timed.init (setup : Setup) : Timed := ⟨.init setup, none⟩

/-- One interrupt, with the record kept. -/
def Timed.next (setup : Setup) (host : Bool) (s : Timed) (event : Interrupt) : Timed where
  machine := LCOMaze.next setup host s.machine event
  latch :=
    if latches s.machine event then
      some ⟨s.machine.session.gameState,
        (LCOMaze.next setup host s.machine event).globals.clock.timeInitial⟩
    else if resets s.machine event then none
    else s.latch

/-- The frame draws the win screen. -/
def DrawsWinScreen (m : Machine) (event : Interrupt) : Prop :=
  (∃ pressed reads, event = .device (.timer pressed reads)) ∧
    m.session.state = .game ∧ m.session.gameState = .finish ∧ m.session.won = true

/-- If the frame draws the win screen, the {lit}`time_initial` that it shows was latched at a
frame of the current game that found {lit}`gameState` to be {lit}`Running`. -/
def TimesThePlay (setup : Setup) (host : Bool) (s : Timed) (event : Interrupt) : Prop :=
  DrawsWinScreen s.machine event →
    ∃ latch, (s.next setup host event).latch = some latch ∧ latch.gameState = .running ∧
      (s.next setup host event).machine.globals.clock.timeInitial = latch.time

/-- A frame that finds the start of the time released finds the game running. -/
def LatchesRunning (s : Timed) (event : Interrupt) : Prop :=
  latches s.machine event = true → s.machine.session.gameState = .running

instance (s : Timed) (event : Interrupt) : Decidable (LatchesRunning s event) :=
  inferInstanceAs (Decidable
    (latches s.machine event = true → s.machine.session.gameState = .running))

/-! ## The clock -/

/-- {lit}`check_time` sets the start of the time, and overwrites none that is set. -/
theorem checkTime_initial (gameState : GameState) (reads : ClockRead × ClockRead)
    (clock : Clock) :
    (checkTime gameState reads clock).initialTimeSet = true ∧
      (clock.initialTimeSet = true →
        (checkTime gameState reads clock).timeInitial = clock.timeInitial) := by
  unfold checkTime
  cases hset : clock.initialTimeSet with
  | true =>
      simp only [Bool.not_true, Bool.false_eq_true, if_false]
      split_ifs <;> exact ⟨hset, fun _ => rfl⟩
  | false =>
      simp only [Bool.not_false, if_true]
      split_ifs <;> exact ⟨rfl, fun h => by cases h⟩

section

variable (setup : Setup) (host : Bool) (m : Machine)

/-- The serial port does not touch the clock. -/
theorem next_clock_serial (ports : PortScript) :
    (next setup host m (.serial ports)).globals.clock = m.globals.clock := by
  simp only [next, handle, serialInterrupt]
  split_ifs <;> rfl

/-- Of all keys only ESC touches the clock. -/
theorem next_clock_kbd (status data : PortAccess) :
    (next setup host m (.device (.kbd status data))).globals.clock =
      if kbdIh status data m.globals.kbdValue = escBreak then
        { m.globals.clock with initialTimeSet := false, finalTimeSet := false }
      else m.globals.clock := by
  simp only [next, handle, deviceInterrupt, keyboardInterrupt]
  split_ifs <;> rfl

/-- The mouse does not touch the clock. -/
theorem next_clock_mouse (status data : PortAccess) :
    (next setup host m (.device (.mouse status data))).globals.clock = m.globals.clock := by
  simp only [next, handle, deviceInterrupt, mouseInterrupt]
  split <;> rfl

/-- A frame executes {lit}`check_time` if it is one of a game. -/
theorem next_clock_timer (pressed : Option Button) (reads : ClockRead × ClockRead) :
    (next setup host m (.device (.timer pressed reads))).globals.clock =
      if m.session.state = .game then checkTime m.session.gameState reads m.globals.clock
      else m.globals.clock := by
  simp only [next, handle, deviceInterrupt, timerInterrupt, Machine.session]
  cases m.globals.session.state with
  | game => exact (gameMainLoop_frame setup reads m.globals).2.2.1
  | menu => exact (menuMainLoop_frame host pressed m.globals).2.1
  | howTo => rfl

/-- A latch sets the start of the time, ESC releases it, and nothing else touches it. -/
theorem next_clock (event : Interrupt) :
    let clock := (next setup host m event).globals.clock
    (latches m event = true ∧ clock.initialTimeSet = true) ∨
    (latches m event = false ∧ resets m event = true ∧ clock.initialTimeSet = false) ∨
    (latches m event = false ∧ resets m event = false ∧
      clock.initialTimeSet = m.globals.clock.initialTimeSet ∧
      (clock.initialTimeSet = true → clock.timeInitial = m.globals.clock.timeInitial)) := by
  intro clock
  cases event with
  | serial ports =>
      have hclock : clock = m.globals.clock := next_clock_serial setup host m ports
      right; right
      rw [hclock]
      exact ⟨rfl, rfl, rfl, fun _ => rfl⟩
  | device event =>
      cases event with
      | kbd status data =>
          right
          simp only [clock, next_clock_kbd]
          by_cases hesc : kbdIh status data m.globals.kbdValue = escBreak
          · rw [if_pos hesc]
            exact Or.inl ⟨rfl, decide_eq_true hesc, rfl⟩
          · rw [if_neg hesc]
            exact Or.inr ⟨rfl, decide_eq_false hesc, rfl, fun _ => rfl⟩
      | mouse status data =>
          have hclock : clock = m.globals.clock := next_clock_mouse setup host m status data
          right; right
          rw [hclock]
          exact ⟨rfl, rfl, rfl, fun _ => rfl⟩
      | timer pressed reads =>
          simp only [clock, next_clock_timer]
          by_cases hstate : m.session.state = .game
          · have hinitial := checkTime_initial m.session.gameState reads m.globals.clock
            rw [if_pos hstate]
            cases hset : m.globals.clock.initialTimeSet with
            | false =>
                left
                simp [latches, hstate, hset, hinitial.1]
            | true =>
                right; right
                exact ⟨by simp [latches, hset], rfl, hinitial.1, fun _ => hinitial.2 hset⟩
          · right; right
            rw [if_neg hstate]
            exact ⟨by simp [latches, hstate], rfl, rfl, fun _ => rfl⟩
      | rtc cause read =>
          right; right
          exact ⟨rfl, rfl, rfl, fun _ => rfl⟩

end

/-! ## Runs -/

/-- Once the start of the time is set, it is the one of a latch that happened while the game
ran. -/
def LatchedRunning (s : Timed) : Prop :=
  s.machine.globals.clock.initialTimeSet = true →
    ∃ latch, s.latch = some latch ∧ latch.gameState = .running ∧
      s.machine.globals.clock.timeInitial = latch.time

theorem LatchedRunning.next {setup : Setup} {host : Bool} {s : Timed} {event : Interrupt}
    (h : LatchedRunning s) (hlatch : LatchesRunning s event) :
    LatchedRunning (s.next setup host event) := by
  intro hset
  rcases next_clock setup host s.machine event with ⟨hlatches, -⟩ | ⟨-, -, hreleased⟩ |
    ⟨hlatches, hresets, hsame, htime⟩
  · refine ⟨_, if_pos hlatches, hlatch hlatches, rfl⟩
  · cases hreleased.symm.trans hset
  · rcases h (hsame ▸ hset) with ⟨latch, hlatched, hrunning, hinitial⟩
    refine ⟨latch, ?_, hrunning, (htime hset).trans hinitial⟩
    simp only [Timed.next, hlatches, hresets, Bool.false_eq_true, if_false]
    exact hlatched

/-- In every run in which every latch finds the game running, every win screen shows a time
that started at a frame of its own game at which the game ran. -/
theorem time_starts_with_play (setup : Setup) (host : Bool) (events : List Interrupt)
    (hrun : Throughout (Timed.next setup host) LatchesRunning events (.init setup)) :
    Throughout (Timed.next setup host) (TimesThePlay setup host) events (.init setup) := by
  apply hrun.imp LatchedRunning
  · intro s event h hlatch
    exact h.next hlatch
  · intro s event h hlatch hwin
    apply h.next hlatch
    rcases hwin with ⟨⟨pressed, reads, rfl⟩, hgame, hfinish, -⟩
    rcases next_clock setup host s.machine (.device (.timer pressed reads)) with ⟨-, hset⟩ |
      ⟨-, hresets, -⟩ | ⟨hlatches, -, hsame, -⟩
    · exact hset
    · cases hresets
    · -- a game without a latch has had one before
      rw [latches, decide_eq_true hgame, Bool.true_and, Bool.not_eq_false'] at hlatches
      exact hsame.trans hlatches
  · intro hset
    cases hset

/-- A client that waits for its peer when the first frame comes, and later walks to the goal. -/
def waitingFrame : List Interrupt :=
  [.device (frame (some .multiPlayer)), .device (frame none), .serial (uartReads [byteM])] ++
    walkToGoal.map .device ++ [.device (frame none)]

set_option maxRecDepth 100000 in
/-- The time of that client starts before the play. -/
theorem time_starts_waiting :
    ¬∀ (setup : Setup) (host : Bool) (events : List Interrupt),
      Throughout (Timed.next setup host) (TimesThePlay setup host) events (.init setup) := by
  intro hall
  have hruns := hall gameSetup false (waitingFrame ++ [.device (frame none)])
  rw [throughout_append, throughout_cons] at hruns
  let s := waitingFrame.foldl (Timed.next gameSetup false) (.init gameSetup)
  have hlatched : (s.next gameSetup false (.device (frame none))).latch.map Latch.gameState =
      some .waiting := by decide +kernel
  rcases hruns.2.1 ⟨⟨_, _, rfl⟩, by decide +kernel⟩ with ⟨latch, hlatch, hrunning, -⟩
  rw [hlatch, Option.map_some, hrunning] at hlatched
  cases hlatched

set_option maxRecDepth 100000 in
/-- For a player who plays alone the time starts with the play. -/
theorem time_starts_with_play_alone :
    let events := [Interrupt.device (frame (some .singlePlayer)), .device (frame none)] ++
      walkToGoal.map .device ++ [.device (frame none)]
    let s := events.foldl (Timed.next gameSetup true) (.init gameSetup)
    DrawsWinScreen s.machine (.device (frame none)) ∧
      Throughout (Timed.next gameSetup true) (TimesThePlay gameSetup true)
        (events ++ [.device (frame none)]) (.init gameSetup) := by
  intro events s
  exact ⟨⟨⟨_, _, rfl⟩, by decide +kernel⟩,
    time_starts_with_play gameSetup true _ (by decide +kernel)⟩

end LCOMaze
