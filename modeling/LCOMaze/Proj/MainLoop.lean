import LCOMaze.Controllers.Devices
import LCOMaze.Game.Player
import LCOMaze.Game.Session

/-!
# The main loop of {lit}`proj.c`

One machine handles one interrupt after the other.  The handlers of keyboard, mouse,
timer and clock only touch the variables in {lit}`Globals`; the serial port, its queues
and the received byte belong to the serial branch.  A call of {lit}`sp_send_int` is taken
to send its byte and to leave {lit}`transmit_queue` empty, as it found it, which
{lit}`WiredRun.written` shows of ports of which no access fails.

Main results:

- Theorem {lit}`mainLoop_eq_handleAll`: the loop over notifications handles a sequence of
  single interrupts.
- Theorem {lit}`deviceInterrupt_session`: what the local devices do to the session.
- Theorem {lit}`serialInterrupt_spec`: one byte per serial interrupt is dispatched.
- Theorem {lit}`next_ready`: between interrupts both queues are empty.
-/

namespace LCOMaze

/-! ## Variables -/

/-- The variables of {lit}`game.c` and {lit}`rtc.c` that measure the time of a game. -/
structure Clock where
  initialTimeSet : Bool
  finalTimeSet : Bool
  timeInitial : TimeEl
  timeFinal : TimeEl
  timeStamp : TimeEl

/-- The variables that the local devices read and write. -/
structure Globals where
  session : Session
  running : Bool
  clock : Clock
  player : Player
  kbdValue : UInt8
  mouse : Mouse

/-- One machine inside {lit}`proj_main_loop`; {lit}`c` is the received byte. -/
structure Machine where
  globals : Globals
  port : SerialPort
  c : UInt8

/-- What differs between machines and stays the same while one runs: the screen, the maze with one
cell for every hundred of its pixels, the functions of {lit}`math.h` and the contents of allocated
memory. -/
structure Setup where
  xResolution : UInt16
  yResolution : UInt16
  maze : Maze (xResolution.toNat / 100) (yResolution.toNat / 100)
  lib : MathLib
  memory : Fin bufferSize → UInt8

/-- A setup with a screen of at least 254 rows, on which the buttons of the menu do not overlap, as
in the only mode that {lit}`proj_main_loop` sets. -/
structure MenuSetup extends Setup where
  rows : 254 ≤ yResolution.toNat

instance : Coe MenuSetup Setup := ⟨MenuSetup.toSetup⟩

/-- The session of a machine. -/
abbrev Machine.session (m : Machine) : Session := m.globals.session

/-- The state in which the loop starts. -/
def Machine.init (setup : Setup) : Machine where
  globals :=
    { session := .init
      running := true
      clock := ⟨false, false, ⟨0, 0, 0⟩, ⟨0, 0, 0⟩, ⟨0, 0, 0⟩⟩
      player := ⟨50, 50, 0, 0, 0, 0, false, false⟩
      kbdValue := 0
      mouse := .init }
  port := ⟨.new setup.memory, .new setup.memory⟩
  c := 1

/-! ## The screen of the game -/

/-- The borders that a path through eleven by eight cells crosses to the right: it runs along the
first row and comes back through the others. -/
def pathOpensRight (x y : Nat) : Bool := if y = 0 then x < 10 else x < 9 || (x = 9 && y = 7)

/-- The borders that it crosses downwards: it reaches the goal through the last column. -/
def pathOpensBelow (x y : Nat) : Bool :=
  if x = 10 then y < 7 else 0 < y && y < 7 && x = if y % 2 = 0 then 0 else 9

/-- The maze of this path, one of those that {lit}`generate_maze` makes. -/
def pathMaze : Maze 11 8 where
  cellSize := 100
  cells := fun p =>
    { visited := true
      topWall := p.y.val = 0 || !pathOpensBelow p.x (p.y - 1)
      bottomWall := !pathOpensBelow p.x p.y
      leftWall := p.x.val = 0 || !pathOpensRight (p.x - 1) p.y
      rightWall := !pathOpensRight p.x p.y
      dist := 0
      prev := none }

/-- The screen of mode {lit}`0x14C` with this maze, for runs on concrete input. -/
def gameSetup : MenuSetup where
  xResolution := 1152
  yResolution := 864
  maze := pathMaze
  lib := .headingZero
  memory := fun _ => 0
  rows := by decide

/-! ## The keyboard -/

/-- {lit}`game_reset`. -/
def gameReset (g : Globals) : Globals :=
  { g with
    session := g.session.reset
    clock := { g.clock with initialTimeSet := false, finalTimeSet := false }
    player := { g.player with x := 50, y := 50 } }

/-- The scancode that {lit}`proj_main_loop` compares with: ESC released. -/
def escBreak : UInt8 := 0x81

/-- The branch of the keyboard. -/
def keyboardInterrupt (setup : Setup) (status data : PortAccess) (g : Globals) : Globals :=
  let g := { g with kbdValue := kbdIh status data g.kbdValue }
  let g :=
    if g.kbdValue = escBreak then
      let g := gameReset g
      { g with session := { g.session with state := .menu } }
    else g
  if g.session.state = .game then
    { g with player := gameKeyboardHandler setup.lib setup.maze g.kbdValue g.player }
  else g

/-! ## The mouse -/

/-- The displacement of the cursor by the current packet. -/
def moveCursor (packet : Packet) (player : Player) : Player :=
  { player with
    xMouse := player.xMouse + packet.deltaX.toInt * (1 / 2)
    yMouse := player.yMouse - packet.deltaY.toInt * (1 / 2) }

/-- Two assignments that keep a coordinate of the cursor on the screen. -/
def clampCoordinate (resolution : UInt16) (q : ℚ) : ℚ :=
  let q := if (resolution.toNat : ℚ) < q then (resolution.toNat : ℚ) else q
  if q < 0 then 0 else q

/-- {lit}`game_check_bound`. -/
def gameCheckBound (setup : Setup) (player : Player) : Player :=
  { player with
    xMouse := clampCoordinate setup.xResolution player.xMouse
    yMouse := clampCoordinate setup.yResolution player.yMouse }

/-- {lit}`game_mouse_handler`. -/
def gameMouseHandler (setup : Setup) (packet : Packet) (player : Player) : Player :=
  let player := { moveCursor packet player with updateDelta := packet.lb }
  if player.updateDelta then gameUpdateDelta setup.lib player else player

/-- {lit}`menu_mouse_handler`. -/
def menuMouseHandler (setup : Setup) (packet : Packet) (player : Player) : Player :=
  gameCheckBound setup (moveCursor packet player)

/-- The branch of the mouse. -/
def mouseInterrupt (setup : Setup) (status data : PortAccess) (g : Globals) : Globals :=
  let mouse := syncBytes (mouseIh status data g.mouse)
  let mouse := if mouse.byteIndex = 3 then createPacket { mouse with byteIndex := 0 } else mouse
  let g := { g with mouse := mouse }
  match g.session.state with
  | .game => { g with player := gameMouseHandler setup mouse.packet g.player }
  | .menu => { g with player := menuMouseHandler setup mouse.packet g.player }
  | .howTo => g

/-! ## The timer -/

/-- The time to remember: the last time stamp, or the clock if there was none. -/
def latchTime (read : ClockRead) (timeStamp : TimeEl) : TimeEl :=
  if timeStamp.hours = 0 && timeStamp.minutes = 0 && timeStamp.seconds = 0 then
    getTimeDirect read timeStamp
  else timeStamp

/-- {lit}`check_time`. -/
def checkTime (gameState : GameState) (reads : ClockRead × ClockRead) (clock : Clock) : Clock :=
  let clock :=
    if !clock.initialTimeSet then
      { clock with
        initialTimeSet := true
        timeInitial := latchTime reads.1 clock.timeStamp }
    else clock
  if !clock.finalTimeSet && decide (gameState = .finish) then
    { clock with
      finalTimeSet := true
      timeFinal := latchTime reads.2 clock.timeStamp }
  else clock

/-- {lit}`game_main_loop` with the bytes it sends. -/
def gameMainLoop (setup : Setup) (reads : ClockRead × ClockRead) (g : Globals) :
    Globals × List UInt8 :=
  let g := { g with clock := checkTime g.session.gameState reads g.clock }
  match g.session.gameState with
  | .waiting => (g, [])
  | .running =>
      let g := { g with player := gameCheckBound setup g.player }
      if checkGameEnd setup.maze g.player then
        let (session, sent) := gameWin g.session
        ({ g with session := session }, sent)
      else (g, [])
  | .finish => (g, [])

/-- The buttons that {lit}`menu_main_loop` creates. -/
inductive Button where
  | singlePlayer
  | multiPlayer
  | howToPlay
  | exit
deriving DecidableEq, Repr

/-- {lit}`menu_main_loop` with the bytes it sends, given the button that is hit while the
left mouse button is held. -/
def menuMainLoop (host : Bool) (pressed : Option Button) (g : Globals) : Globals × List UInt8 :=
  match pressed with
  | none => (g, [])
  | some .singlePlayer => ({ g with session := singlePlayer g.session }, [])
  | some .multiPlayer =>
      let (session, sent) := multiplePlayer host g.session
      ({ g with session := session }, sent)
  | some .howToPlay => ({ g with session := howTo g.session }, [])
  | some .exit => ({ g with running := false }, [])

/-- The branch of the timer; the screen with the instructions is only drawn. -/
def timerInterrupt (setup : Setup) (host : Bool) (pressed : Option Button)
    (reads : ClockRead × ClockRead) (g : Globals) : Globals × List UInt8 :=
  match g.session.state with
  | .game => gameMainLoop setup reads g
  | .menu => menuMainLoop host pressed g
  | .howTo => (g, [])

/-- A frame of a game executes {lit}`check_time`, leaves the screen shown and the mouse alone and,
of the player, at most clamps the cursor. -/
theorem gameMainLoop_frame (setup : Setup) (reads : ClockRead × ClockRead) (g : Globals) :
    let g' := (gameMainLoop setup reads g).1
    g'.session.state = g.session.state ∧ g'.mouse = g.mouse ∧
      g'.clock = checkTime g.session.gameState reads g.clock ∧
      g'.player =
        if g.session.gameState = .running then gameCheckBound setup g.player else g.player := by
  simp only [gameMainLoop]
  cases g.session.gameState with
  | waiting => exact ⟨rfl, rfl, rfl, rfl⟩
  | running =>
      simp only [if_true]
      split_ifs <;> exact ⟨rfl, rfl, rfl, rfl⟩
  | finish => exact ⟨rfl, rfl, rfl, rfl⟩

/-- A frame of the menu leaves the mouse, the clock and the player alone. -/
theorem menuMainLoop_frame (host : Bool) (pressed : Option Button) (g : Globals) :
    let g' := (menuMainLoop host pressed g).1
    g'.mouse = g.mouse ∧ g'.clock = g.clock ∧ g'.player = g.player := by
  cases pressed with
  | none => exact ⟨rfl, rfl, rfl⟩
  | some button => cases button <;> exact ⟨rfl, rfl, rfl⟩

/-- No frame touches the mouse or moves the player. -/
theorem timerInterrupt_frame (setup : Setup) (host : Bool) (pressed : Option Button)
    (reads : ClockRead × ClockRead) (g : Globals) :
    let g' := (timerInterrupt setup host pressed reads g).1
    g'.mouse = g.mouse ∧ (g'.player.x, g'.player.y) = (g.player.x, g.player.y) := by
  unfold timerInterrupt
  cases g.session.state with
  | game =>
      rcases gameMainLoop_frame setup reads g with ⟨-, hmouse, -, hplayer⟩
      refine ⟨hmouse, ?_⟩
      simp only [hplayer]
      split_ifs <;> rfl
  | menu =>
      rcases menuMainLoop_frame host pressed g with ⟨hmouse, -, hplayer⟩
      exact ⟨hmouse, by rw [hplayer]⟩
  | howTo => exact ⟨rfl, rfl⟩

/-! ## Interrupts of the local devices -/

/-- An interrupt of a local device with all that its handler reads. -/
inductive DeviceInterrupt where
  | kbd (status data : PortAccess)
  | mouse (status data : PortAccess)
  | timer (pressed : Option Button) (reads : ClockRead × ClockRead)
  | rtc (cause : PortAccess) (read : ClockRead)

/-- A frame of the timer with the clock at midnight, for runs on concrete input. -/
def frame (pressed : Option Button) : DeviceInterrupt :=
  let read : ClockRead := ⟨⟨true, 0⟩, ⟨true, 0⟩, ⟨true, 0⟩⟩
  .timer pressed (read, read)

/-- A key, for runs on concrete input. -/
def keyPressed (kbdValue : UInt32) : DeviceInterrupt := .kbd ⟨true, 1⟩ ⟨true, kbdValue⟩

/-- The scancode by which ESC is recognized. -/
def escKey : DeviceInterrupt := keyPressed 0x81

/-- The keys W and D that lead from the start through the first row and the last column of
{lit}`gameSetup` to the goal. -/
def walkToGoal : List DeviceInterrupt :=
  List.replicate 100 (keyPressed 0x11) ++ List.replicate 63 (keyPressed 0x20)

/-- The branches of all devices but the serial port. -/
def deviceInterrupt (setup : Setup) (host : Bool) (event : DeviceInterrupt) (g : Globals) :
    Globals × List UInt8 :=
  match event with
  | .kbd status data => (keyboardInterrupt setup status data g, [])
  | .mouse status data => (mouseInterrupt setup status data g, [])
  | .timer pressed reads => timerInterrupt setup host pressed reads g
  | .rtc cause read =>
      ({ g with clock := { g.clock with timeStamp := update cause read g.clock.timeStamp } }, [])

/-- The action on the session that an interrupt amounts to. -/
def deviceAction (setup : Setup) (event : DeviceInterrupt) (g : Globals) : Session.Action :=
  match event with
  | .kbd status data => if kbdIh status data g.kbdValue = escBreak then .esc else .idle
  | .mouse _ _ => .idle
  | .timer pressed _ =>
      match g.session.state with
      | .game =>
          if g.session.gameState = .running ∧ checkGameEnd setup.maze g.player = true then .win
          else .idle
      | .menu =>
          match pressed with
          | some .singlePlayer => .singlePlayer
          | some .multiPlayer => .multiplePlayer
          | some .howToPlay => .howTo
          | some .exit => .idle
          | none => .idle
      | .howTo => .idle
  | .rtc _ _ => .idle

/-- A local device does to the session what its action says, and sends its bytes. -/
theorem deviceInterrupt_session (setup : Setup) (host : Bool) (event : DeviceInterrupt)
    (g : Globals) :
    ((deviceInterrupt setup host event g).1.session, (deviceInterrupt setup host event g).2) =
      g.session.perform host (deviceAction setup event g) := by
  cases event with
  | kbd status data =>
      simp only [deviceInterrupt, deviceAction, keyboardInterrupt]
      split_ifs <;> rfl
  | mouse status data =>
      simp only [deviceInterrupt, deviceAction, mouseInterrupt]
      split <;> rfl
  | timer pressed reads =>
      simp only [deviceInterrupt, deviceAction, timerInterrupt]
      cases hstate : g.session.state with
      | game =>
          simp only [gameMainLoop]
          cases hgame : g.session.gameState with
          | waiting => rfl
          | running =>
              simp only [true_and]
              have hend : checkGameEnd setup.maze (gameCheckBound setup g.player) =
                  checkGameEnd setup.maze g.player := rfl
              rw [hend]
              split_ifs
              · rw [Session.perform, if_pos ⟨hstate, hgame⟩]
              · rfl
          | finish => rfl
      | menu =>
          cases pressed with
          | none => rfl
          | some button =>
              cases button <;> simp only [menuMainLoop, Session.perform, hstate, if_true]
      | howTo => rfl
  | rtc cause read => rfl

/-! ## The serial port -/

/-- The branch of the serial port. -/
def serialInterrupt (host : Bool) (ports : PortScript) (m : Machine) : Machine × List UInt8 :=
  if m.c = 0 then (m, [])
  else
    let (port, written, c) := receive ports m.port m.c
    let (session, sent) := dispatch host c m.session
    ({ globals := { m.globals with session := session }
       port := clearReceiveQueue port
       c := c }, written ++ sent)

/-- Between two interrupts nothing is queued. -/
structure Machine.Ready (m : Machine) : Prop where
  transmit : m.port.transmitQueue.contents = []
  receive : m.port.receiveQueue.contents = []

theorem Machine.ready_init (setup : Setup) : (Machine.init setup).Ready := ⟨rfl, rfl⟩

/-- The loop starts with the serial port listened to. -/
theorem Machine.init_c (setup : Setup) : (Machine.init setup).c ≠ 0 := by
  have hone : (1 : UInt8) ≠ 0 := by decide
  exact hone

/-- The byte that a serial interrupt dispatches: the first one read, or else the one that
is still in the variable. -/
def dispatchedByte (ports : PortScript) (c : UInt8) : UInt8 := (bytesRead ports).head?.getD c

/-- A serial interrupt dispatches one byte and leaves nothing queued. -/
theorem serialInterrupt_spec (host : Bool) (ports : PortScript) {m : Machine} (h : m.Ready)
    (hc : m.c ≠ 0) :
    ∃ port, serialInterrupt host ports m =
      ({ globals := { m.globals with
           session := (dispatch host (dispatchedByte ports m.c) m.session).1 }
         port := port
         c := dispatchedByte ports m.c },
        (dispatch host (dispatchedByte ports m.c) m.session).2) ∧
      port.transmitQueue.contents = [] ∧ port.receiveQueue.contents = [] := by
  rcases receive_spec h.transmit h.receive ports m.c with ⟨hkept, hreceive⟩
  refine ⟨clearReceiveQueue (receive ports m.port m.c).1, ?_, ?_, ?_⟩
  · simp only [serialInterrupt, if_neg hc, hreceive, List.nil_append]
    rfl
  · rw [clearReceiveQueue_transmitQueue, hkept]
    exact h.transmit
  · exact clearReceiveQueue_receiveQueue _

/-- Once the variable is 0 the serial port is ignored. -/
theorem serialInterrupt_of_zero (host : Bool) (ports : PortScript) {m : Machine}
    (hc : m.c = 0) : serialInterrupt host ports m = (m, []) := if_pos hc

/-! ## The loop -/

/-- An interrupt of any device. -/
inductive Interrupt where
  | device (event : DeviceInterrupt)
  | serial (ports : PortScript)

/-- Handle one interrupt. -/
def handle (setup : Setup) (host : Bool) (event : Interrupt) (m : Machine) :
    Machine × List UInt8 :=
  match event with
  | .device event =>
      let (globals, sent) := deviceInterrupt setup host event m.globals
      ({ m with globals := globals }, sent)
  | .serial ports => serialInterrupt host ports m

/-- A serial interrupt with these bytes pending dispatches the first of them. -/
theorem receive_dispatches (setup : Setup) (host : Bool) {m : Machine} (h : m.Ready)
    (hbyte : m.c ≠ 0) (c : UInt8) (rest : List UInt8) :
    ∃ port, handle setup host (.serial (uartReads (c :: rest))) m =
      ({ globals := { m.globals with session := (dispatch host c m.session).1 }
         port := port
         c := c }, (dispatch host c m.session).2) ∧
      port.transmitQueue.contents = [] ∧ port.receiveQueue.contents = [] := by
  have hspec := serialInterrupt_spec host (uartReads (c :: rest)) h hbyte
  have hdispatched : dispatchedByte (uartReads (c :: rest)) m.c = c := by
    rw [dispatchedByte, bytesRead_uartReads]
    rfl
  rw [hdispatched] at hspec
  exact hspec

/-- Handle one interrupt after the other, with all bytes sent. -/
def handleAll (setup : Setup) (host : Bool) : List Interrupt → Machine → Machine × List UInt8
  | [], m => (m, [])
  | event :: events, m =>
      let (m, sent) := handle setup host event m
      let (m, rest) := handleAll setup host events m
      (m, sent ++ rest)

/-- The machine after one interrupt. -/
def next (setup : Setup) (host : Bool) (m : Machine) (event : Interrupt) : Machine :=
  (handle setup host event m).1

theorem handleAll_fst (setup : Setup) (host : Bool) (events : List Interrupt) (m : Machine) :
    (handleAll setup host events m).1 = events.foldl (next setup host) m := by
  induction events generalizing m with
  | nil => rfl
  | cons event events ih => exact ih _

/-- A notification of the kernel: the interrupts that are pending together. -/
structure Notification where
  kbd : Option (PortAccess × PortAccess)
  mouse : Option (PortAccess × PortAccess)
  timer : Option (Option Button × ClockRead × ClockRead)
  rtc : Option (PortAccess × ClockRead)
  serial : Option PortScript

/-- The order in which one iteration of the loop handles them. -/
def Notification.interrupts (n : Notification) : List Interrupt :=
  (n.kbd.map fun a => Interrupt.device (.kbd a.1 a.2)).toList ++
  (n.mouse.map fun a => Interrupt.device (.mouse a.1 a.2)).toList ++
  (n.timer.map fun a => Interrupt.device (.timer a.1 a.2)).toList ++
  (n.rtc.map fun a => Interrupt.device (.rtc a.1 a.2)).toList ++
  (n.serial.map Interrupt.serial).toList

/-- {lit}`proj_main_loop` from its {lit}`while` on. -/
def mainLoop (setup : Setup) (host : Bool) : List Notification → Machine → Machine × List UInt8
  | [], m => (m, [])
  | n :: ns, m =>
      if m.globals.running then
        let (m, sent) := handleAll setup host n.interrupts m
        let (m, rest) := mainLoop setup host ns m
        (m, sent ++ rest)
      else (m, [])

/-- Between interrupts both queues stay empty. -/
theorem next_ready (setup : Setup) (host : Bool) (event : Interrupt) {m : Machine}
    (h : m.Ready) : (next setup host m event).Ready := by
  cases event with
  | device event => exact ⟨h.transmit, h.receive⟩
  | serial ports =>
      by_cases hc : m.c = 0
      · rw [next, handle, serialInterrupt_of_zero host ports hc]
        exact h
      · rcases serialInterrupt_spec host ports h hc with ⟨port, hrun, htransmit, hreceive⟩
        rw [next, handle, hrun]
        exact ⟨htransmit, hreceive⟩

theorem handleAll_append (setup : Setup) (host : Bool) (events events' : List Interrupt)
    (m : Machine) :
    handleAll setup host (events ++ events') m =
      ((handleAll setup host events' (handleAll setup host events m).1).1,
        (handleAll setup host events m).2 ++
          (handleAll setup host events' (handleAll setup host events m).1).2) := by
  induction events generalizing m with
  | nil => rfl
  | cons event events ih => simp [handleAll, ih]

/-- The loop over notifications handles their interrupts one by one, up to the
notification in which the program is left. -/
theorem mainLoop_eq_handleAll (setup : Setup) (host : Bool) (ns : List Notification)
    (m : Machine) :
    ∃ handled, handled <+: ns ∧
      mainLoop setup host ns m =
        handleAll setup host (handled.flatMap Notification.interrupts) m := by
  induction ns generalizing m with
  | nil => exact ⟨[], List.nil_prefix, rfl⟩
  | cons n ns ih =>
      cases hrunning : m.globals.running with
      | false => exact ⟨[], List.nil_prefix, by simp [mainLoop, hrunning, handleAll]⟩
      | true =>
          rcases ih (handleAll setup host n.interrupts m).1 with ⟨handled, hprefix, hrun⟩
          refine ⟨n :: handled, (List.prefix_cons_inj n).mpr hprefix, ?_⟩
          simp [mainLoop, hrunning, hrun, handleAll_append]

end LCOMaze
