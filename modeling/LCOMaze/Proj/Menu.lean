import LCOMaze.Foundations.Simulation
import LCOMaze.Proj.MainLoop

/-!
# The buttons of {lit}`menu.c`

The machine of the main loop leaves it to its events which button a frame of the menu finds
pressed.  The program decides it by the position of the cursor, the packet of the mouse and the
table of the buttons, and calls the handler of every button that is hit.  On screens on which the
buttons do not overlap, the program is such a machine.

Main results:

- Theorem {lit}`buttons_disjoint_iff`: no position hits two buttons exactly on screens of at least
  254 rows.
- Theorem {lit}`handleMouseClick_eq`: then a click calls the handler of the button hit and no other.
- Theorem {lit}`program_refines_machine`: every run of the program is a run of the machine with the
  same bytes sent.
- Theorem {lit}`program_runs_iff`: the program is left by its last button and by nothing else.
-/

namespace LCOMaze

open Foundations

/-! ## The translated menu -/

/-- {lit}`Button`. -/
structure MenuButton where
  x : Int
  y : Int
  width : Int
  height : Int
  label : String
  onClick : Button
deriving DecidableEq, Repr

/-- {lit}`MAX_BUTTONS`. -/
def maxButtons : Nat := 10

/-- {lit}`create_button`, on the first {lit}`button_count` elements of {lit}`buttons`. -/
def createButton (buttons : List MenuButton) (button : MenuButton) : List MenuButton :=
  if buttons.length < maxButtons then buttons ++ [button] else buttons

/-- {lit}`is_button_pressed`. -/
def isButtonPressed (button : MenuButton) (mouseX mouseY : Int) : Bool :=
  button.x ≤ mouseX && mouseX ≤ button.x + button.width &&
    button.y ≤ mouseY && mouseY ≤ button.y + button.height

/-- The loop of {lit}`handle_mouse_click`, with the bytes that the handlers send. -/
def handleMouseClick (host : Bool) (mouseX mouseY : Int) :
    List MenuButton → Globals → Globals × List UInt8
  | [], g => (g, [])
  | button :: buttons, g =>
      if isButtonPressed button mouseX mouseY && g.mouse.packet.lb then
        let (g, sent) := menuMainLoop host (some button.onClick) g
        let (g, rest) := handleMouseClick host mouseX mouseY buttons g
        (g, sent ++ rest)
      else handleMouseClick host mouseX mouseY buttons g

/-- The button in the {lit}`k`-th fifth of the screen. -/
def menuButton (setup : Setup) (k : Nat) (label : String) (onClick : Button) : MenuButton :=
  ⟨setup.xResolution.toNat / 2 - 200, setup.yResolution.toNat * k / 5 + 100, 400, 50, label,
    onClick⟩

/-- The four buttons of {lit}`menu_main_loop`. -/
def mainButtons (setup : Setup) : List MenuButton :=
  [menuButton setup 1 "SinglePlayer" .singlePlayer, menuButton setup 2 "MultiPlayer" .multiPlayer,
    menuButton setup 3 "How to Play" .howToPlay, menuButton setup 4 "Exit" .exit]

/-- The buttons after the first statement of {lit}`menu_main_loop`. -/
def createButtons (setup : Setup) (buttons : List MenuButton) : List MenuButton :=
  if buttons.length < 1 then (mainButtons setup).foldl createButton buttons else buttons

/-- The main loop with the table of the buttons. -/
structure Program where
  machine : Machine
  buttons : List MenuButton

/-- The state in which the loop starts. -/
def Program.init (setup : Setup) : Program := ⟨.init setup, []⟩

/-- What an interrupt hands to the program: the outcomes of the port accesses of its handler. -/
inductive Input where
  | kbd (status data : PortAccess)
  | mouse (status data : PortAccess)
  | timer (reads : ClockRead × ClockRead)
  | rtc (cause : PortAccess) (read : ClockRead)
  | serial (ports : PortScript)

/-- {lit}`menu_main_loop`; the coordinates of the cursor are converted to {lit}`int`. -/
def menuFrame (setup : Setup) (host : Bool) (p : Program) : Program × List UInt8 :=
  let buttons := createButtons setup p.buttons
  let player := p.machine.globals.player
  let (globals, sent) := handleMouseClick host (truncToInt player.xMouse)
    (truncToInt player.yMouse) buttons p.machine.globals
  (⟨{ p.machine with globals := globals }, buttons⟩, sent)

/-- Handle one interrupt of the machine, without the menu. -/
def Program.handle (setup : Setup) (host : Bool) (event : Interrupt) (p : Program) :
    Program × List UInt8 :=
  let (machine, sent) := LCOMaze.handle setup host event p.machine
  ({ p with machine := machine }, sent)

/-- Handle one interrupt. -/
def programStep (setup : Setup) (host : Bool) (p : Program) : Input → Program × List UInt8
  | .kbd status data => p.handle setup host (.device (.kbd status data))
  | .mouse status data => p.handle setup host (.device (.mouse status data))
  | .timer reads =>
      if p.machine.session.state = .menu then menuFrame setup host p
      else p.handle setup host (.device (.timer none reads))
  | .rtc cause read => p.handle setup host (.device (.rtc cause read))
  | .serial ports => p.handle setup host (.serial ports)

/-! ## Which button is hit -/

/-- No position hits both buttons. -/
def MenuButton.Disjoint (a b : MenuButton) : Prop :=
  ∀ mouseX mouseY,
    ¬(isButtonPressed a mouseX mouseY = true ∧ isButtonPressed b mouseX mouseY = true)

theorem isButtonPressed_iff {button : MenuButton} {mouseX mouseY : Int} :
    isButtonPressed button mouseX mouseY = true ↔
      button.x ≤ mouseX ∧ mouseX ≤ button.x + button.width ∧
        button.y ≤ mouseY ∧ mouseY ≤ button.y + button.height := by
  simp only [isButtonPressed, Bool.and_eq_true, decide_eq_true_eq, and_assoc]

/-- Buttons one above the other are disjoint exactly if the upper one ends above the lower one. -/
theorem menuButton_disjoint_iff (setup : Setup) {k l : Nat} (hkl : k ≤ l) (label label' : String)
    (onClick onClick' : Button) :
    (menuButton setup k label onClick).Disjoint (menuButton setup l label' onClick') ↔
      setup.yResolution.toNat * k / 5 + 50 < setup.yResolution.toNat * l / 5 := by
  have hle : setup.yResolution.toNat * k ≤ setup.yResolution.toNat * l :=
    Nat.mul_le_mul_left _ hkl
  unfold MenuButton.Disjoint
  simp only [isButtonPressed_iff, menuButton]
  constructor
  · intro h
    by_contra hoverlap
    exact h (setup.xResolution.toNat / 2 - 200) (setup.yResolution.toNat * l / 5 + 100)
      ⟨by omega, by omega⟩
  · intro h mouseX mouseY
    omega

/-- No position hits two buttons exactly on screens of at least 254 rows. -/
theorem buttons_disjoint_iff (setup : Setup) :
    (mainButtons setup).Pairwise MenuButton.Disjoint ↔ 254 ≤ setup.yResolution.toNat := by
  simp (disch := decide) only [mainButtons, List.pairwise_cons, List.forall_mem_cons,
    List.not_mem_nil, false_implies, implies_true, List.Pairwise.nil, and_true,
    menuButton_disjoint_iff]
  constructor
  · omega
  · intro hrows
    rcases Nat.eq_or_lt_of_le hrows with hleast | hmore
    · rw [← hleast]
      decide
    · omega

/-- The button hit, if the left button of the mouse is held. -/
def hitButton (buttons : List MenuButton) (g : Globals) : Option Button :=
  if g.mouse.packet.lb then
    (buttons.find? fun button => isButtonPressed button (truncToInt g.player.xMouse)
      (truncToInt g.player.yMouse)).map MenuButton.onClick
  else none

/-- Without a hit no handler is called. -/
theorem handleMouseClick_of_missed {host : Bool} {mouseX mouseY : Int}
    {buttons : List MenuButton} {g : Globals}
    (h : ∀ button ∈ buttons, isButtonPressed button mouseX mouseY = true →
      g.mouse.packet.lb = false) :
    handleMouseClick host mouseX mouseY buttons g = (g, []) := by
  induction buttons with
  | nil => rfl
  | cons button buttons ih =>
      rw [List.forall_mem_cons] at h
      have hskip : ¬(isButtonPressed button mouseX mouseY && g.mouse.packet.lb) = true := by
        rw [Bool.and_eq_true]
        rintro ⟨hpressed, hheld⟩
        rw [h.1 hpressed] at hheld
        exact Bool.false_ne_true hheld
      rw [handleMouseClick, if_neg hskip]
      exact ih h.2

/-- If no two buttons overlap, a click calls the handler of the button hit and no other. -/
theorem handleMouseClick_eq {buttons : List MenuButton}
    (h : buttons.Pairwise MenuButton.Disjoint) (host : Bool) (g : Globals) :
    handleMouseClick host (truncToInt g.player.xMouse) (truncToInt g.player.yMouse) buttons g =
      menuMainLoop host (hitButton buttons g) g := by
  cases hheld : g.mouse.packet.lb with
  | false =>
      rw [handleMouseClick_of_missed fun _ _ _ => hheld, hitButton, hheld]
      rfl
  | true =>
      rw [hitButton, if_pos hheld]
      induction buttons with
      | nil => rfl
      | cons button buttons ih =>
          rw [List.pairwise_cons] at h
          rw [handleMouseClick, List.find?_cons]
          cases hpressed : isButtonPressed button (truncToInt g.player.xMouse)
              (truncToInt g.player.yMouse) with
          | false =>
              rw [if_neg (by simp)]
              exact ih h.2
          | true =>
              -- the handler moves nothing, and the other buttons are not under the cursor
              have hmissed : ∀ other ∈ buttons,
                  isButtonPressed other (truncToInt g.player.xMouse)
                    (truncToInt g.player.yMouse) = true →
                  (menuMainLoop host (some button.onClick) g).1.mouse.packet.lb = false :=
                fun other hother hboth => absurd ⟨hpressed, hboth⟩ (h.1 other hother _ _)
              rw [if_pos (by rw [hheld]; rfl)]
              dsimp only
              rw [handleMouseClick_of_missed hmissed, List.append_nil]
              rfl

/-! ## The program is a machine -/

/-- The buttons are created once, in the first frame of the menu. -/
def Program.TableSet (setup : Setup) (p : Program) : Prop :=
  p.buttons = [] ∨ p.buttons = mainButtons setup

/-- After the first statement of {lit}`menu_main_loop` the table is complete. -/
theorem createButtons_of_tableSet {setup : Setup} {p : Program} (h : p.TableSet setup) :
    createButtons setup p.buttons = mainButtons setup := by
  rcases h with hempty | hfull
  · rw [hempty]
    rfl
  · rw [hfull]
    rfl

/-- The event of the machine that an input becomes: a frame finds the button hit pressed. -/
def Program.resolve (setup : Setup) (p : Program) : Input → Interrupt
  | .kbd status data => .device (.kbd status data)
  | .mouse status data => .device (.mouse status data)
  | .timer reads =>
      .device (.timer (hitButton (createButtons setup p.buttons) p.machine.globals) reads)
  | .rtc cause read => .device (.rtc cause read)
  | .serial ports => .serial ports

/-- The table stays empty or complete. -/
theorem Program.TableSet.step {setup : Setup} {p : Program} (h : p.TableSet setup) (host : Bool)
    (input : Input) : (programStep setup host p input).1.TableSet setup := by
  cases input with
  | kbd status data => exact h
  | mouse status data => exact h
  | rtc cause read => exact h
  | serial ports => exact h
  | timer reads =>
      rw [programStep]
      split_ifs
      · exact Or.inr (createButtons_of_tableSet h)
      · exact h

/-- A step of the program is one of the machine, on the event that the input becomes. -/
theorem program_simulates (setup : Setup) (host : Bool)
    (hscreen : 254 ≤ setup.yResolution.toNat) :
    Simulates (programStep setup host) (fun m event => handle setup host event m)
      (Program.resolve setup) Program.machine (Program.TableSet setup) where
  agrees := by
    intro p input htable
    cases input with
    | kbd status data => rfl
    | mouse status data => rfl
    | rtc cause read => rfl
    | serial ports => rfl
    | timer reads =>
        have hdisjoint := (buttons_disjoint_iff setup).mpr hscreen
        rw [← createButtons_of_tableSet htable] at hdisjoint
        simp only [programStep, Program.resolve, menuFrame, handleMouseClick_eq hdisjoint]
        cases hstate : p.machine.session.state with
        | menu =>
            simp only [handle, deviceInterrupt, timerInterrupt]
            rw [show p.machine.globals.session.state = .menu from hstate]
            rfl
        | game =>
            simp only [reduceCtorEq, if_false, Program.handle, handle, deviceInterrupt,
              timerInterrupt]
            rw [show p.machine.globals.session.state = .game from hstate]
        | howTo =>
            simp only [reduceCtorEq, if_false, Program.handle, handle, deviceInterrupt,
              timerInterrupt]
            rw [show p.machine.globals.session.state = .howTo from hstate]
  keeps := fun _ input htable => htable.step host input

/-- Handling interrupts one by one is a run. -/
theorem handleAll_eq_runAll (setup : Setup) (host : Bool) (events : List Interrupt)
    (m : Machine) :
    handleAll setup host events m = runAll (fun m event => handle setup host event m) events m := by
  induction events generalizing m with
  | nil => rfl
  | cons event events ih =>
      rw [handleAll, runAll, ← ih]

/-- For every screen on which the buttons do not overlap and every run of the program from its
start, whatever the devices deliver: the machine and the bytes sent are those of a run of the
machine in which every frame of the menu finds the button under the cursor pressed while the left
button of the mouse is held, and the table of the buttons is empty or complete. -/
theorem program_refines_machine (setup : Setup) (host : Bool)
    (hscreen : 254 ≤ setup.yResolution.toNat) (inputs : List Input) :
    let run := runAll (programStep setup host) inputs (.init setup)
    run.1.TableSet setup ∧
      handleAll setup host
          (resolveAll (programStep setup host) (Program.resolve setup) inputs (.init setup))
          (.init setup) =
        (run.1.machine, run.2) := by
  have htable : (Program.init setup).TableSet setup := Or.inl rfl
  have hsimulates := program_simulates setup host hscreen
  refine ⟨hsimulates.invariant inputs htable, ?_⟩
  rw [handleAll_eq_runAll]
  exact hsimulates.run inputs htable

/-- The bytes of a packet, one interrupt for each. -/
def packetInputs (bytes : List UInt8) : List Input :=
  bytes.map fun byte => .mouse ⟨true, 0x21⟩ ⟨true, byte.toUInt32⟩

/-- A frame with the clock at midnight. -/
def frameInput : Input :=
  let read : ClockRead := ⟨⟨true, 0⟩, ⟨true, 0⟩, ⟨true, 0⟩⟩
  .timer (read, read)

/-- Two packets that move the cursor to the right and down, one that holds the left button of the
mouse there, and a frame. -/
def clickBelow (deltaY : UInt8) : List Input :=
  packetInputs [0x28, 160, deltaY, 0x28, 160, deltaY, 0x09, 0, 0] ++ [frameInput]

/-- The host clicks on the second button. -/
theorem program_refines_machine_click :
    let run := runAll (programStep gameSetup true) (clickBelow 106) (.init gameSetup)
    run.2 = [byteM] ∧ run.1.TableSet gameSetup ∧
      handleAll gameSetup true
          (resolveAll (programStep gameSetup true) (Program.resolve gameSetup) (clickBelow 106)
            (.init gameSetup)) (.init gameSetup) =
        (run.1.machine, run.2) :=
  ⟨by decide +kernel, program_refines_machine gameSetup true gameSetup.rows _⟩

/-! ## Leaving the program -/

/-- Only the last button leaves the program. -/
theorem menuMainLoop_running (host : Bool) (button : Button) (g : Globals) :
    (menuMainLoop host (some button) g).1.running = true ↔ g.running = true ∧ button ≠ .exit := by
  cases button <;> simp [menuMainLoop]

/-- A click leaves the program if it hits a button that does. -/
theorem handleMouseClick_running (host : Bool) (mouseX mouseY : Int) (buttons : List MenuButton)
    (g : Globals) :
    (handleMouseClick host mouseX mouseY buttons g).1.running = true ↔
      g.running = true ∧ ∀ button ∈ buttons,
        ¬(isButtonPressed button mouseX mouseY = true ∧ g.mouse.packet.lb = true ∧
          button.onClick = .exit) := by
  induction buttons generalizing g with
  | nil => simp [handleMouseClick]
  | cons button buttons ih =>
      rw [handleMouseClick, List.forall_mem_cons]
      by_cases hhit : (isButtonPressed button mouseX mouseY && g.mouse.packet.lb) = true
      · rw [if_pos hhit]
        dsimp only
        rw [ih, menuMainLoop_running, (menuMainLoop_frame host (some button.onClick) g).1,
          and_assoc]
        rw [Bool.and_eq_true] at hhit
        simp only [hhit.1, hhit.2, true_and, ne_eq]
      · rw [if_neg hhit, ih]
        rw [Bool.and_eq_true] at hhit
        tauto

/-- The input is a frame of the menu in which the left button of the mouse is held over Exit. -/
def Program.PressesExit (setup : Setup) (p : Program) : Input → Prop
  | .timer _ =>
      p.machine.session.state = .menu ∧ p.machine.globals.mouse.packet.lb = true ∧
        isButtonPressed (menuButton setup 4 "Exit" .exit)
          (truncToInt p.machine.globals.player.xMouse)
          (truncToInt p.machine.globals.player.yMouse) = true
  | _ => False

theorem keyboardInterrupt_running (setup : Setup) (status data : PortAccess) (g : Globals) :
    (keyboardInterrupt setup status data g).running = g.running := by
  unfold keyboardInterrupt
  dsimp only
  split_ifs <;> rfl

theorem mouseInterrupt_running (setup : Setup) (status data : PortAccess) (g : Globals) :
    (mouseInterrupt setup status data g).running = g.running := by
  unfold mouseInterrupt
  dsimp only
  cases g.session.state <;> rfl

/-- A frame without a click. -/
theorem timerInterrupt_running (setup : Setup) (host : Bool) (reads : ClockRead × ClockRead)
    (g : Globals) : (timerInterrupt setup host none reads g).1.running = g.running := by
  unfold timerInterrupt
  cases g.session.state with
  | menu => rfl
  | howTo => rfl
  | game =>
      simp only [gameMainLoop]
      cases g.session.gameState with
      | waiting => rfl
      | running =>
          dsimp only
          split_ifs <;> rfl
      | finish => rfl

theorem serialInterrupt_running (host : Bool) (ports : PortScript) (m : Machine) :
    (serialInterrupt host ports m).1.globals.running = m.globals.running := by
  unfold serialInterrupt
  split_ifs <;> rfl

/-- Of the buttons of the menu, only Exit leaves the program. -/
theorem mainButtons_exit (setup : Setup) {mouseX mouseY : Int} {held : Bool} :
    (∀ button ∈ mainButtons setup, ¬(isButtonPressed button mouseX mouseY = true ∧ held = true ∧
        button.onClick = .exit)) ↔
      ¬(held = true ∧ isButtonPressed (menuButton setup 4 "Exit" .exit) mouseX mouseY = true) := by
  simp only [mainButtons, List.forall_mem_cons, menuButton, reduceCtorEq, and_false,
    not_false_eq_true, List.not_mem_nil, false_implies, implies_true, true_and, and_true]
  exact not_congr and_comm

/-- One interrupt leaves the program only by that button. -/
theorem programStep_running {setup : Setup} {p : Program} (htable : p.TableSet setup) (host : Bool)
    (input : Input) :
    (programStep setup host p input).1.machine.globals.running = true ↔
      p.machine.globals.running = true ∧ ¬p.PressesExit setup input := by
  have hother : ∀ {running : Bool}, running = p.machine.globals.running →
      (running = true ↔ p.machine.globals.running = true ∧ ¬False) := by
    rintro _ rfl
    exact (and_iff_left not_false).symm
  cases input with
  | kbd status data => exact hother (keyboardInterrupt_running setup status data _)
  | mouse status data => exact hother (mouseInterrupt_running setup status data _)
  | rtc cause read => exact hother rfl
  | serial ports => exact hother (serialInterrupt_running host ports _)
  | timer reads =>
      by_cases hmenu : p.machine.session.state = .menu
      · rw [programStep, if_pos hmenu, menuFrame, createButtons_of_tableSet htable]
        dsimp only
        rw [handleMouseClick_running, mainButtons_exit, Program.PressesExit, and_iff_right hmenu]
      · have hno : ¬p.PressesExit setup (.timer reads) := fun hpresses => hmenu hpresses.1
        rw [programStep, if_neg hmenu, iff_false_intro hno]
        exact hother (timerInterrupt_running setup host reads _)

/-- For every screen and every run of the program from its start, whatever the devices deliver:
{lit}`running` is true as long as no frame of the menu finds the left button of the mouse held over
Exit, and false from then on. -/
theorem program_runs_iff (setup : Setup) (host : Bool) (inputs : List Input) :
    (runAll (programStep setup host) inputs (.init setup)).1.machine.globals.running = true ↔
      Throughout (fun p input => (programStep setup host p input).1)
        (fun p input => ¬p.PressesExit setup input) inputs (.init setup) := by
  have htable : (Program.init setup).TableSet setup := Or.inl rfl
  rw [runAll_fst, foldl_iff_throughout (Program.TableSet setup)
    (fun p => p.machine.globals.running = true) (fun p input h => h.step host input)
    (fun p input h => programStep_running h host input) htable]
  exact and_iff_right rfl

end LCOMaze
