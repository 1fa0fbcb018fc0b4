import LCOMaze.Controllers.Buffers
import LCOMaze.Proj.Pictures

/-!
# The frames of a run

Every interrupt of the timer clears {lit}`back_buffer`, draws a picture and copies it to
{lit}`frame_buffer`.  The other interrupts do not draw.

Main results:

- Theorem {lit}`frames_drawn`: every frame of every run is drawn without a fault, and no frame
  depends on what the buffers held.
- Theorem {lit}`frames_hide_maze`: the frames of a run depend on the maze in view alone.
- Theorem {lit}`frameCounter_run`: the animation counts the frames in which the player moves.
-/

namespace LCOMaze

open Foundations

variable {n : Nat}

/-! ## The program with its buffers -/

/-- The program with {lit}`frame_counter`, {lit}`back_buffer` and {lit}`frame_buffer`. -/
structure Video (n : Nat) where
  program : Program
  frameCounter : Nat
  backBuffer : Memory n
  frameBuffer : Memory n

/-- The state in which the loop starts, with what the buffers hold. -/
def Video.init (setup : Setup) (backBuffer frameBuffer : Memory n) : Video n :=
  ⟨.init setup, 0, backBuffer, frameBuffer⟩

/-- The interrupt of the timer is one of a running game, whose frame draws the player. -/
def Program.DrawsGame (p : Program) : Prop :=
  p.machine.session.state = .game ∧ p.machine.session.gameState = .running

instance (p : Program) : Decidable p.DrawsGame := inferInstanceAs (Decidable (_ ∧ _))

/-- The variables that the picture of a frame is drawn with: in a game, those after
{lit}`check_time` and, if it is running, {lit}`game_check_bound`. -/
def Program.picture (stage : Stage) (mazeBuffer : Memory n) (reads : ClockRead × ClockRead)
    (p : Program) (frameCounter : Nat) : Memory n → Memory n :=
  let g := p.machine.globals
  match g.session.state with
  | .game =>
      gamePicture stage mazeBuffer g.session (checkTime g.session.gameState reads g.clock)
        (if g.session.gameState = .running then gameCheckBound stage.setup g.player else g.player)
        frameCounter
  | .menu => menuPicture stage g.player (createButtons stage.setup p.buttons)
  | .howTo => infoPicture stage

/-- Handle one interrupt, with the frame that it shows. -/
def videoStep (stage : Stage) (host : Bool) (mazeBuffer : Memory n) (v : Video n) :
    Input → Video n × List (Memory n)
  | .timer reads =>
      let frameCounter :=
        if v.program.DrawsGame then
          heroFrameCounter v.program.machine.globals.player.isMoving v.frameCounter
        else v.frameCounter
      let backBuffer := v.program.picture stage mazeBuffer reads frameCounter
        (clear stage.mode v.backBuffer)
      let frameBuffer := swap stage.mode backBuffer v.frameBuffer
      (⟨(programStep stage.setup host v.program (.timer reads)).1, frameCounter, backBuffer,
        frameBuffer⟩, [frameBuffer])
  | input => ({ v with program := (programStep stage.setup host v.program input).1 }, [])

/-- The program does not see the buffers. -/
theorem videoStep_program (stage : Stage) (host : Bool) (mazeBuffer : Memory n) (v : Video n)
    (input : Input) :
    (videoStep stage host mazeBuffer v input).1.program =
      (programStep stage.setup host v.program input).1 := by
  cases input <;> rfl

/-! ## Every frame is drawn -/

section

variable (stage : Stage) (host : Bool)

/-- With a table that is empty or complete, every picture is drawn, if the screen has room for the
buttons and the sprites of the letters are small enough for titles. -/
theorem picture_drawn (hwidth : 400 ≤ stage.setup.xResolution.toNat)
    (hfont : FontFits stage.sprites.font 4) (mazeBuffer : stage.screen.Frame)
    (reads : ClockRead × ClockRead) {p : Program} (htable : p.TableSet stage.setup)
    (frameCounter : Nat) :
    Drawn stage.screen (p.picture stage (some mazeBuffer) reads frameCounter) := by
  unfold Program.picture
  dsimp only
  rw [createButtons_of_tableSet htable]
  cases p.machine.globals.session.state with
  | game => exact gamePicture_drawn stage hfont mazeBuffer _ _ _ _
  | menu => exact menuPicture_drawn stage hwidth hfont _
  | howTo => exact infoPicture_drawn stage hfont

/-- The table stays empty or complete. -/
theorem videoStep_tableSet (mazeBuffer : Memory n) {v : Video n}
    (htable : v.program.TableSet stage.setup) (input : Input) :
    (videoStep stage host mazeBuffer v input).1.program.TableSet stage.setup := by
  rw [videoStep_program]
  exact htable.step host input

/-- The picture of a frame, drawn on black, whatever the buffers held. -/
theorem videoStep_timer (hwidth : 400 ≤ stage.setup.xResolution.toNat)
    (hfont : FontFits stage.sprites.font 4) (mazeBuffer : stage.screen.Frame)
    (reads : ClockRead × ClockRead) {v : Video stage.screen.raster.size}
    (htable : v.program.TableSet stage.setup)
    {backBuffer frameBuffer : stage.screen.Frame} (hback : v.backBuffer = some backBuffer)
    (hfront : v.frameBuffer = some frameBuffer) :
    ∃ frame : stage.screen.Frame,
      v.program.picture stage (some mazeBuffer) reads
          (videoStep stage host (some mazeBuffer) v (.timer reads)).1.frameCounter
          (some stage.screen.black) = some frame ∧
      (videoStep stage host (some mazeBuffer) v (.timer reads)).2 = [some frame] ∧
      (videoStep stage host (some mazeBuffer) v (.timer reads)).1.backBuffer = some frame ∧
      (videoStep stage host (some mazeBuffer) v (.timer reads)).1.frameBuffer = some frame := by
  rcases picture_drawn stage hwidth hfont mazeBuffer reads htable
    (videoStep stage host (some mazeBuffer) v (.timer reads)).1.frameCounter with
    ⟨overlay, hdraws⟩
  rcases hdraws stage.screen.black with ⟨frame, hrun, -⟩
  have hclear := clear_screen stage.screen backBuffer
  have hback' : (videoStep stage host (some mazeBuffer) v (.timer reads)).1.backBuffer =
      some frame := by
    rw [← hrun, ← hclear, ← hback]
    rfl
  have hfront' : (videoStep stage host (some mazeBuffer) v (.timer reads)).1.frameBuffer =
      some frame := by
    rw [← swap_screen stage.screen frame frameBuffer, ← hback', ← hfront]
    rfl
  exact ⟨frame, hrun, congrArg (fun memory => [memory]) hfront', hback', hfront'⟩

/-- Neither buffer has lost its contents, and the table is empty or complete. -/
structure Video.Sound (v : Video stage.screen.raster.size) : Prop where
  tableSet : v.program.TableSet stage.setup
  backBuffer : ∃ frame : stage.screen.Frame, v.backBuffer = some frame
  frameBuffer : ∃ frame : stage.screen.Frame, v.frameBuffer = some frame

/-- Two states of the same program, with whatever is in the buffers. -/
structure Video.Agree (v w : Video stage.screen.raster.size) : Prop where
  left : v.Sound stage
  right : w.Sound stage
  program : v.program = w.program
  frameCounter : v.frameCounter = w.frameCounter

/-- The frame that an interrupt shows of a running game. -/
def Program.ShowsGame (p : Program) : Input → Prop
  | .timer _ => p.DrawsGame
  | _ => False

instance (p : Program) (input : Input) : Decidable (p.ShowsGame input) :=
  match input with
  | .timer _ => inferInstanceAs (Decidable p.DrawsGame)
  | .kbd _ _ | .mouse _ _ | .rtc _ _ | .serial _ => inferInstanceAs (Decidable False)

/-- Two pictures of the maze agree in view of the player in such a frame. -/
def AgreesInView (mazeBuffer mazeBuffer' : stage.screen.Frame) (p : Program) (input : Input) :
    Prop :=
  p.ShowsGame input → ∀ q : stage.screen.raster.Pixel,
    InFov stage.fp p.machine.globals.player q.1 q.2 →
      Raster.pixel mazeBuffer q = Raster.pixel mazeBuffer' q

/-- Then the frame is the same. -/
theorem picture_agree {mazeBuffer mazeBuffer' : stage.screen.Frame}
    {reads : ClockRead × ClockRead} {p : Program}
    (hview : AgreesInView stage mazeBuffer mazeBuffer' p (.timer reads)) (frameCounter : Nat)
    (frame : stage.screen.Frame) :
    p.picture stage (some mazeBuffer) reads frameCounter (some frame) =
      p.picture stage (some mazeBuffer') reads frameCounter (some frame) := by
  unfold Program.picture
  cases hstate : p.machine.globals.session.state with
  | game =>
      dsimp only
      unfold gamePicture
      cases hgame : p.machine.globals.session.gameState with
      | waiting => rfl
      | finish => rfl
      | running =>
          dsimp only
          have hfov := fovOverlay_congr stage.fp stage.screen
            (gameCheckBound stage.setup p.machine.globals.player) (hview ⟨hstate, hgame⟩)
          have hdraws := gameDrawFovCircle_draws stage.fp stage.screen
            (gameCheckBound stage.setup p.machine.globals.player) mazeBuffer'
          rw [← hfov] at hdraws
          rw [if_pos rfl,
            (gameDrawFovCircle_draws stage.fp stage.screen _ mazeBuffer).unique hdraws]
  | menu => rfl
  | howTo => rfl

/-- A step shows the same frame, whatever the buffers hold. -/
theorem videoStep_agree (hwidth : 400 ≤ stage.setup.xResolution.toNat)
    (hfont : FontFits stage.sprites.font 4) {mazeBuffer mazeBuffer' : stage.screen.Frame}
    {v w : Video stage.screen.raster.size} (h : v.Agree stage w) (input : Input)
    (hview : AgreesInView stage mazeBuffer mazeBuffer' v.program input) :
    (videoStep stage host (some mazeBuffer) v input).2 =
        (videoStep stage host (some mazeBuffer') w input).2 ∧
      (videoStep stage host (some mazeBuffer) v input).1.Agree stage
        (videoStep stage host (some mazeBuffer') w input).1 := by
  have hprogram : (videoStep stage host (some mazeBuffer) v input).1.program =
      (videoStep stage host (some mazeBuffer') w input).1.program := by
    rw [videoStep_program, videoStep_program, h.program]
  have htable := videoStep_tableSet stage host (some mazeBuffer) h.left.tableSet input
  have htable' := videoStep_tableSet stage host (some mazeBuffer') h.right.tableSet input
  cases input with
  | kbd status data =>
      exact ⟨rfl, ⟨htable, h.left.2, h.left.3⟩, ⟨htable', h.right.2, h.right.3⟩, hprogram, h.4⟩
  | mouse status data =>
      exact ⟨rfl, ⟨htable, h.left.2, h.left.3⟩, ⟨htable', h.right.2, h.right.3⟩, hprogram, h.4⟩
  | rtc cause read =>
      exact ⟨rfl, ⟨htable, h.left.2, h.left.3⟩, ⟨htable', h.right.2, h.right.3⟩, hprogram, h.4⟩
  | serial ports =>
      exact ⟨rfl, ⟨htable, h.left.2, h.left.3⟩, ⟨htable', h.right.2, h.right.3⟩, hprogram, h.4⟩
  | timer reads =>
      rcases h.left.backBuffer with ⟨back, hback⟩
      rcases h.left.frameBuffer with ⟨front, hfront⟩
      rcases h.right.backBuffer with ⟨back', hback'⟩
      rcases h.right.frameBuffer with ⟨front', hfront'⟩
      rcases videoStep_timer stage host hwidth hfont mazeBuffer reads h.left.tableSet hback
        hfront with ⟨frame, hrun, hshown, hdrawn, hcopied⟩
      rcases videoStep_timer stage host hwidth hfont mazeBuffer' reads h.right.tableSet hback'
        hfront' with ⟨frame', hrun', hshown', hdrawn', hcopied'⟩
      have hcounter : (videoStep stage host (some mazeBuffer) v (.timer reads)).1.frameCounter =
          (videoStep stage host (some mazeBuffer') w (.timer reads)).1.frameCounter := by
        simp only [videoStep, h.program, h.frameCounter]
      have hsame : frame = frame' := by
        rw [picture_agree stage hview, hcounter, h.program, hrun', Option.some.injEq] at hrun
        exact hrun.symm
      refine ⟨?_, ⟨htable, ⟨frame, hdrawn⟩, frame, hcopied⟩, ⟨htable', ⟨frame', hdrawn'⟩, frame',
        hcopied'⟩, hprogram, hcounter⟩
      rw [hshown, hshown', hsame]

/-- The program starts alike on all contents of the buffers. -/
theorem Video.agree_init (backBuffer frameBuffer backBuffer' frameBuffer' : stage.screen.Frame) :
    (Video.init stage.setup (some backBuffer) (some frameBuffer)).Agree stage
      (Video.init stage.setup (some backBuffer') (some frameBuffer')) :=
  ⟨⟨Or.inl rfl, ⟨_, rfl⟩, _, rfl⟩, ⟨Or.inl rfl, ⟨_, rfl⟩, _, rfl⟩, rfl, rfl⟩

/-- The frames of a run are drawn. -/
theorem runAll_videoStep_some (hwidth : 400 ≤ stage.setup.xResolution.toNat)
    (hfont : FontFits stage.sprites.font 4) (mazeBuffer : stage.screen.Frame) (inputs : List Input)
    {v : Video stage.screen.raster.size} (h : v.Agree stage v) :
    ∃ frames : List stage.screen.Frame,
      (runAll (videoStep stage host (some mazeBuffer)) inputs v).2 = frames.map some := by
  induction inputs generalizing v with
  | nil => exact ⟨[], rfl⟩
  | cons input inputs ih =>
      rcases videoStep_agree stage host hwidth hfont h input (fun _ _ _ => rfl : AgreesInView stage
        mazeBuffer mazeBuffer v.program input) with ⟨-, hnext⟩
      rcases ih hnext with ⟨frames, hframes⟩
      have hfirst : ∃ shown : List stage.screen.Frame,
          (videoStep stage host (some mazeBuffer) v input).2 = shown.map some := by
        cases input with
        | timer reads =>
            rcases h.left.backBuffer with ⟨back, hback⟩
            rcases h.left.frameBuffer with ⟨front, hfront⟩
            rcases videoStep_timer stage host hwidth hfont mazeBuffer reads h.left.tableSet hback
              hfront with ⟨frame, -, hshown, -⟩
            exact ⟨[frame], hshown⟩
        | kbd status data => exact ⟨[], rfl⟩
        | mouse status data => exact ⟨[], rfl⟩
        | rtc cause read => exact ⟨[], rfl⟩
        | serial ports => exact ⟨[], rfl⟩
      rcases hfirst with ⟨shown, hshown⟩
      exact ⟨shown ++ frames, by rw [runAll, hshown, hframes, List.map_append]⟩

/-- On every screen of at least 400 columns, with every font whose letters have a size of 16 bits
when scaled by four, for every picture of the maze and every run from the start of the program,
whatever the devices deliver: all frames are drawn without a byte written outside the buffers, a
letter without a sprite or a loop without an end, and none depends on what the buffers held. -/
theorem frames_drawn (hwidth : 400 ≤ stage.setup.xResolution.toNat)
    (hfont : FontFits stage.sprites.font 4) (mazeBuffer : stage.screen.Frame)
    (inputs : List Input) :
    ∃ frames : List stage.screen.Frame, ∀ backBuffer frameBuffer : stage.screen.Frame,
      (runAll (videoStep stage host (some mazeBuffer)) inputs
        (Video.init stage.setup (some backBuffer) (some frameBuffer))).2 = frames.map some := by
  have hblack := Video.agree_init stage stage.screen.black stage.screen.black stage.screen.black
    stage.screen.black
  rcases runAll_videoStep_some stage host hwidth hfont mazeBuffer inputs hblack with
    ⟨frames, hframes⟩
  refine ⟨frames, fun backBuffer frameBuffer => ?_⟩
  have hagree := Video.agree_init stage backBuffer frameBuffer stage.screen.black
    stage.screen.black
  rw [← hframes]
  refine (runAll_agree (R := Video.Agree stage) (P := fun _ _ => True)
    (fun v w input h _ => videoStep_agree stage host hwidth hfont h input fun _ _ _ => rfl)
    hagree ?_).1
  exact throughout_true inputs _

/-- The frame of a click, and the first one of the game that it starts. -/
theorem frames_drawn_click :
    let inputs := clickBelow 156 ++ [frameInput]
    ∃ frames : List gameStage.screen.Frame, ∀ backBuffer frameBuffer : gameStage.screen.Frame,
      (runAll (videoStep gameStage false (some gameStage.screen.black)) inputs
        (Video.init gameStage.setup (some backBuffer) (some frameBuffer))).2 = frames.map some :=
  frames_drawn gameStage false (by decide) (pixelFont_fits (by decide)) gameStage.screen.black _

/-- The interrupt shows a frame of a running game in which the player moves. -/
def Program.MovesHero (p : Program) : Input → Prop
  | .timer _ => p.DrawsGame ∧ p.machine.globals.player.isMoving = true
  | _ => False

instance (p : Program) (input : Input) : Decidable (p.MovesHero input) :=
  match input with
  | .timer _ => inferInstanceAs (Decidable (_ ∧ _))
  | .kbd _ _ | .mouse _ _ | .rtc _ _ | .serial _ => inferInstanceAs (Decidable False)

/-- The number of such frames of a run. -/
def movingFrames (setup : Setup) : List Input → Program → Nat
  | [], _ => 0
  | input :: inputs, p =>
      (if p.MovesHero input then 1 else 0) +
        movingFrames setup inputs (programStep setup host p input).1

/-- Such a frame is the next one of seventeen. -/
theorem videoStep_frameCounter (mazeBuffer : Memory n) {v : Video n} (h : v.frameCounter < 17)
    (input : Input) :
    (videoStep stage host mazeBuffer v input).1.frameCounter =
      (v.frameCounter + if v.program.MovesHero input then 1 else 0) % 17 := by
  have hsame := Nat.mod_eq_of_lt h
  cases input with
  | kbd status data => exact hsame.symm
  | mouse status data => exact hsame.symm
  | rtc cause read => exact hsame.symm
  | serial ports => exact hsame.symm
  | timer reads =>
      have hstep : (videoStep stage host mazeBuffer v (.timer reads)).1.frameCounter =
          if v.program.DrawsGame then
            heroFrameCounter v.program.machine.globals.player.isMoving v.frameCounter
          else v.frameCounter := rfl
      rw [hstep, heroFrameCounter]
      by_cases hmoves : v.program.MovesHero (.timer reads)
      · rw [if_pos hmoves, if_pos hmoves.1, if_pos hmoves.2]
        split_ifs <;> omega
      · rw [if_neg hmoves]
        refine Eq.trans ?_ hsame.symm
        split_ifs with hdraws hmoving
        · exact absurd ⟨hdraws, hmoving⟩ hmoves
        · exact absurd ⟨hdraws, hmoving⟩ hmoves
        · rfl
        · rfl

/-- The counter of a run that starts at any of the seventeen. -/
theorem runAll_frameCounter (mazeBuffer : Memory n) (inputs : List Input) {v : Video n}
    (h : v.frameCounter < 17) :
    (runAll (videoStep stage host mazeBuffer) inputs v).1.frameCounter =
      (v.frameCounter + movingFrames host stage.setup inputs v.program) % 17 := by
  induction inputs generalizing v with
  | nil => exact (Nat.mod_eq_of_lt h).symm
  | cons input inputs ih =>
      have hstep := videoStep_frameCounter stage host mazeBuffer h input
      have hlt : (videoStep stage host mazeBuffer v input).1.frameCounter < 17 := by
        rw [hstep]
        exact Nat.mod_lt _ (by decide)
      rw [runAll, ih hlt, hstep, videoStep_program, movingFrames, Nat.mod_add_mod, Nat.add_assoc]

/-- For every run from the start of the program, {lit}`frame_counter` is the number of frames of a
running game in which the player moves, modulo 17, so that there is always a sprite to draw. -/
theorem frameCounter_run (mazeBuffer backBuffer frameBuffer : Memory n) (inputs : List Input) :
    let last := (runAll (videoStep stage host mazeBuffer) inputs
      (Video.init stage.setup backBuffer frameBuffer)).1
    last.frameCounter = movingFrames host stage.setup inputs (.init stage.setup) % 17 ∧
      (heroSprite stage.sprites last.frameCounter).isSome := by
  have hrun := runAll_frameCounter stage host mazeBuffer inputs
    (v := Video.init stage.setup backBuffer frameBuffer) (by decide : 0 < 17)
  have hcount : (Video.init stage.setup backBuffer frameBuffer).frameCounter +
      movingFrames host stage.setup inputs (.init stage.setup) =
      movingFrames host stage.setup inputs (.init stage.setup) := Nat.zero_add _
  refine ⟨hrun.trans (congrArg (· % 17) hcount), ?_⟩
  have hlt := Nat.mod_lt (movingFrames host stage.setup inputs (.init stage.setup))
    (by decide : 17 > 0)
  rw [hrun.trans (congrArg (· % 17) hcount), heroSprite]
  split_ifs
  · rfl
  · rfl
  · rfl
  · rfl
  · omega
  · omega

end

end LCOMaze
