import LCOMaze.Controllers.RotatedSprites
import LCOMaze.Controllers.Text
import LCOMaze.Game.ElapsedTime
import LCOMaze.Game.FieldOfView
import LCOMaze.Game.MazePicture
import LCOMaze.Proj.Menu

/-!
# The pictures of the main loops

What {lit}`game_main_loop`, {lit}`menu_main_loop` and {lit}`info_main_loop` draw between
{lit}`clear` and {lit}`swap`, as a function of the variables at that time.

Main results:

- Theorem {lit}`gamePicture_drawn`: the pictures of a game, of the wait for it and of its end.
- Theorem {lit}`menuPicture_drawn`: the picture of the menu.
- Theorem {lit}`infoPicture_drawn`: the picture of the instructions.
- Theorem {lit}`gamePicture_running`: what lies on top of what while a game is running.
-/

namespace LCOMaze

open Foundations

variable {n : Nat}

/-! ## Sprites and screen -/

/-- The sprites that {lit}`xpm_load` returns. -/
structure Sprites where
  font : Font
  cursor : XpmImage
  player : XpmImage
  player3 : XpmImage
  player4 : XpmImage
  player5 : XpmImage

/-- What drawing depends on and what stays the same while the program runs: a screen whose frame
has a size of 32 bits, the sprites, and how the drawing rounds and converts. -/
structure Stage where
  setup : Setup
  bitsPerPixel : UInt8
  sprites : Sprites
  fp : Doubles
  conversion : DoubleToUInt16
  bytesPerPixel_le :
    (ModeInfo.mk setup.xResolution setup.yResolution bitsPerPixel).bytesPerPixel.toNat ≤ 4
  frame_lt : setup.xResolution.toNat * setup.yResolution.toNat *
    (ModeInfo.mk setup.xResolution setup.yResolution bitsPerPixel).bytesPerPixel.toNat < 2 ^ 32

/-- The screen that is drawn on. -/
def Stage.screen (stage : Stage) : Screen where
  xResolution := stage.setup.xResolution
  yResolution := stage.setup.yResolution
  bitsPerPixel := stage.bitsPerPixel
  bytesPerPixel_le := stage.bytesPerPixel_le
  frame_lt := stage.frame_lt

/-- {lit}`mode_info`. -/
abbrev Stage.mode (stage : Stage) : ModeInfo := stage.screen.toModeInfo

/-! ## The translated drawing -/

/-- {lit}`game_draw_hero`, as far as it changes {lit}`frame_counter`. -/
def heroFrameCounter (isMoving : Bool) (frameCounter : Nat) : Nat :=
  if isMoving then
    if frameCounter + 1 > 16 then 0 else frameCounter + 1
  else frameCounter

/-- The sprite that it draws then. -/
def heroSprite (sprites : Sprites) (frameCounter : Nat) : Option XpmImage :=
  if frameCounter ≤ 4 then some sprites.player
  else if frameCounter ≤ 8 then some sprites.player3
  else if frameCounter ≤ 12 then some sprites.player4
  else if frameCounter ≤ 16 then some sprites.player5
  else if frameCounter = 0 then some sprites.player
  else none

/-- {lit}`game_draw_hero`, once {lit}`frame_counter` is set. -/
def gameDrawHero (stage : Stage) (player : Player) (frameCounter : Nat) (memory : Memory n) :
    Memory n :=
  match heroSprite stage.sprites frameCounter with
  | some img => drawXpmAtPosAtDelta stage.fp stage.setup.lib stage.conversion stage.mode img
      (UInt16.ofInt (truncToInt player.x)) (UInt16.ofInt (truncToInt player.y)) player.delta memory
  | none => memory

/-- {lit}`game_draw_cursor` and {lit}`menu_draw_cursor`. -/
def drawCursor (stage : Stage) (player : Player) : Memory n → Memory n :=
  drawXpmAtPos stage.mode stage.sprites.cursor (UInt16.ofInt (truncToInt player.xMouse))
    (UInt16.ofInt (truncToInt player.yMouse))

/-- Calls of {lit}`draw_text`, with {lit}`int` coordinates and the colours of the sprites. -/
def drawLines (stage : Stage) (lines : List (List Char × Int × Int)) (memory : Memory n) :
    Memory n :=
  lines.foldl (fun memory (line : List Char × Int × Int) =>
    drawText stage.mode stage.sprites.font line.1 (UInt16.ofInt line.2.1) (UInt16.ofInt line.2.2)
      0xFFFFFFFF memory) memory

/-- The texts of the end of a game. -/
def finishLines (setup : Setup) (won : Bool) (seconds : Int) : List (List Char × Int × Int) :=
  let x : Int := setup.xResolution.toNat / 2 - 200
  if won then
    [("YOU WON".toList, x, 200), ("Time".toList, x, 400), (snprintfDecimal seconds, x, 500),
      ("seconds".toList, x, 600), ("Press ESC to exit".toList, x, 700)]
  else [("YOU LOST".toList, 500, 500)]

/-- What {lit}`game_main_loop` draws, after {lit}`check_time` and, in a running game,
{lit}`game_check_bound`. -/
def gamePicture (stage : Stage) (mazeBuffer : Memory n) (session : Session) (clock : Clock)
    (player : Player) (frameCounter : Nat) (memory : Memory n) : Memory n :=
  match session.gameState with
  | .waiting =>
      drawLines stage [("Waiting for Player 2".toList, stage.setup.xResolution.toNat / 2 - 300,
        stage.setup.yResolution.toNat / 2)] memory
  | .running =>
      drawCursor stage player (gameDrawHero stage player frameCounter
        (gameDrawFovCircle stage.fp stage.mode player mazeBuffer memory))
  | .finish =>
      drawLines stage (finishLines stage.setup session.won
        (calculateTime clock.timeFinal clock.timeInitial)) memory

/-- {lit}`vg_draw_rectangle_to_buffer` on {lit}`back_buffer`, with as many rounds of its loops as
the rectangle has columns and rows. -/
def drawRectangleToBackBuffer (mode : ModeInfo) (x y width height : UInt16) (color : UInt32)
    (memory : Memory n) : Memory n :=
  (vgDrawRectangleToBuffer mode x y width height color (width.toNat + height.toNat) memory).bind
    Prod.fst

/-- {lit}`draw_button`. -/
def drawButton (stage : Stage) (player : Player) (button : MenuButton) (memory : Memory n) :
    Memory n :=
  let pressed := isButtonPressed button (truncToInt player.xMouse) (truncToInt player.yMouse)
  let buttonColor : UInt32 := if pressed then 0x000000 else 0xFF0000
  let backgroundColor : UInt32 := if pressed then 0xFF0000 else 0x000000
  let memory := drawRectangleToBackBuffer stage.mode (UInt16.ofInt button.x)
    (UInt16.ofInt button.y) (UInt16.ofInt button.width) (UInt16.ofInt button.height)
    backgroundColor memory
  let padding : Int := 20
  let textWidth : Int := button.label.length * 30
  let textHeight : Int := 20
  let textX := button.x + padding + (button.width - 2 * padding).tdiv 2 - textWidth.tdiv 2
  let textY := button.y + padding + (button.height - 2 * padding).tdiv 2 - textHeight.tdiv 2
  drawText stage.mode stage.sprites.font button.label.toList (UInt16.ofInt textX)
    (UInt16.ofInt textY) (if buttonColor = 0xFF0000 then 0xFFFFFFFF else 0x000000) memory

/-- {lit}`draw_buttons`. -/
def drawButtons (stage : Stage) (player : Player) (buttons : List MenuButton)
    (memory : Memory n) : Memory n :=
  buttons.foldl (fun memory button => drawButton stage player button memory) memory

/-- What {lit}`menu_main_loop` draws. -/
def menuPicture (stage : Stage) (player : Player) (buttons : List MenuButton)
    (memory : Memory n) : Memory n :=
  drawCursor stage player (drawButtons stage player buttons
    (drawTitle stage.mode stage.sprites.font "LCOMaze".toList
      (UInt16.ofInt (stage.setup.xResolution.toNat / 2 - 200))
      (UInt16.ofInt (stage.setup.yResolution.toNat / 10)) memory))

/-- The texts of the instructions. -/
def infoLines (setup : Setup) : List (List Char × Int × Int) :=
  let center : Int := setup.xResolution.toNat / 2
  [("W - Move Forward".toList, center - 240, 250), ("A - Move Left".toList, center - 195, 315),
    ("S - Move Back".toList, center - 195, 380), ("D - Move Right".toList, center - 210, 445),
    ("Mouse Left - Aim Player".toList, center - 345, 510),
    ("ESC - Go back to the menu".toList, center - 375, 575)]

/-- What {lit}`info_main_loop` draws. -/
def infoPicture (stage : Stage) (memory : Memory n) : Memory n :=
  drawLines stage (infoLines stage.setup)
    (drawTitle stage.mode stage.sprites.font "How to Play".toList
      (UInt16.ofInt (stage.setup.xResolution.toNat / 2 - 330))
      (UInt16.ofInt (stage.setup.yResolution.toNat / 10)) memory)

/-! ## What is drawn whatever was there -/

/-- A step writes no byte outside the frame, and what it leaves on top does not depend on what was
there. -/
def Drawn (screen : Screen) (step : Memory screen.raster.size → Memory screen.raster.size) :
    Prop :=
  ∃ overlay, Draws screen step overlay

theorem Draws.drawn {screen : Screen}
    {step : Memory screen.raster.size → Memory screen.raster.size}
    {overlay : screen.raster.Pixel → Option (Fin screen.raster.depth → UInt8)}
    (h : Draws screen step overlay) : Drawn screen step := ⟨overlay, h⟩

/-- One drawing over another. -/
theorem Drawn.comp {screen : Screen}
    {step step' : Memory screen.raster.size → Memory screen.raster.size}
    (h' : Drawn screen step') (h : Drawn screen step) :
    Drawn screen fun memory => step' (step memory) := by
  rcases h with ⟨overlay, h⟩
  rcases h' with ⟨overlay', h'⟩
  exact (h'.comp h).drawn

/-- A series of drawings. -/
theorem Drawn.foldl {α : Type} {screen : Screen}
    {step : α → Memory screen.raster.size → Memory screen.raster.size} {l : List α}
    (h : ∀ a ∈ l, Drawn screen (step a)) :
    Drawn screen fun memory => l.foldl (fun memory a => step a memory) memory := by
  induction l with
  | nil => exact Draws.id.drawn
  | cons a l ih =>
      rw [List.forall_mem_cons] at h
      exact (ih h.2).comp h.1

section

variable (stage : Stage)

/-- A text with the factor and the colour of {lit}`draw_text`. -/
theorem drawText_drawn (hfont : FontFits stage.sprites.font 4) {text : List Char}
    (htext : Writable text) (x y : UInt16) (color : UInt32) :
    Drawn stage.screen (drawText stage.mode stage.sprites.font text x y color) := by
  have hfits : FontFits stage.sprites.font 2 := by
    intro glyph
    rcases hfont glyph with ⟨hwidth, hheight⟩
    have htwo : (2 : UInt16).toNat = 2 := rfl
    have hfour : (4 : UInt16).toNat = 4 := rfl
    rw [hfour] at hwidth hheight
    rw [htwo]
    omega
  exact (drawLetters_draws stage.screen 10 20 color x y (by decide) hfits htext).drawn

/-- A title. -/
theorem drawTitle_drawn (hfont : FontFits stage.sprites.font 4) {text : List Char}
    (htext : Writable text) (x y : UInt16) :
    Drawn stage.screen (drawTitle stage.mode stage.sprites.font text x y) :=
  (drawLetters_draws stage.screen 20 40 0xFFFFFFFF x y (by decide) hfont htext).drawn

/-- Several texts. -/
theorem drawLines_drawn (hfont : FontFits stage.sprites.font 4)
    {lines : List (List Char × Int × Int)} (hlines : ∀ line ∈ lines, Writable line.1) :
    Drawn stage.screen (drawLines stage lines) :=
  Drawn.foldl fun line hline => drawText_drawn stage hfont (hlines line hline) _ _ _

/-- The player, at any position and any angle. -/
theorem gameDrawHero_drawn (player : Player) (frameCounter : Nat) :
    Drawn stage.screen (gameDrawHero stage player frameCounter) := by
  unfold gameDrawHero
  cases heroSprite stage.sprites frameCounter with
  | some img =>
      exact (drawXpmAtPosAtDelta_paints stage.fp stage.setup.lib stage.conversion stage.screen img
        _ _ player.delta).draws.drawn
  | none => exact Draws.id.drawn

/-- The cursor, at any position. -/
theorem drawCursor_drawn (player : Player) : Drawn stage.screen (drawCursor stage player) :=
  (drawXpmAtPos_draws stage.screen stage.sprites.cursor _ _).drawn

/-- Every text of the end of a game can be drawn, also the time. -/
theorem writable_finishLines (setup : Setup) (won : Bool) (seconds : Int) :
    ∀ line ∈ finishLines setup won seconds, Writable line.1 := by
  unfold finishLines
  cases won with
  | true =>
      simp only [if_true, List.forall_mem_cons]
      exact ⟨by decide, by decide, writable_snprintfDecimal seconds, by decide, by decide,
        List.forall_mem_nil _⟩
  | false =>
      simp only [Bool.false_eq_true, if_false, List.forall_mem_cons]
      exact ⟨by decide, List.forall_mem_nil _⟩

/-- The pictures of a game are drawn in every state, whatever the time and the position. -/
theorem gamePicture_drawn (hfont : FontFits stage.sprites.font 4)
    (mazeBuffer : stage.screen.Frame) (session : Session) (clock : Clock) (player : Player)
    (frameCounter : Nat) :
    Drawn stage.screen
      (gamePicture stage (some mazeBuffer) session clock player frameCounter) := by
  unfold gamePicture
  cases session.gameState with
  | waiting =>
      refine drawLines_drawn stage hfont fun line hline => ?_
      have hwait : Writable "Waiting for Player 2".toList := by decide
      rw [List.mem_singleton.mp hline]
      exact hwait
  | running =>
      exact (drawCursor_drawn stage player).comp ((gameDrawHero_drawn stage player _).comp
        (gameDrawFovCircle_draws stage.fp stage.screen player mazeBuffer).drawn)
  | finish => exact drawLines_drawn stage hfont (writable_finishLines _ _ _)

/-- The picture of the instructions is drawn. -/
theorem infoPicture_drawn (hfont : FontFits stage.sprites.font 4) :
    Drawn stage.screen (infoPicture stage) := by
  refine (drawLines_drawn stage hfont ?_).comp (drawTitle_drawn stage hfont (by decide) _ _)
  unfold infoLines
  simp only [List.forall_mem_cons]
  exact ⟨by decide, by decide, by decide, by decide, by decide, by decide, List.forall_mem_nil _⟩

/-- A rectangle whose edges are within 16 bits. -/
theorem drawRectangleToBackBuffer_draws {x y width height : UInt16}
    (hx : x.toNat + width.toNat ≤ 65535) (hy : y.toNat + height.toNat ≤ 65535) (color : UInt32) :
    Drawn stage.screen
      (drawRectangleToBackBuffer stage.mode x y width height color) := by
  have hpaints : Paints stage.screen
      (drawRectangleToBackBuffer stage.mode x y width height color)
      [(painted stage.screen.raster x.toNat y.toNat width.toNat height.toNat,
        stage.screen.color color)] := by
    intro frame
    rw [drawRectangleToBackBuffer,
      vgDrawRectangleToBuffer_screen stage.screen hx hy color (Nat.le_refl _) frame]
    rfl
  exact hpaints.draws.drawn

/-- A button in a fifth of a screen with room for it is drawn, highlighted or not. -/
theorem drawButton_drawn (hwidth : 400 ≤ stage.setup.xResolution.toNat)
    (hfont : FontFits stage.sprites.font 4) (player : Player) {k : Nat} (hk : k ≤ 4)
    {label : String} (hlabel : Writable label.toList) (onClick : Button) :
    Drawn stage.screen (drawButton stage player (menuButton stage.setup k label onClick)) := by
  have hx := stage.setup.xResolution.toNat_lt
  have hy := stage.setup.yResolution.toNat_lt
  have hrows : stage.setup.yResolution.toNat * k ≤ 65535 * 4 := Nat.mul_le_mul (by omega) hk
  have hleft : (UInt16.ofInt (menuButton stage.setup k label onClick).x).toNat =
      ((stage.setup.xResolution.toNat : Int) / 2 - 200).toNat :=
    toNat_ofInt (z := (stage.setup.xResolution.toNat : Int) / 2 - 200) (by omega) (by omega)
  have htop : (UInt16.ofInt (menuButton stage.setup k label onClick).y).toNat =
      ((stage.setup.yResolution.toNat : Int) * k / 5 + 100).toNat :=
    toNat_ofInt (z := (stage.setup.yResolution.toNat : Int) * k / 5 + 100) (by omega) (by omega)
  refine (drawText_drawn stage hfont hlabel _ _ _).comp
    (drawRectangleToBackBuffer_draws stage ?_ ?_ _)
  · have hcolumns : (UInt16.ofInt (menuButton stage.setup k label onClick).width).toNat = 400 := rfl
    rw [hleft, hcolumns]
    omega
  · have hlines : (UInt16.ofInt (menuButton stage.setup k label onClick).height).toNat = 50 := rfl
    rw [htop, hlines]
    omega

/-- Every button of the menu has a label that can be drawn. -/
theorem mem_mainButtons {setup : Setup} {button : MenuButton}
    (h : button ∈ mainButtons setup) :
    ∃ k ≤ 4, ∃ label onClick, Writable label.toList ∧
      button = menuButton setup k label onClick := by
  simp only [mainButtons, List.mem_cons, List.not_mem_nil, or_false] at h
  rcases h with rfl | rfl | rfl | rfl
  · exact ⟨1, by decide, _, _, by decide, rfl⟩
  · exact ⟨2, by decide, _, _, by decide, rfl⟩
  · exact ⟨3, by decide, _, _, by decide, rfl⟩
  · exact ⟨4, by decide, _, _, by decide, rfl⟩

/-- The picture of the menu is drawn, wherever the cursor is. -/
theorem menuPicture_drawn (hwidth : 400 ≤ stage.setup.xResolution.toNat)
    (hfont : FontFits stage.sprites.font 4) (player : Player) :
    Drawn stage.screen (menuPicture stage player (mainButtons stage.setup)) := by
  refine (drawCursor_drawn stage player).comp (Drawn.comp (Drawn.foldl fun button hbutton => ?_)
    (drawTitle_drawn stage hfont (by decide) _ _))
  rcases mem_mainButtons hbutton with ⟨k, hk, label, onClick, hlabel, rfl⟩
  exact drawButton_drawn stage hwidth hfont player hk hlabel onClick

/-- While a game is running, the cursor lies over the player, the player over the maze in view, and
all else is left as it was.  Of the player every pixel shows the last sample drawn there. -/
theorem gamePicture_running (mazeBuffer : stage.screen.Frame) {session : Session} (clock : Clock)
    (player : Player) {frameCounter : Nat} {img : XpmImage}
    (hrunning : session.gameState = .running)
    (himg : heroSprite stage.sprites frameCounter = some img) :
    Draws stage.screen (gamePicture stage (some mazeBuffer) session clock player frameCounter)
      fun p =>
        (spriteOverlay stage.screen stage.sprites.cursor
          (UInt16.ofInt (truncToInt player.xMouse)) (UInt16.ofInt (truncToInt player.yMouse)) p).or
        ((Raster.overlay (rotatedStrokes stage.fp stage.setup.lib stage.conversion stage.screen img
          (UInt16.ofInt (truncToInt player.x)) (UInt16.ofInt (truncToInt player.y))
          player.delta) p).or
        (fovOverlay stage.fp stage.screen player mazeBuffer p)) := by
  have hhero : gameDrawHero stage player frameCounter =
      drawXpmAtPosAtDelta (n := stage.screen.raster.size) stage.fp stage.setup.lib
        stage.conversion stage.mode img (UInt16.ofInt (truncToInt player.x))
        (UInt16.ofInt (truncToInt player.y)) player.delta := by
    funext memory
    rw [gameDrawHero, himg]
  unfold gamePicture
  rw [hrunning, hhero]
  exact (drawXpmAtPos_draws stage.screen stage.sprites.cursor _ _).comp
    ((drawXpmAtPosAtDelta_paints stage.fp stage.setup.lib stage.conversion stage.screen img _ _
      player.delta).draws.comp (gameDrawFovCircle_draws stage.fp stage.screen player mazeBuffer))

end

/-- The screen of the game with small sprites. -/
def gameStage : Stage where
  setup := gameSetup
  bitsPerPixel := 32
  sprites := ⟨pixelFont, twoPixels, twoPixels, twoPixels, twoPixels, twoPixels⟩
  fp := binary64
  conversion := .wrapping
  bytesPerPixel_le := by decide
  frame_lt := by decide

/-- The player at the start of a game, with the cursor in the corner. -/
theorem gamePicture_running_start :
    let player := (Machine.init gameSetup).globals.player
    Draws gameStage.screen
      (gamePicture gameStage (some fun _ => 0) ⟨.game, false, .running, false⟩
        (Machine.init gameSetup).globals.clock player 0)
      fun p =>
        (spriteOverlay gameStage.screen twoPixels (UInt16.ofInt (truncToInt player.xMouse))
          (UInt16.ofInt (truncToInt player.yMouse)) p).or
        ((Raster.overlay (rotatedStrokes binary64 .headingZero .wrapping gameStage.screen twoPixels
          (UInt16.ofInt (truncToInt player.x)) (UInt16.ofInt (truncToInt player.y))
          player.delta) p).or
        (fovOverlay binary64 gameStage.screen player (fun _ => 0) p)) :=
  gamePicture_running gameStage (fun _ => 0) _ _ rfl rfl

end LCOMaze
