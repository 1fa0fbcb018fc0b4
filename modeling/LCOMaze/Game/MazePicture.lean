import LCOMaze.Controllers.Graphics
import LCOMaze.Game.DrawMaze

/-!
# The picture of the maze

{lit}`draw_maze` paints its rectangles one after the other, so a marker covers the walls and the
marker of the goal covers that of the start.  Every rectangle of the maze is on the screen or
begins off it, so none is cut at the bottom edge.

Main results:

- Theorem {lit}`drawRectangle_screen`: such a rectangle is painted as far as the screen goes.
- Theorem {lit}`paintMaze_paints`: {lit}`draw_maze` paints the rectangles in their order.
- Theorem {lit}`paintMaze_exact`: the colour of every pixel after {lit}`draw_maze`.
-/

namespace LCOMaze

open Foundations

variable {n W H : Nat}

/-! ## The translated painting -/

/-- One call of {lit}`vg_draw_rectangle_to_buffer` on {lit}`maze_buffer`, whose result is
ignored. -/
def drawRectangle (mode : ModeInfo) (fuel : Nat) (memory : Memory n) (rectangle : Rectangle) :
    Option (Memory n) :=
  (vgDrawRectangleToBuffer mode (UInt16.ofInt rectangle.x) (UInt16.ofInt rectangle.y)
    (UInt16.ofInt rectangle.width) (UInt16.ofInt rectangle.height) rectangle.color fuel
    memory).map Prod.fst

/-- {lit}`draw_maze`: the calls in their order. -/
def paintMaze (mode : ModeInfo) (maze : Maze W H) (fuel : Nat) (memory : Memory n) :
    Option (Memory n) :=
  (drawMaze maze).foldlM (drawRectangle mode fuel) memory

/-- A screen with room for a cell. -/
structure MazeScreen extends Screen where
  width_ge : 100 ≤ xResolution.toNat
  height_ge : 100 ≤ yResolution.toNat

namespace MazeScreen

/-- {lit}`mode_info.XResolution / cell_size`. -/
def columns (screen : MazeScreen) : Nat := screen.xResolution.toNat / 100

/-- {lit}`mode_info.YResolution / cell_size`. -/
def rows (screen : MazeScreen) : Nat := screen.yResolution.toNat / 100

instance (screen : MazeScreen) : NeZero screen.columns :=
  ⟨(Nat.div_pos screen.width_ge (by decide)).ne'⟩

instance (screen : MazeScreen) : NeZero screen.rows :=
  ⟨(Nat.div_pos screen.height_ge (by decide)).ne'⟩

end MazeScreen

/-! ## The strokes -/

/-- A rectangle whose edges are within 16 bits and that does not cross the bottom edge, up to one
of a single column. -/
def Rectangle.Fits (rectangle : Rectangle) (screen : Screen) : Prop :=
  0 ≤ rectangle.x ∧ 0 ≤ rectangle.y ∧ 0 ≤ rectangle.width ∧ 0 ≤ rectangle.height ∧
    rectangle.x + rectangle.width ≤ 65535 ∧ rectangle.y + rectangle.height ≤ 65535 ∧
    (rectangle.width ≤ 1 ∨
      rectangle.y + rectangle.height ≤ screen.yResolution.toNat ∨
      screen.yResolution.toNat ≤ rectangle.y)

/-- The pixels of a rectangle and its colour. -/
def Rectangle.stroke (rectangle : Rectangle) (screen : Screen) :
    Set screen.raster.Pixel × (Fin screen.raster.depth → UInt8) :=
  (pixelsOf screen.raster rectangle.x.toNat rectangle.y.toNat rectangle.width.toNat
    rectangle.height.toNat, screen.color rectangle.color)

/-- A coordinate within 16 bits is not changed by the conversion. -/
theorem toNat_ofInt {z : Int} (h : 0 ≤ z) (hz : z ≤ 65535) :
    (UInt16.ofInt z).toNat = z.toNat := by
  rw [UInt16.ofInt, UInt16.toNat_ofNat']
  omega

/-- A rectangle that fits is painted as far as the screen goes. -/
theorem drawRectangle_screen (screen : Screen) {rectangle : Rectangle}
    (h : rectangle.Fits screen) {fuel : Nat}
    (hfuel : (rectangle.width + rectangle.height).toNat ≤ fuel) (frame : screen.Frame) :
    drawRectangle screen.toModeInfo fuel (some frame) rectangle =
      some (some (Raster.fill frame (rectangle.stroke screen).1 (rectangle.stroke screen).2)) := by
  rcases h with ⟨hx, hy, hwidth, hheight, hright, hbottom, hfits⟩
  have hpainted : painted screen.raster rectangle.x.toNat rectangle.y.toNat
      rectangle.width.toNat rectangle.height.toNat =
      pixelsOf screen.raster rectangle.x.toNat rectangle.y.toNat rectangle.width.toNat
        rectangle.height.toNat := by
    have hscreen : screen.raster.height = screen.yResolution.toNat := rfl
    ext p
    have hrow := p.2.isLt
    simp only [painted, pixelsOf, Set.mem_ofPred_eq]
    omega
  have hx' := toNat_ofInt hx (by omega)
  have hy' := toNat_ofInt hy (by omega)
  have hwidth' := toNat_ofInt hwidth (by omega)
  have hheight' := toNat_ofInt hheight (by omega)
  rw [drawRectangle, vgDrawRectangleToBuffer_screen screen (by omega) (by omega) _ (by omega),
    hx', hy', hwidth', hheight', hpainted]
  rfl

/-- Rectangles that fit are painted in their order. -/
theorem foldlM_drawRectangle (screen : Screen) {rectangles : List Rectangle}
    (h : ∀ rectangle ∈ rectangles, rectangle.Fits screen) {fuel : Nat}
    (hfuel : ∀ rectangle ∈ rectangles, (rectangle.width + rectangle.height).toNat ≤ fuel)
    (frame : screen.Frame) :
    rectangles.foldlM (drawRectangle screen.toModeInfo fuel) (some frame) =
      some (some (Raster.paint frame (rectangles.map fun rectangle =>
        rectangle.stroke screen))) := by
  induction rectangles generalizing frame with
  | nil => rfl
  | cons rectangle rectangles ih =>
      rw [List.forall_mem_cons] at h hfuel
      rw [List.foldlM_cons, drawRectangle_screen screen h.1 hfuel.1]
      exact ih h.2 hfuel.2 _

/-! ## The picture -/

/-- The pixels of a side of a cell. -/
def sidePixels (r : Raster) (cell : CellPtr W H) : Side → Set r.Pixel
  | .top => {p | p.2.val = 100 * cell.y ∧ 100 * cell.x ≤ p.1.val ∧ p.1.val < 100 * (cell.x + 1)}
  | .bottom =>
      {p | p.2.val = 100 * (cell.y + 1) ∧ 100 * cell.x ≤ p.1.val ∧ p.1.val < 100 * (cell.x + 1)}
  | .left => {p | p.1.val = 100 * cell.x ∧ 100 * cell.y ≤ p.2.val ∧ p.2.val < 100 * (cell.y + 1)}
  | .right =>
      {p | p.1.val = 100 * (cell.x + 1) ∧ 100 * cell.y ≤ p.2.val ∧ p.2.val < 100 * (cell.y + 1)}

/-- The pixels of the sides that have their walls. -/
def wallPixels (r : Raster) (cells : Cells W H) : Set r.Pixel :=
  {p | ∃ cell side, (cells cell).wall side = true ∧ p ∈ sidePixels r cell side}

/-- The pixels of the marker in the cell of column {lit}`j` and row {lit}`i`. -/
def markerPixels (r : Raster) (j i : Nat) : Set r.Pixel :=
  {p | 100 * j + 7 ≤ p.1.val ∧ p.1.val < 100 * j + 93 ∧ 100 * i + 7 ≤ p.2.val ∧
    p.2.val < 100 * i + 93}

/-- After {lit}`frame`, {lit}`frame'` shows the maze: the marker of the goal is green, the rest of
that of the start blue, the rest of the walls white, and all else as it was. -/
structure ShowsMaze (screen : Screen) (cells : Cells W H) (frame frame' : screen.Frame) :
    Prop where
  green : ∀ p ∈ markerPixels screen.raster (W - 1) (H - 1),
    Raster.pixel frame' p = screen.color 0x00FF00
  blue : ∀ p ∉ markerPixels screen.raster (W - 1) (H - 1), p ∈ markerPixels screen.raster 0 0 →
    Raster.pixel frame' p = screen.color 0x0000FF
  white : ∀ p ∉ markerPixels screen.raster (W - 1) (H - 1), p ∉ markerPixels screen.raster 0 0 →
    p ∈ wallPixels screen.raster cells → Raster.pixel frame' p = screen.color 0xFFFFFF
  unchanged : ∀ p ∉ markerPixels screen.raster (W - 1) (H - 1),
    p ∉ markerPixels screen.raster 0 0 → p ∉ wallPixels screen.raster cells →
      Raster.pixel frame' p = Raster.pixel frame p

/-- The rectangle of a side. -/
theorem stroke_wallRectangle (screen : Screen) (cells : Cells W H) (cell : CellPtr W H)
    (side : Side) :
    (wallRectangle ⟨100, cells⟩ cell side).stroke screen =
      (sidePixels screen.raster cell side, screen.color 0xFFFFFF) := by
  refine Prod.ext (Set.ext fun p => ?_) ?_
  · cases side <;>
      simp only [Rectangle.stroke, wallRectangle, pixelsOf, sidePixels, Set.mem_ofPred_eq] <;>
      omega
  · cases side <;> rfl

/-- The rectangle of the start. -/
theorem stroke_startRectangle (screen : Screen) (cells : Cells W H) :
    (startRectangle ⟨100, cells⟩).stroke screen =
      (markerPixels screen.raster 0 0, screen.color 0x0000FF) := by
  refine Prod.ext (Set.ext fun p => ?_) rfl
  simp only [Rectangle.stroke, startRectangle, pixelsOf, markerPixels, Set.mem_ofPred_eq]
  omega

/-- The rectangle of the goal. -/
theorem stroke_goalRectangle [NeZero W] [NeZero H] (screen : Screen) (cells : Cells W H) :
    (goalRectangle ⟨100, cells⟩).stroke screen =
      (markerPixels screen.raster (W - 1) (H - 1), screen.color 0x00FF00) := by
  have hW := Nat.pos_of_neZero W
  have hH := Nat.pos_of_neZero H
  refine Prod.ext (Set.ext fun p => ?_) rfl
  simp only [Rectangle.stroke, goalRectangle, pixelsOf, markerPixels, Set.mem_ofPred_eq]
  omega

/-- The rectangles of the maze fit, and none has more than two hundred rows and columns. -/
theorem drawMaze_fits (screen : MazeScreen) (cells : Cells screen.columns screen.rows) :
    ∀ rectangle ∈ drawMaze ⟨100, cells⟩, rectangle.Fits screen.toScreen ∧
      (rectangle.width + rectangle.height).toNat ≤ 200 := by
  intro rectangle hmem
  have hwidth := screen.xResolution.toNat_lt
  have hheight := screen.yResolution.toNat_lt
  have hcolumns : 100 * screen.columns ≤ screen.xResolution.toNat := Nat.mul_div_le _ _
  have hrows : 100 * screen.rows ≤ screen.yResolution.toNat := Nat.mul_div_le _ _
  have hW := Nat.pos_of_neZero screen.columns
  have hH := Nat.pos_of_neZero screen.rows
  rcases mem_drawMaze_iff.mp hmem with ⟨cell, side, -, rfl⟩ | rfl | rfl
  · have hx := cell.x.isLt
    have hy := cell.y.isLt
    cases side <;> simp only [Rectangle.Fits, wallRectangle] <;> omega
  · simp only [Rectangle.Fits, startRectangle]
    omega
  · simp only [Rectangle.Fits, goalRectangle]
    omega

/-- {lit}`draw_maze` paints its rectangles in their order and writes no byte outside the frame. -/
theorem paintMaze_paints (screen : MazeScreen) (cells : Cells screen.columns screen.rows)
    (frame : screen.Frame) :
    Returns (fun fuel => paintMaze screen.toModeInfo ⟨100, cells⟩ fuel (some frame))
      (some (Raster.paint frame ((drawMaze ⟨100, cells⟩).map fun rectangle =>
        rectangle.stroke screen.toScreen))) :=
  ⟨200, fun _ hfuel => foldlM_drawRectangle screen.toScreen
    (fun rectangle hmem => (drawMaze_fits screen cells rectangle hmem).1)
    (fun rectangle hmem => (drawMaze_fits screen cells rectangle hmem).2.trans hfuel) frame⟩

/-- The picture: first the walls, then the two markers. -/
theorem paint_drawMaze [NeZero W] [NeZero H] (screen : Screen) (cells : Cells W H)
    (frame : screen.Frame) :
    Raster.paint frame ((drawMaze ⟨100, cells⟩).map fun rectangle => rectangle.stroke screen) =
      Raster.fill (Raster.fill
        (Raster.paint frame (((rowMajor W H).flatMap (drawWalls ⟨100, cells⟩)).map
          fun rectangle => rectangle.stroke screen))
        (markerPixels screen.raster 0 0) (screen.color 0x0000FF))
        (markerPixels screen.raster (W - 1) (H - 1)) (screen.color 0x00FF00) := by
  rw [drawMaze, List.map_append, Raster.paint_append, List.map_cons, List.map_singleton,
    stroke_startRectangle, stroke_goalRectangle]
  rfl

/-- A wall is painted white. -/
theorem pixel_walls_of_mem (screen : Screen) {cells : Cells W H} (frame : screen.Frame)
    {p : screen.raster.Pixel} (hp : p ∈ wallPixels screen.raster cells) :
    Raster.pixel (Raster.paint frame (((rowMajor W H).flatMap (drawWalls ⟨100, cells⟩)).map
      fun rectangle => rectangle.stroke screen)) p = screen.color 0xFFFFFF := by
  apply Raster.pixel_paint_of_mem
  · rcases hp with ⟨cell, side, hwall, hp⟩
    refine ⟨_, List.mem_map.mpr ⟨_, mem_walls_iff.mpr ⟨cell, side, hwall, rfl⟩, rfl⟩, ?_⟩
    rw [stroke_wallRectangle]
    exact hp
  · intro stroke hstroke _
    rcases List.mem_map.mp hstroke with ⟨rectangle, hmem, rfl⟩
    rcases mem_walls_iff.mp hmem with ⟨cell, side, -, rfl⟩
    rw [stroke_wallRectangle]

/-- What is on no wall is not painted with them. -/
theorem pixel_walls_of_not_mem (screen : Screen) {cells : Cells W H} (frame : screen.Frame)
    {p : screen.raster.Pixel} (hp : p ∉ wallPixels screen.raster cells) :
    Raster.pixel (Raster.paint frame (((rowMajor W H).flatMap (drawWalls ⟨100, cells⟩)).map
      fun rectangle => rectangle.stroke screen)) p = Raster.pixel frame p := by
  apply Raster.pixel_paint_of_not_mem
  intro stroke hstroke hin
  rcases List.mem_map.mp hstroke with ⟨rectangle, hmem, rfl⟩
  rcases mem_walls_iff.mp hmem with ⟨cell, side, hwall, rfl⟩
  rw [stroke_wallRectangle] at hin
  exact hp ⟨cell, side, hwall, hin⟩

/-- The picture shows the maze. -/
theorem showsMaze_paint [NeZero W] [NeZero H] (screen : Screen) (cells : Cells W H)
    (frame : screen.Frame) :
    ShowsMaze screen cells frame (Raster.paint frame
      ((drawMaze ⟨100, cells⟩).map fun rectangle => rectangle.stroke screen)) := by
  rw [paint_drawMaze]
  constructor
  · intro p hgoal
    exact Raster.pixel_fill_of_mem hgoal
  · intro p hgoal hstart
    rw [Raster.pixel_fill_of_not_mem hgoal, Raster.pixel_fill_of_mem hstart]
  · intro p hgoal hstart hwall
    rw [Raster.pixel_fill_of_not_mem hgoal, Raster.pixel_fill_of_not_mem hstart,
      pixel_walls_of_mem screen frame hwall]
  · intro p hgoal hstart hwall
    rw [Raster.pixel_fill_of_not_mem hgoal, Raster.pixel_fill_of_not_mem hstart,
      pixel_walls_of_not_mem screen frame hwall]

/-- For every screen with room for a cell, every maze of as many cells as fit, whatever its wall
flags, and every previous contents of {lit}`maze_buffer`, {lit}`draw_maze` returns, has written no
byte outside the frame and has painted the maze and nothing else. -/
theorem paintMaze_exact (screen : MazeScreen) (cells : Cells screen.columns screen.rows)
    (frame : screen.Frame) :
    ∃ frame' : screen.Frame,
      Returns (fun fuel => paintMaze screen.toModeInfo ⟨100, cells⟩ fuel (some frame))
        (some frame') ∧
      ShowsMaze screen.toScreen cells frame frame' :=
  ⟨_, paintMaze_paints screen cells frame, showsMaze_paint screen.toScreen cells frame⟩

end LCOMaze
