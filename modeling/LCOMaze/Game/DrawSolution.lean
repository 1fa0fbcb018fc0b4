import LCOMaze.Game.MazePicture
import LCOMaze.Game.SolverTermination

/-!
# The picture of the solution

{lit}`draw_solution` starts at the first cell of the list that {lit}`get_solution` returns and then
follows {lit}`prev`, not the list.  It paints every cell on the way that has a predecessor.

Main results:

- Theorem {lit}`solutionRectangles_of_path`: the walk over {lit}`prev` ends, and what it draws.
- Theorem {lit}`drawSolution_exact`: after {lit}`get_solution`, the cells of the solution but the
  start are painted, and nothing else.
-/

namespace LCOMaze

open Foundations

variable {n W H : Nat}

/-! ## The translated drawing -/

/-- The marker of a cell of the solution. -/
def solutionRectangle (maze : Maze W H) (cell : CellPtr W H) : Rectangle :=
  ⟨cell.x * maze.cellSize + 7, cell.y * maze.cellSize + 7, maze.cellSize - 14, maze.cellSize - 14,
    0xFF0000⟩

/-- The loop of {lit}`draw_solution`: the rectangles in the order of the calls. -/
def solutionRectangles (maze : Maze W H) :
    Nat → Option (CellPtr W H) → Option (List Rectangle)
  | _, none => some []
  | 0, some _ => none
  | fuel + 1, some currentCell =>
      (solutionRectangles maze fuel (maze.cells currentCell).prev).map fun rest =>
        if (maze.cells currentCell).prev ≠ none then solutionRectangle maze currentCell :: rest
        else rest

/-- {lit}`draw_solution` on {lit}`maze_buffer`. -/
def drawSolution (mode : ModeInfo) (maze : Maze W H) (heap : NodeHeap (CellPtr W H))
    (solution : LinkedList) (fuel : Nat) (memory : Memory n) : Option (Memory n) :=
  (linkedListFirst heap solution).bind fun first =>
    (solutionRectangles maze fuel first).bind fun rectangles =>
      rectangles.foldlM (drawRectangle mode fuel) memory

/-! ## What is drawn -/

/-- The walk ends at the cell without a predecessor, which alone is not drawn. -/
theorem solutionRectangles_of_path {maze : Maze W H} {cell : CellPtr W H}
    {path : List (CellPtr W H)}
    (hpath : PrevPath (fun p => (maze.cells p).prev) cell path) {fuel : Nat}
    (hfuel : path.length ≤ fuel) :
    solutionRectangles maze fuel (some cell) =
      some (path.dropLast.map (solutionRectangle maze)) := by
  induction hpath generalizing fuel with
  | @root a hprev =>
      cases fuel with
      | zero => simp at hfuel
      | succ fuel =>
          rw [solutionRectangles, hprev]
          cases fuel <;> rfl
  | @step a b path hprev hrest ih =>
      cases fuel with
      | zero => simp at hfuel
      | succ fuel =>
          have hne : path ≠ [] := by
            cases hrest with
            | root _ => exact List.cons_ne_nil _ _
            | step _ _ => exact List.cons_ne_nil _ _
          rw [solutionRectangles, hprev, ih (by simpa using hfuel), Option.map_some,
            if_pos (Option.some_ne_none b), List.dropLast_cons_of_ne_nil hne]
          rfl

/-- The pixels of the markers of some cells. -/
def solutionPixels (r : Raster) (path : List (CellPtr W H)) : Set r.Pixel :=
  {p | ∃ cell ∈ path, p ∈ markerPixels r cell.x cell.y}

/-- The rectangle of a marker fits. -/
theorem solutionRectangle_fits (screen : MazeScreen) (cells : Cells screen.columns screen.rows)
    (cell : CellPtr screen.columns screen.rows) :
    (solutionRectangle ⟨100, cells⟩ cell).Fits screen.toScreen ∧
      ((solutionRectangle ⟨100, cells⟩ cell).width +
        (solutionRectangle ⟨100, cells⟩ cell).height).toNat ≤ 200 := by
  have hwidth := screen.xResolution.toNat_lt
  have hheight := screen.yResolution.toNat_lt
  have hcolumns : 100 * screen.columns ≤ screen.xResolution.toNat := Nat.mul_div_le _ _
  have hrows : 100 * screen.rows ≤ screen.yResolution.toNat := Nat.mul_div_le _ _
  have hx := cell.x.isLt
  have hy := cell.y.isLt
  simp only [Rectangle.Fits, solutionRectangle]
  omega

/-- Its pixels. -/
theorem stroke_solutionRectangle (screen : Screen) (cells : Cells W H) (cell : CellPtr W H) :
    (solutionRectangle ⟨100, cells⟩ cell).stroke screen =
      (markerPixels screen.raster cell.x cell.y, screen.color 0xFF0000) := by
  refine Prod.ext (Set.ext fun p => ?_) rfl
  simp only [Rectangle.stroke, solutionRectangle, pixelsOf, markerPixels, Set.mem_ofPred_eq]
  omega

/-- Markers of one colour painted one after the other. -/
theorem paint_solutionRectangles (screen : Screen) (cells : Cells W H)
    (path : List (CellPtr W H)) (frame : screen.Frame) :
    Raster.paint frame ((path.map (solutionRectangle ⟨100, cells⟩)).map fun rectangle =>
        rectangle.stroke screen) =
      Raster.fill frame (solutionPixels screen.raster path) (screen.color 0xFF0000) := by
  have hmem : ∀ stroke, stroke ∈ ((path.map (solutionRectangle ⟨100, cells⟩)).map fun rectangle =>
      rectangle.stroke screen) ↔ ∃ cell ∈ path,
        stroke = (markerPixels screen.raster cell.x cell.y, screen.color 0xFF0000) := by
    intro stroke
    simp only [List.map_map, List.mem_map, Function.comp_apply, stroke_solutionRectangle,
      eq_comm (b := stroke)]
  refine Raster.ext_pixel fun p => ?_
  by_cases hp : p ∈ solutionPixels screen.raster path
  · rw [Raster.pixel_fill_of_mem hp]
    rcases hp with ⟨cell, hcell, hp⟩
    apply Raster.pixel_paint_of_mem
    · exact ⟨_, (hmem _).mpr ⟨cell, hcell, rfl⟩, hp⟩
    · intro stroke hstroke _
      rcases (hmem stroke).mp hstroke with ⟨other, -, rfl⟩
      rfl
  · rw [Raster.pixel_fill_of_not_mem hp]
    apply Raster.pixel_paint_of_not_mem
    intro stroke hstroke hin
    rcases (hmem stroke).mp hstroke with ⟨other, hother, rfl⟩
    exact hp ⟨other, hother, hin⟩

/-- A list holds one sequence of cells only. -/
theorem HoldsCells.unique {heap : NodeHeap (CellPtr W H)} {list : LinkedList}
    {path path' : List (CellPtr W H)} (h : HoldsCells heap list path)
    (h' : HoldsCells heap list path') : path = path' := by
  rcases h with ⟨entries, hlist, -, rfl⟩
  rcases h' with ⟨entries', hlist', -, rfl⟩
  rw [hlist.chain.unique hlist'.chain]

/-- For every screen with room for a cell, every maze of as many cells as fit, whatever its wall
flags, and every picture in {lit}`maze_buffer`: {lit}`get_solution` returns a list, and
{lit}`draw_solution` then returns, writes no byte outside the picture, paints the marker of every
cell of the list but the last one red, and changes nothing else.  If the far corner can be
reached, the list is a shortest path to the start. -/
theorem drawSolution_exact (screen : MazeScreen) (cells : Cells screen.columns screen.rows)
    (frame : screen.Frame) :
    ∃ s solution path, getSolution ⟨100, cells⟩ = some s ∧ s.solution = some solution ∧
      HoldsCells s.heap solution path ∧
      Returns (fun fuel => drawSolution screen.toModeInfo ⟨100, s.cells⟩ s.heap solution fuel
          (some frame))
        (some (Raster.fill frame (solutionPixels screen.raster path.dropLast)
          (screen.color 0xFF0000))) ∧
      (Solvable cells → IsSolution cells path) := by
  rcases exists_solverRun ⟨100, cells⟩ with ⟨extracted, s, hrun, hstop, hsolver⟩
  rcases hrun.record.walkWritten hstop with ⟨solution, path, hsolution, hpath, hnodup, hholds⟩
  refine ⟨s, solution, path, hsolver, hsolution, hholds, ⟨path.length + 200, fun fuel hfuel => ?_⟩,
    fun hsolvable => ?_⟩
  · have hfirst : linkedListFirst s.heap solution = some (some CellPtr.goal) := by
      rcases hholds with ⟨entries, hlist, -, hentries⟩
      rw [hlist.first, ← List.head?_map, hentries, hpath.head?]
    have hrectangles : solutionRectangles ⟨100, s.cells⟩ fuel (some CellPtr.goal) =
        some (path.dropLast.map (solutionRectangle ⟨100, s.cells⟩)) :=
      solutionRectangles_of_path hpath (by omega)
    have hfits : ∀ rectangle ∈ path.dropLast.map (solutionRectangle ⟨100, s.cells⟩),
        rectangle.Fits screen.toScreen ∧ (rectangle.width + rectangle.height).toNat ≤ 200 := by
      intro rectangle hmem
      rcases List.mem_map.mp hmem with ⟨cell, -, rfl⟩
      exact solutionRectangle_fits screen s.cells cell
    have hpaint := foldlM_drawRectangle screen.toScreen (fun rectangle hmem =>
      (hfits rectangle hmem).1) (fun rectangle hmem => (hfits rectangle hmem).2.trans
      (by omega : 200 ≤ fuel)) frame
    dsimp only [drawSolution]
    rw [hfirst, Option.bind_some, hrectangles, Option.bind_some, hpaint, paint_solutionRectangles]
  · have hcells : screen.columns * screen.rows < intMax := by
      have hwidth := screen.xResolution.toNat_lt
      have hheight := screen.yResolution.toNat_lt
      have hcolumns : screen.columns ≤ 655 := by
        unfold MazeScreen.columns
        omega
      have hrows : screen.rows ≤ 655 := by
        unfold MazeScreen.rows
        omega
      have hproduct := Nat.mul_le_mul hcolumns hrows
      unfold intMax
      omega
    rcases getSolution_spec ⟨100, cells⟩ hcells hsolvable with
      ⟨s', hsolver', solution', path', hsolution', hholds', hpath', -⟩
    cases hsolver.symm.trans hsolver'
    cases hsolution.symm.trans hsolution'
    rwa [hholds.unique hholds']

end LCOMaze
