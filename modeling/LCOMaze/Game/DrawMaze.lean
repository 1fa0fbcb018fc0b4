import LCOMaze.Game.GetSolution
import LCOMaze.Game.Winnable
import Mathlib.Tactic.TFAE

/-!
# Drawing, collision and solver

{lit}`draw_maze` paints the wall of a border if either cell has its flag, {lit}`check_collision`
blocks it if both have, and {lit}`get_solution` reads the flag of the current cell only.  On the
mazes that {lit}`generate_maze` produces, the three agree.

Main results:

- Theorem {lit}`mem_drawMaze_iff`: the rectangles drawn are those of the flags and the two ends.
- Theorems {lit}`drawsBorder_iff`, {lit}`rejectsCrossing_iff` and {lit}`refusesMove_iff`: what
  each of the three reads off a border.
- Theorem {lit}`walls_agree`: on every generated maze they agree.
-/

namespace LCOMaze

open Foundations

variable {W H : Nat} {maze : Maze W H}

/-! ## The translated drawing -/

/-- The arguments of a call of {lit}`vg_draw_rectangle_to_buffer` on {lit}`maze_buffer`, before
they are converted to {lit}`uint16_t`; on a screen with a resolution of that type this changes
none of them. -/
structure Rectangle where
  x : Int
  y : Int
  width : Int
  height : Int
  color : UInt32
deriving DecidableEq, Repr

/-- The colour of the walls. -/
def wallColor : UInt32 := 0xFFFFFF

/-- The rectangle that {lit}`draw_maze` draws for a flag of the cell in column {lit}`j` and row
{lit}`i`. -/
def wallRectangle (maze : Maze W H) (cell : CellPtr W H) : Side → Rectangle :=
  let j : Int := cell.x
  let i : Int := cell.y
  fun
  | .top => ⟨j * maze.cellSize, i * maze.cellSize, maze.cellSize, 1, wallColor⟩
  | .bottom =>
      ⟨j * maze.cellSize, i * maze.cellSize + maze.cellSize, maze.cellSize, 1, wallColor⟩
  | .left => ⟨j * maze.cellSize, i * maze.cellSize, 1, maze.cellSize, wallColor⟩
  | .right =>
      ⟨j * maze.cellSize + maze.cellSize, i * maze.cellSize, 1, maze.cellSize, wallColor⟩

/-- The walls of one cell. -/
def drawWalls (maze : Maze W H) (cell : CellPtr W H) : List Rectangle :=
  [Side.top, .bottom, .left, .right].flatMap fun side =>
    if (maze.cells cell).wall side then [wallRectangle maze cell side] else []

/-- The square of the start. -/
def startRectangle (maze : Maze W H) : Rectangle :=
  ⟨7, 7, maze.cellSize - 14, maze.cellSize - 14, 0x0000FF⟩

/-- The square of the goal. -/
def goalRectangle (maze : Maze W H) : Rectangle :=
  ⟨(W - 1) * maze.cellSize + 7, (H - 1) * maze.cellSize + 7, maze.cellSize - 14,
    maze.cellSize - 14, 0x00FF00⟩

/-- {lit}`draw_maze`: the rectangles in the order of the calls. -/
def drawMaze (maze : Maze W H) : List Rectangle :=
  (rowMajor W H).flatMap (drawWalls maze) ++ [startRectangle maze, goalRectangle maze]

/-! ## Three readings of a border -/

/-- The row or column of pixels at which the second one of two adjacent cells begins. -/
def borderRectangle (maze : Maze W H) (p q : CellPtr W H) : Rectangle :=
  if p.y = q.y then
    ⟨max (p.x : Int) q.x * maze.cellSize, p.y * maze.cellSize, 1, maze.cellSize, wallColor⟩
  else ⟨p.x * maze.cellSize, max (p.y : Int) q.y * maze.cellSize, maze.cellSize, 1, wallColor⟩

/-- {lit}`draw_maze` draws a wall on the common border of two cells. -/
def DrawsBorder (maze : Maze W H) (p q : CellPtr W H) : Prop :=
  borderRectangle maze p q ∈ drawMaze maze

/-- A position with its centre in one cell and an extremity in another one. -/
def Straddles (maze : Maze W H) (p q : CellPtr W H) (x y : Int) : Prop :=
  getCell maze x y = some p ∧
    ∃ side, getCell maze (extremity x y 25 side).1 (extremity x y 25 side).2 = some q

/-- {lit}`check_collision` rejects every position that straddles the border of two cells. -/
def RejectsCrossing (maze : Maze W H) (p q : CellPtr W H) : Prop :=
  ∀ x y, Straddles maze p q x y ∨ Straddles maze q p x y → checkCollision maze x y 25 = true

/-- Whatever cells are still listed, {lit}`get_solution` does not collect the second cell as a
neighbour of the first. -/
def RefusesMove (cells : Cells W H) (p q : CellPtr W H) : Prop :=
  ∀ (heap : NodeHeap (CellPtr W H)) (nodes : LinkedList) (entries : List (Nat × CellPtr W H)),
    IsList heap nodes entries →
    ∀ neighbours, solutionNeighbours cells heap nodes p = some neighbours → q ∉ neighbours

/-! ## What is drawn -/

/-- The walls drawn are those of the flags. -/
theorem mem_walls_iff {rectangle : Rectangle} :
    rectangle ∈ (rowMajor W H).flatMap (drawWalls maze) ↔
      ∃ cell side, (maze.cells cell).wall side = true ∧
        rectangle = wallRectangle maze cell side := by
  have hcell : ∀ cell, rectangle ∈ drawWalls maze cell ↔
      ∃ side, (maze.cells cell).wall side = true ∧ rectangle = wallRectangle maze cell side := by
    intro cell
    rw [drawWalls, List.mem_flatMap]
    constructor
    · rintro ⟨side, -, hside⟩
      split_ifs at hside with hwall
      · exact ⟨side, hwall, List.mem_singleton.mp hside⟩
      · exact absurd hside List.not_mem_nil
    · rintro ⟨side, hwall, hrectangle⟩
      refine ⟨side, by cases side <;> simp, ?_⟩
      rw [if_pos hwall, List.mem_singleton]
      exact hrectangle
  simp only [List.mem_flatMap, mem_rowMajor, true_and, hcell]

/-- The rectangles drawn are those of the flags and the two ends. -/
theorem mem_drawMaze_iff {rectangle : Rectangle} :
    rectangle ∈ drawMaze maze ↔
      (∃ cell side, (maze.cells cell).wall side = true ∧
        rectangle = wallRectangle maze cell side) ∨
      rectangle = startRectangle maze ∨ rectangle = goalRectangle maze := by
  simp only [drawMaze, List.mem_append, mem_walls_iff, List.mem_cons, List.not_mem_nil, or_false]

/-- A cell draws a wall on the border to its neighbour. -/
theorem wallRectangle_eq_border (hsize : maze.cellSize = 100) {p q : CellPtr W H} {side : Side}
    (hside : p.neighbour side = some q) :
    wallRectangle maze p side = borderRectangle maze p q := by
  rw [CellPtr.neighbour_eq_some_iff] at hside
  cases side <;>
    simp only [CellPtr.columnAcross, CellPtr.rowAcross] at hside <;>
    simp only [wallRectangle, borderRectangle, hsize, Fin.ext_iff] <;>
    split_ifs <;> simp only [Rectangle.mk.injEq, and_true, true_and] <;> omega

/-- The walls of two flags coincide only on a common border. -/
theorem wallRectangle_eq_iff (hsize : maze.cellSize = 100) {p q cell : CellPtr W H}
    {side t : Side} (hside : p.neighbour side = some q) :
    wallRectangle maze cell t = wallRectangle maze p side ↔
      (cell = p ∧ t = side) ∨ (cell = q ∧ t = side.opposite) := by
  rw [CellPtr.neighbour_eq_some_iff] at hside
  simp only [CellPtr.ext_iff, Fin.ext_iff]
  cases side <;> cases t <;>
    simp only [CellPtr.columnAcross, CellPtr.rowAcross] at hside <;>
    simp only [wallRectangle, hsize, Side.opposite, Rectangle.mk.injEq, reduceCtorEq, Int.reduceEq,
      and_true, and_false, or_false, false_or] <;>
    omega

/-- A wall is drawn on a border exactly when its flags are set. -/
theorem drawsBorder_iff (hsize : maze.cellSize = 100) (hwalls : WallsConsistent maze.cells)
    {p q : CellPtr W H} {side : Side} (hside : p.neighbour side = some q) :
    DrawsBorder maze p q ↔ (maze.cells p).wall side = true := by
  have hstart : wallRectangle maze p side ≠ startRectangle maze := by
    cases side <;> simp [wallRectangle, startRectangle, hsize]
  have hgoal : wallRectangle maze p side ≠ goalRectangle maze := by
    cases side <;> simp [wallRectangle, goalRectangle, hsize]
  rw [DrawsBorder, ← wallRectangle_eq_border hsize hside, mem_drawMaze_iff,
    or_iff_left (not_or.mpr ⟨hstart, hgoal⟩)]
  constructor
  · rintro ⟨cell, t, hwall, hsame⟩
    rcases (wallRectangle_eq_iff hsize hside).mp hsame.symm with ⟨rfl, rfl⟩ | ⟨rfl, rfl⟩
    · exact hwall
    · rw [hwalls.facing p side cell hside]
      exact hwall
  · exact fun hwall => ⟨p, side, hwall, rfl⟩

/-! ## What is blocked -/

/-- An extremity in an adjacent cell lies on the side of that cell. -/
theorem side_of_straddle (hsize : maze.cellSize = 100) {p q : CellPtr W H} {side s : Side}
    (hside : p.neighbour side = some q) {x y : Int} (hcentre : getCell maze x y = some p)
    (hextremity : getCell maze (extremity x y 25 s).1 (extremity x y 25 s).2 = some q) :
    s = side := by
  have hq : p.neighbour s = some q := by
    rw [CellPtr.neighbour_eq_some_iff] at hside ⊢
    rw [getCell_eq_some_iff hsize] at hcentre hextremity
    cases side <;> cases s <;>
      simp only [CellPtr.columnAcross, CellPtr.rowAcross, extremity] at hside hextremity ⊢ <;>
      omega
  exact CellPtr.neighbour_side_unique hq hside

/-- A position that straddles a walled border is rejected. -/
theorem checkCollision_of_wall (hsize : maze.cellSize = 100)
    (hwalls : WallsConsistent maze.cells) {p q : CellPtr W H} {side : Side}
    (hside : p.neighbour side = some q) (hwall : (maze.cells p).wall side = true) {x y : Int}
    (hstraddles : Straddles maze p q x y) : checkCollision maze x y 25 = true := by
  rcases hstraddles with ⟨hcentre, s, hextremity⟩
  have hs : s = side := side_of_straddle hsize hside hcentre hextremity
  subst hs
  by_contra haccepted
  rw [Bool.not_eq_true, checkCollision_eq_false_iff] at haccepted
  rcases haccepted with ⟨center, hcenter, hsides⟩
  rcases hsides s with ⟨cell, hcell, hopen⟩
  obtain rfl : center = p := Option.some.inj (hcenter.symm.trans hcentre)
  obtain rfl : cell = q := Option.some.inj (hcell.symm.trans hextremity)
  rw [← hwalls.facing center s cell hside, hwall] at hopen
  rcases hopen with heq | hfalse | hfalse
  · exact CellPtr.neighbour_ne hside heq.symm
  · cases hfalse
  · cases hfalse

/-- Exactly the walled borders block every position that straddles them. -/
theorem rejectsCrossing_iff (hmaze : PassageMaze maze) {p q : CellPtr W H} {side : Side}
    (hside : p.neighbour side = some q) :
    RejectsCrossing maze p q ↔ (maze.cells p).wall side = true := by
  have hsize := hmaze.cellSize_eq
  constructor
  · intro hrejects
    by_contra hopen
    rw [Bool.not_eq_true] at hopen
    have hadj := (hmaze.walls.adj_iff hside).mpr hopen
    -- forty pixels from the centre, the player reaches into the next cell
    have hfree := free_of_passage hmaze hside hadj (by omega : 4 ≤ 10)
    have hstraddles : Straddles maze p q (extremity (centre p).1 (centre p).2 (10 * 4) side).1
        (extremity (centre p).1 (centre p).2 (10 * 4) side).2 := by
      have hq := CellPtr.neighbour_eq_some_iff.mp hside
      refine ⟨?_, side, ?_⟩
      · rw [getCell_eq_some_iff hsize]
        cases side <;> simp only [extremity, centre] <;> omega
      · rw [extremity_extremity, getCell_eq_some_iff hsize]
        cases side <;>
          simp only [extremity, centre, CellPtr.columnAcross, CellPtr.rowAcross] at hq ⊢ <;> omega
    rw [Free, hrejects _ _ (Or.inl hstraddles)] at hfree
    cases hfree
  · intro hwall x y hstraddles
    have hwall' : (maze.cells q).wall side.opposite = true := by
      rw [← hmaze.walls.facing p side q hside]
      exact hwall
    rcases hstraddles with hforward | hbackward
    · exact checkCollision_of_wall hsize hmaze.walls hside hwall hforward
    · exact checkCollision_of_wall hsize hmaze.walls (CellPtr.neighbour_comm.mp hside) hwall'
        hbackward

/-! ## What is searched -/

/-- {lit}`get_solution` refuses a move exactly when the current cell has the wall. -/
theorem refusesMove_iff {cells : Cells W H} {p q : CellPtr W H} {side : Side}
    (hside : p.neighbour side = some q) :
    RefusesMove cells p q ↔ (cells p).wall side = true := by
  constructor
  · intro hrefuses
    by_contra hopen
    rw [Bool.not_eq_true] at hopen
    rcases (IsList.empty (NodeHeap.empty : NodeHeap (CellPtr W H))).push
      (fun hne => absurd rfl hne) q with ⟨heap, nodes, -, hlist, -⟩
    rcases solutionNeighbours_spec cells hlist p with ⟨neighbours, hrun, hmem⟩
    apply hrefuses heap nodes _ hlist neighbours hrun
    rw [hmem]
    exact ⟨⟨side, hside, hopen⟩, by simp⟩
  · intro hwall heap nodes entries hlist neighbours hrun hq
    rcases solutionNeighbours_spec cells hlist p with ⟨neighbours', hrun', hmem⟩
    obtain rfl : neighbours' = neighbours := Option.some.inj (hrun'.symm.trans hrun)
    rcases ((hmem q).mp hq).1 with ⟨t, ht, hopen⟩
    rw [CellPtr.neighbour_side_unique ht hside, hwall] at hopen
    cases hopen

/-! ## Agreement -/

/-- On every generated maze, for any two adjacent cells it is the same to say that
{lit}`draw_maze` draws a wall on their border, that {lit}`check_collision` rejects every
position that straddles it, and that {lit}`get_solution` refuses the move in one direction or in
the other; and every side on the outer border keeps its wall. -/
theorem walls_agree [NeZero W] [NeZero H] (mem : Cells W H) (rand : Nat → Nat) :
    ∃ maze, generateMaze mem rand = some maze ∧
      (∀ p q, (gridGraph W H).Adj p q →
        List.TFAE [DrawsBorder maze p q, RejectsCrossing maze p q, RefusesMove maze.cells p q,
          RefusesMove maze.cells q p]) ∧
      ∀ p side, p.neighbour side = none → (maze.cells p).wall side = true := by
  rcases generateMaze_passageMaze mem rand with ⟨maze, hrun, hmaze⟩
  refine ⟨maze, hrun, ?_, hmaze.walls.border⟩
  intro p q hadj
  rcases hadj with ⟨side, hside⟩
  have hdraws := drawsBorder_iff hmaze.cellSize_eq hmaze.walls hside
  have hrejects := rejectsCrossing_iff hmaze hside
  have hforward : RefusesMove maze.cells p q ↔ (maze.cells p).wall side = true :=
    refusesMove_iff hside
  have hbackward : RefusesMove maze.cells q p ↔ (maze.cells p).wall side = true := by
    rw [hmaze.walls.facing p side q hside]
    exact refusesMove_iff (CellPtr.neighbour_comm.mp hside)
  tfae_have 1 ↔ 2 := hdraws.trans hrejects.symm
  tfae_have 1 ↔ 3 := hdraws.trans hforward.symm
  tfae_have 1 ↔ 4 := hdraws.trans hbackward.symm
  tfae_finish

/-- A maze of three by two cells on memory full of garbage. -/
theorem walls_agree_three_by_two :
    ∃ maze : Maze 3 2,
      generateMaze (fun _ => ⟨true, false, true, false, true, 7, none⟩) (fun n => n) = some maze ∧
      (∀ p q, (gridGraph 3 2).Adj p q →
        List.TFAE [DrawsBorder maze p q, RejectsCrossing maze p q, RefusesMove maze.cells p q,
          RefusesMove maze.cells q p]) ∧
      ∀ p side, p.neighbour side = none → (maze.cells p).wall side = true :=
  walls_agree _ _

end LCOMaze
