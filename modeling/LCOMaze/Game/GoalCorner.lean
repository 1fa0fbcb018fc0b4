import LCOMaze.Game.Winnable

/-!
# Where a game can end

{lit}`check_game_end` compares the coordinates with a slack of 25 pixels and looks at no wall.
Left of the goal's column and above its row at once, the player stands in the cell diagonal
to the goal and reaches into both cells next to it, never into the goal.

Main results:

- Theorem {lit}`corner_of_end`: an accepted end outside the goal needs both passages of the
  diagonal cell.
- Theorem {lit}`exists_end_in_corner`: with both passages such an end is reached.
- Theorem {lit}`game_ends_at_goal_iff`: the game ends at the goal only, if and only if one of the
  two passages is closed.
- Theorem {lit}`game_ends_at_corner`: a generated maze that has both.
-/

namespace LCOMaze

open Foundations

variable {W H : Nat} {maze : Maze W H}

/-! ## Ends of the game -/

/-- The centre or an extremity lies in the bottom-right cell. -/
def TouchesGoal [NeZero W] [NeZero H] (maze : Maze W H) (player : Player) : Prop :=
  centreCell maze player = some CellPtr.goal ∨
    ∃ side, getCell maze (extremity (truncToInt player.x) (truncToInt player.y) 25 side).1
      (extremity (truncToInt player.x) (truncToInt player.y) 25 side).2 = some CellPtr.goal

/-- If the game ends here, the player touches the goal. -/
def EndsAtGoal [NeZero W] [NeZero H] (maze : Maze W H) (player : Player) : Prop :=
  checkGameEnd maze player = true → TouchesGoal maze player

/-- The cell diagonal to the goal is joined to the two cells between it and the goal. -/
def CornerOpen (maze : Maze W H) : Prop :=
  ∃ corner : CellPtr W H, corner.x.val + 2 = W ∧ corner.y.val + 2 = H ∧
    (maze.cells corner).rightWall = false ∧ (maze.cells corner).bottomWall = false

/-- A coordinate that has passed the test is truncated to one that has. -/
theorem le_truncToInt {q : ℚ} {n : Int} (hq : 0 ≤ q) (h : (n : ℚ) ≤ q) : n ≤ truncToInt q := by
  rw [truncToInt, if_pos hq]
  exact Int.le_floor.mpr h

/-- An accepted position at which the game ends without touching the goal reaches into both
cells next to the goal. -/
theorem corner_of_end [NeZero W] [NeZero H] (hmaze : PassageMaze maze) {player : Player}
    (haccepted : PlayerAccepted maze player) (hend : checkGameEnd maze player = true)
    (haway : ¬TouchesGoal maze player) : CornerOpen maze := by
  rcases haccepted.inside hmaze with ⟨⟨hx, hx'⟩, ⟨hy, hy'⟩⟩
  simp only [checkGameEnd, hmaze.cellSize_eq, Bool.and_eq_true, decide_eq_true_eq] at hend
  have hendX := le_truncToInt (by linarith) hend.1
  have hendY := le_truncToInt (by linarith) hend.2
  have hcell := fun {x y : Int} {c : CellPtr W H} =>
    getCell_eq_some_iff (x := x) (y := y) (p := c) hmaze.cellSize_eq
  rcases checkCollision_eq_false_iff.mp haccepted with ⟨corner, hcorner, hsides⟩
  have hgoalx : (CellPtr.goal : CellPtr W H).x.val = W - 1 := rfl
  have hgoaly : (CellPtr.goal : CellPtr W H).y.val = H - 1 := rfl
  have hright := hsides .right
  have hbottom := hsides .bottom
  rcases hright with ⟨right, hright, -⟩
  rcases hbottom with ⟨bottom, hbottom, -⟩
  simp only [TouchesGoal, centreCell, not_or, not_exists, hcell] at haway
  rcases haway with ⟨hcentre, hextremities⟩
  have hawayRight := hextremities .right
  have hawayBottom := hextremities .bottom
  rw [hcell] at hright hbottom
  have hcorner' := hcell.mp hcorner
  simp only [extremity] at hright hbottom hawayRight hawayBottom
  have hcornerx : corner.x.val + 2 = W := by omega
  have hcornery : corner.y.val + 2 = H := by omega
  have hopen : ∀ side,
      getCell maze (extremity (truncToInt player.x) (truncToInt player.y) 25 side).1
        (extremity (truncToInt player.x) (truncToInt player.y) 25 side).2 ≠ some corner →
      (maze.cells corner).wall side = false := by
    intro side hout
    rcases exists_passage_of_extremity hmaze haccepted hcorner side hout with ⟨cell, hcell, hadj⟩
    exact (hmaze.walls.adj_iff hcell).mp hadj
  refine ⟨corner, hcornerx, hcornery, hopen .right ?_, hopen .bottom ?_⟩
  · rw [Ne, hcell]
    simp only [extremity]
    omega
  · rw [Ne, hcell]
    simp only [extremity]
    omega

/-! ## A run into the corner -/

/-- The last position of a run is one of the run. -/
theorem foldl_mem_keyRun (maze : Maze W H) (events : List KeyEvent) (player : Player) :
    events.foldl (fun player event => gameKeyboardHandler event.lib maze event.kbdValue player)
      player ∈ keyRun maze player events := by
  induction events generalizing player with
  | nil => exact List.mem_singleton_self player
  | cons event events ih => exact List.mem_cons_of_mem player (ih _)

/-- Close to the right border of a cell with open borders to the right and below, all positions
down to the lower border are accepted. -/
theorem free_of_corner (hmaze : PassageMaze maze) {corner right bottom : CellPtr W H}
    (hright : corner.neighbour .right = some right)
    (hbottom : corner.neighbour .bottom = some bottom)
    (hadjRight : (passageGraph maze.cells).Adj corner right)
    (hadjBottom : (passageGraph maze.cells).Adj corner bottom) {k : Nat} (hk : k ≤ 3) :
    Free maze (extremity (100 * corner.x + 80) (100 * corner.y + 50) (10 * k) .bottom) := by
  have hright' := CellPtr.neighbour_eq_some_iff.mp hright
  have hbottom' := CellPtr.neighbour_eq_some_iff.mp hbottom
  simp only [CellPtr.columnAcross, CellPtr.rowAcross] at hright' hbottom'
  have hcell := fun {x y : Int} {c : CellPtr W H} =>
    getCell_eq_some_iff (x := x) (y := y) (p := c) hmaze.cellSize_eq
  apply free_of_sides hmaze (p := corner)
  · rw [hcell]
    omega
  · intro s
    cases s with
    | left =>
        left
        rw [hcell]
        simp only [extremity]
        omega
    | right =>
        refine Or.inr ⟨right, hright, hadjRight, ?_⟩
        rw [hcell]
        simp only [extremity]
        omega
    | top =>
        left
        rw [hcell]
        simp only [extremity]
        omega
    | bottom =>
        by_cases hinside : k < 3
        · left
          rw [hcell]
          simp only [extremity]
          omega
        · refine Or.inr ⟨bottom, hbottom, hadjBottom, ?_⟩
          rw [hcell]
          simp only [extremity]
          omega

/-- From the centre of such a cell, three steps to the right and three down are free. -/
theorem pixelRun_of_corner (hmaze : PassageMaze maze) {corner right bottom : CellPtr W H}
    (hright : corner.neighbour .right = some right)
    (hbottom : corner.neighbour .bottom = some bottom)
    (hadjRight : (passageGraph maze.cells).Adj corner right)
    (hadjBottom : (passageGraph maze.cells).Adj corner bottom) :
    PixelRun maze (centre corner) (100 * corner.x + 80, 100 * corner.y + 80)
      (List.replicate 3 .right ++ List.replicate 3 .bottom) := by
  have hsideways : PixelRun maze (centre corner) (100 * corner.x + 80, 100 * corner.y + 50)
      (List.replicate 3 .right) := by
    refine ⟨throughout_replicate fun k hk => ?_, ?_⟩
    · exact free_of_passage hmaze hright hadjRight (by omega)
    · rw [replicate_foldl_pixelStep]
      simp only [extremity, centre, Prod.mk.injEq, and_true]
      omega
  apply hsideways.trans
  refine ⟨throughout_replicate fun k hk => ?_, ?_⟩
  · exact free_of_corner hmaze hright hbottom hadjRight hadjBottom hk
  · rw [replicate_foldl_pixelStep]
    simp only [extremity, Prod.mk.injEq, true_and]
    omega

/-- There the game ends, but the player reaches into the two cells next to the goal only. -/
theorem not_endsAtGoal_of_corner [NeZero W] [NeZero H] (hsize : maze.cellSize = 100)
    (corner : CellPtr W H) (hcornerx : corner.x.val + 2 = W) (hcornery : corner.y.val + 2 = H)
    {lib : MathLib} {player : Player}
    (h : AtPixel lib player (100 * corner.x + 80, 100 * corner.y + 80)) :
    ¬EndsAtGoal maze player := by
  intro hgoal
  have hend : checkGameEnd maze player = true := by
    simp only [checkGameEnd, h.x_eq, h.y_eq, hsize, Bool.and_eq_true, decide_eq_true_eq,
      Int.cast_le]
    omega
  have hgoalx : (CellPtr.goal : CellPtr W H).x.val = W - 1 := rfl
  have hgoaly : (CellPtr.goal : CellPtr W H).y.val = H - 1 := rfl
  have htouches := hgoal hend
  simp only [TouchesGoal, centreCell, h.x_eq, h.y_eq, truncToInt_intCast,
    getCell_eq_some_iff hsize] at htouches
  rcases htouches with hcentre | ⟨side, hextremity⟩
  · omega
  · cases side <;> simp only [extremity] at hextremity <;> omega

/-- If both passages of the diagonal cell are open, some keys end the game away from the
goal. -/
theorem exists_end_in_corner [NeZero W] [NeZero H] (hmaze : PassageMaze maze)
    (hconnected : (passageGraph maze.cells).Preconnected) (hopen : CornerOpen maze)
    {player : Player} (hx : player.x = 50) (hy : player.y = 50) :
    ∃ events, ∃ p ∈ keyRun maze player events, ¬EndsAtGoal maze p := by
  rcases hopen with ⟨corner, hcornerx, hcornery, hrightWall, hbottomWall⟩
  have hright : corner.neighbour .right = some ⟨⟨corner.x + 1, by omega⟩, corner.y⟩ :=
    dif_pos (by omega)
  have hbottom : corner.neighbour .bottom = some ⟨corner.x, ⟨corner.y + 1, by omega⟩⟩ :=
    dif_pos (by omega)
  rcases hconnected CellPtr.origin corner with ⟨walk⟩
  rcases exists_pixelRun hmaze walk with ⟨sides, hsides⟩
  have hrun := hsides.trans (pixelRun_of_corner hmaze hright hbottom
    ((hmaze.walls.adj_iff hright).mpr hrightWall) ((hmaze.walls.adj_iff hbottom).mpr hbottomWall))
  have hstart : AtPixel MathLib.headingZero player (centre (CellPtr.origin : CellPtr W H)) := by
    rw [centre_origin]
    exact ⟨by rw [hx]; norm_num, by rw [hy]; norm_num, ⟨rfl, rfl⟩, fun _ _ => ⟨rfl, rfl⟩⟩
  rcases hstart.keys hrun with ⟨-, hfinish⟩
  let keys := (sides ++ (List.replicate 3 Side.right ++ List.replicate 3 Side.bottom)).map keyToward
  refine ⟨keys.map (KeyEvent.mk MathLib.headingZero), _, foldl_mem_keyRun maze _ player, ?_⟩
  rw [List.foldl_map]
  exact not_endsAtGoal_of_corner hmaze.cellSize_eq corner hcornerx hcornery hfinish

/-- In every generated maze, all positions that keys reach from the start and that count as
the end touch the bottom-right cell, if and only if the cell diagonal to it is not joined to
both cells next to it. -/
theorem game_ends_at_goal_iff [NeZero W] [NeZero H] (mem : Cells W H) (rand : Nat → Nat)
    (player : Player) (hx : player.x = 50) (hy : player.y = 50) :
    ∃ maze, generateMaze mem rand = some maze ∧
      ((∀ events, ∀ p ∈ keyRun maze player events, EndsAtGoal maze p) ↔ ¬CornerOpen maze) := by
  rcases generateMaze_spec mem rand with ⟨maze, hrun, hsize, hwalls, -, htree⟩
  have hmaze : PassageMaze maze := ⟨hsize, hwalls, htree.isAcyclic⟩
  refine ⟨maze, hrun, ?_, ?_⟩
  · intro hgoal hopen
    rcases exists_end_in_corner hmaze htree.connected.preconnected hopen hx hy with
      ⟨events, p, hp, haway⟩
    exact haway (hgoal events p hp)
  · intro hclosed events p hp hend
    rcases start_accepted hmaze hx hy with ⟨haccepted, hstart⟩
    by_contra haway
    exact hclosed (corner_of_end hmaze ((keyRun_walk hmaze events haccepted hstart).1 p hp) hend
      haway)

/-! ## A maze with an open corner -/

/-- Memory of three by two cells full of garbage. -/
def garbage : Cells 3 2 := fun _ => ⟨true, false, true, false, true, 7, none⟩

/-- The values of {lit}`rand` by which the generator goes down, to the right, up, to the right
and down again. -/
def cornerChoices (n : Nat) : Nat := if n = 0 ∨ n = 2 then 1 else 0

/-- The way to the diagonal cell and into its bottom-right corner. -/
def detour : List Side :=
  List.replicate 10 .bottom ++ List.replicate 10 .right ++ List.replicate 10 .top ++
    (List.replicate 3 .right ++ List.replicate 3 .bottom)

instance (position : Int × Int) (side : Side) : Decidable (FreeStep maze position side) :=
  inferInstanceAs (Decidable (checkCollision maze _ _ 25 = false))

instance (start finish : Int × Int) (sides : List Side) :
    Decidable (PixelRun maze start finish sides) :=
  inferInstanceAs (Decidable (_ ∧ _))

/-- The player wins that maze in the cell diagonal to the goal. -/
theorem game_ends_at_corner :
    ¬∀ (W H : Nat) (_ : NeZero W) (_ : NeZero H) (mem : Cells W H) (rand : Nat → Nat)
      (maze : Maze W H) (player : Player) (events : List KeyEvent),
      generateMaze mem rand = some maze → player.x = 50 → player.y = 50 →
      ∀ p ∈ keyRun maze player events, EndsAtGoal maze p := by
  intro hall
  have hcorner : (generateMaze garbage cornerChoices).any (fun maze =>
      decide (maze.cellSize = 100 ∧ PixelRun maze (50, 50) (180, 80) detour)) = true := by
    decide +kernel
  rcases (Option.any_eq_true _ _).mp hcorner with ⟨maze, hrun, hdetour⟩
  rcases of_decide_eq_true hdetour with ⟨hsize, hdetour⟩
  let player : Player := ⟨50, 50, 0, 0, 0, 0, false, false⟩
  have hstart : AtPixel MathLib.headingZero player (50, 50) :=
    ⟨by norm_num [player], by norm_num [player], ⟨rfl, rfl⟩, fun _ _ => ⟨rfl, rfl⟩⟩
  have hgoal := hall 3 2 inferInstance inferInstance garbage cornerChoices maze player
    ((detour.map keyToward).map (KeyEvent.mk MathLib.headingZero)) hrun rfl rfl _
    (foldl_mem_keyRun maze _ player)
  rw [List.foldl_map] at hgoal
  exact not_endsAtGoal_of_corner hsize ⟨1, 0⟩ rfl rfl (hstart.keys hdetour).2 hgoal

/-- The same law for the maze of those choices. -/
theorem game_ends_at_goal_iff_three_by_two :
    let player : Player := ⟨50, 50, 0, 0, 0, 0, false, false⟩
    ∃ maze, generateMaze garbage cornerChoices = some maze ∧
      ((∀ events, ∀ p ∈ keyRun maze player events, EndsAtGoal maze p) ↔ ¬CornerOpen maze) :=
  game_ends_at_goal_iff _ _ _ rfl rfl

end LCOMaze
