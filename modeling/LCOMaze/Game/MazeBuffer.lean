import LCOMaze.Game.MazePicture

/-!
# Two runs of {lit}`init_game`

The maze depends on the values of {lit}`rand` alone.  {lit}`generate_maze_buffer` allocates the
buffer without clearing it and {lit}`draw_maze` paints the walls and the markers only, so the rest
of the picture is what the memory held before.

Main results:

- Theorem {lit}`generateMaze_walls`: on any two memories, the same values of {lit}`rand` give the
  same walls.
- Theorem {lit}`initGame_same_picture_iff`: two runs leave the same picture exactly if the memory
  of their buffers agrees off the walls and the markers.
-/

namespace LCOMaze

open Foundations

variable {n W H : Nat}

/-! ## What the generator does not read -/

/-- A cell without the fields that {lit}`generate_maze` leaves as the memory held them. -/
def Cell.erase (cell : Cell W H) : Cell W H := { cell with dist := 0, prev := none }

/-- All cells without these fields. -/
def Cells.erase (cells : Cells W H) : Cells W H := fun p => (cells p).erase

/-- The generator without these fields. -/
def Generator.erase (s : Generator W H) : Generator W H := { s with cells := s.cells.erase }

@[simp]
theorem Cell.erase_wall (cell : Cell W H) (side : Side) :
    cell.erase.wall side = cell.wall side := by
  cases side <;> rfl

/-- A write that does not touch these fields commutes with erasing them. -/
theorem Cells.erase_modify {f : Cell W H → Cell W H} (h : ∀ cell, (f cell).erase = f cell.erase)
    (cells : Cells W H) (p : CellPtr W H) :
    Cells.erase (cells.modify p f) = cells.erase.modify p f := by
  funext q
  rw [Cells.modify_apply, Cells.erase, Cells.modify_apply]
  split_ifs with hq
  · rw [h]
    rfl
  · rfl

theorem Cells.erase_clearFacing (cells : Cells W H) (p q : CellPtr W H) (side : Side) :
    Cells.erase (cells.clearFacing p q side) = cells.erase.clearFacing p q side := by
  have hclear : ∀ (side : Side) (cell : Cell W H),
      (cell.clearWall side).erase = cell.erase.clearWall side := by
    intro side cell
    cases side <;> rfl
  rw [Cells.clearFacing, Cells.erase_modify (hclear _), Cells.erase_modify (hclear _),
    Cells.clearFacing]

theorem erase_removeWall (cells : Cells W H) (current neighbour : CellPtr W H) :
    Cells.erase (removeWall cells current neighbour) =
      removeWall cells.erase current neighbour := by
  unfold removeWall
  split_ifs
  · exact Cells.erase_clearFacing cells current neighbour .left
  · exact Cells.erase_clearFacing cells current neighbour .right
  · exact Cells.erase_clearFacing cells current neighbour .top
  · exact Cells.erase_clearFacing cells current neighbour .bottom
  · rfl

/-- An iteration does not read these fields. -/
theorem generateStep_erase (rand : Nat → Nat) (s : Generator W H) :
    generateStep rand s.erase = (generateStep rand s).map Generator.erase := by
  have hneighbours : ∀ current,
      unvisitedNeighbours s.cells.erase current = unvisitedNeighbours s.cells current :=
    fun _ => rfl
  unfold generateStep
  simp only [Generator.erase]
  rcases s.stack.stackPop with ⟨_ | current, stack⟩
  · rfl
  · simp only [hneighbours]
    split_ifs
    · cases (unvisitedNeighbours s.cells current)[rand s.calls %
          (unvisitedNeighbours s.cells current).length]? with
      | none => rfl
      | some neighbour =>
          have hvisit : ∀ cell : Cell W H, cell.visit.erase = cell.erase.visit := fun _ => rfl
          simp only [Option.map_some, Option.some.injEq]
          rw [Generator.erase, Cells.erase_modify hvisit, erase_removeWall]
    · rfl

/-- The initialization leaves nothing else of the memory. -/
theorem generatorInit_erase [NeZero W] [NeZero H] (mem₁ mem₂ : Cells W H) :
    (generatorInit mem₁).erase = (generatorInit mem₂).erase := by
  have hvisit : ∀ cell : Cell W H, cell.visit.erase = cell.erase.visit := fun _ => rfl
  have hinit : Cells.erase (fun p => (mem₁ p).init) = Cells.erase fun p => (mem₂ p).init := rfl
  rw [Generator.erase, Generator.erase, generatorInit, generatorInit, Cells.erase_modify hvisit,
    Cells.erase_modify hvisit, hinit]

/-- The generator runs to the end. -/
theorem generateMaze_run [NeZero W] [NeZero H] (mem : Cells W H) (rand : Nat → Nat) :
    ∃ s, generateLoop rand (2 * (W * H)) (generatorInit mem) = some s ∧
      generateMaze mem rand = some ⟨100, s.cells⟩ := by
  rcases generateMaze_spec mem rand with ⟨maze, hrun, -⟩
  rcases Option.map_eq_some_iff.mp hrun with ⟨s, hloop, -⟩
  exact ⟨s, hloop, by rw [generateMaze, hloop]; rfl⟩

/-- On any two memories, the same values of {lit}`rand` give the same walls. -/
theorem generateMaze_walls [NeZero W] [NeZero H] (mem₁ mem₂ : Cells W H) (rand : Nat → Nat) :
    ∃ cells₁ cells₂ : Cells W H, generateMaze mem₁ rand = some ⟨100, cells₁⟩ ∧
      generateMaze mem₂ rand = some ⟨100, cells₂⟩ ∧
      ∀ cell side, (cells₁ cell).wall side = (cells₂ cell).wall side := by
  rcases generateMaze_run mem₁ rand with ⟨s₁, hloop₁, hrun₁⟩
  rcases generateMaze_run mem₂ rand with ⟨s₂, hloop₂, hrun₂⟩
  have hcond : ∀ s : Generator W H,
      decide (0 < s.erase.stack.size) = decide (0 < s.stack.size) := fun _ => rfl
  have herase : ∀ s : Generator W H, generateLoop rand (2 * (W * H)) s.erase =
      (generateLoop rand (2 * (W * H)) s).map Generator.erase :=
    whileLoop_map hcond (generateStep_erase rand) _
  have hsame : some s₁.erase = some s₂.erase := by
    calc some s₁.erase
        = generateLoop rand (2 * (W * H)) (generatorInit mem₁).erase := by
          rw [herase, hloop₁]
          rfl
      _ = generateLoop rand (2 * (W * H)) (generatorInit mem₂).erase := by
          rw [generatorInit_erase mem₁ mem₂]
      _ = some s₂.erase := by
          rw [herase, hloop₂]
          rfl
  rw [Option.some.injEq] at hsame
  refine ⟨s₁.cells, s₂.cells, hrun₁, hrun₂, fun cell side => ?_⟩
  rw [← Cell.erase_wall (s₁.cells cell), ← Cell.erase_wall (s₂.cells cell)]
  have hcells := congrArg Generator.cells hsame
  have hcell := congrFun hcells cell
  exact congrArg (Cell.wall · side) hcell

/-! ## The translated initialization -/

/-- {lit}`generate_maze_buffer`, with {lit}`maze_buffer` unless it is {lit}`NULL` and what
{lit}`malloc` returns. -/
def generateMazeBuffer (mazeBuffer : Option (Memory n)) (allocated : Fin n → UInt8) : Memory n :=
  match mazeBuffer with
  | none => some allocated
  | some memory => memory

/-- {lit}`init_game`, as far as {lit}`maze_buffer` is concerned. -/
def initGamePicture [NeZero W] [NeZero H] (mode : ModeInfo) (mem : Cells W H) (rand : Nat → Nat)
    (mazeBuffer : Option (Memory n)) (allocated : Fin n → UInt8) (fuel : Nat) :
    Option (Memory n) :=
  (generateMaze mem rand).bind fun maze =>
    paintMaze mode maze fuel (generateMazeBuffer mazeBuffer allocated)

/-! ## Two runs -/

/-- Two runs with the same values of {lit}`rand`, in which {lit}`malloc` returns the given memory
for the cells and the buffer, leave the same picture in {lit}`maze_buffer`. -/
def SamePicture (screen : MazeScreen) (rand : Nat → Nat)
    (mem₁ mem₂ : Cells screen.columns screen.rows) (frame₁ frame₂ : screen.Frame) : Prop :=
  ∃ picture : screen.Frame,
    Returns (initGamePicture screen.toModeInfo mem₁ rand none frame₁) (some picture) ∧
    Returns (initGamePicture screen.toModeInfo mem₂ rand none frame₂) (some picture)

/-- The pixels of the walls and of the two markers. -/
def mazePixels (r : Raster) (cells : Cells W H) : Set r.Pixel :=
  wallPixels r cells ∪ markerPixels r 0 0 ∪ markerPixels r (W - 1) (H - 1)

/-- The picture depends on the walls alone. -/
theorem ShowsMaze.of_walls {screen : Screen} {cells₁ cells₂ : Cells W H}
    {frame picture : screen.Frame} (h : ShowsMaze screen cells₂ frame picture)
    (hwalls : ∀ cell side, (cells₁ cell).wall side = (cells₂ cell).wall side) :
    ShowsMaze screen cells₁ frame picture := by
  have hpixels : wallPixels screen.raster cells₁ = wallPixels screen.raster cells₂ := by
    unfold wallPixels
    simp only [hwalls]
  refine ⟨h.green, h.blue, ?_, ?_⟩
  · rw [hpixels]
    exact h.white
  · rw [hpixels]
    exact h.unchanged

/-- Frames that show the same maze agree where the frames before do, and on the maze. -/
theorem ShowsMaze.pixel_eq_iff {screen : Screen} {cells : Cells W H}
    {frame₁ frame₂ picture₁ picture₂ : screen.Frame} (h₁ : ShowsMaze screen cells frame₁ picture₁)
    (h₂ : ShowsMaze screen cells frame₂ picture₂) (p : screen.raster.Pixel) :
    Raster.pixel picture₁ p = Raster.pixel picture₂ p ↔
      p ∈ mazePixels screen.raster cells ∨ Raster.pixel frame₁ p = Raster.pixel frame₂ p := by
  unfold mazePixels
  by_cases hgoal : p ∈ markerPixels screen.raster (W - 1) (H - 1)
  · rw [h₁.green p hgoal, h₂.green p hgoal]
    exact iff_of_true rfl (Or.inl (Or.inr hgoal))
  · by_cases hstart : p ∈ markerPixels screen.raster 0 0
    · rw [h₁.blue p hgoal hstart, h₂.blue p hgoal hstart]
      exact iff_of_true rfl (Or.inl (Or.inl (Or.inr hstart)))
    · by_cases hwall : p ∈ wallPixels screen.raster cells
      · rw [h₁.white p hgoal hstart hwall, h₂.white p hgoal hstart hwall]
        exact iff_of_true rfl (Or.inl (Or.inl (Or.inl hwall)))
      · rw [h₁.unchanged p hgoal hstart hwall, h₂.unchanged p hgoal hstart hwall]
        simp only [Set.mem_union, hgoal, hstart, hwall, or_self, false_or]

/-- A run of {lit}`init_game` shows the maze on the memory of its buffer. -/
theorem initGamePicture_shows (screen : MazeScreen) {rand : Nat → Nat}
    {mem cells : Cells screen.columns screen.rows}
    (hmaze : generateMaze mem rand = some ⟨100, cells⟩) (frame : screen.Frame) :
    ∃ picture : screen.Frame,
      Returns (initGamePicture screen.toModeInfo mem rand none frame) (some picture) ∧
      ShowsMaze screen.toScreen cells frame picture := by
  refine ⟨_, ?_, showsMaze_paint screen.toScreen cells frame⟩
  unfold initGamePicture
  rw [hmaze]
  exact paintMaze_paints screen cells frame

/-- Two runs show the same maze, each on the memory of its buffer. -/
theorem initGamePicture_shows_both (screen : MazeScreen) (rand : Nat → Nat)
    (mem₁ mem₂ : Cells screen.columns screen.rows) (frame₁ frame₂ : screen.Frame) :
    ∃ (cells : Cells screen.columns screen.rows) (picture₁ picture₂ : screen.Frame),
      generateMaze mem₁ rand = some ⟨100, cells⟩ ∧
      Returns (initGamePicture screen.toModeInfo mem₁ rand none frame₁) (some picture₁) ∧
      Returns (initGamePicture screen.toModeInfo mem₂ rand none frame₂) (some picture₂) ∧
      ShowsMaze screen.toScreen cells frame₁ picture₁ ∧
      ShowsMaze screen.toScreen cells frame₂ picture₂ := by
  rcases generateMaze_walls mem₁ mem₂ rand with ⟨cells₁, cells₂, hmaze₁, hmaze₂, hwalls⟩
  rcases initGamePicture_shows screen hmaze₁ frame₁ with ⟨picture₁, hrun₁, hshows₁⟩
  rcases initGamePicture_shows screen hmaze₂ frame₂ with ⟨picture₂, hrun₂, hshows₂⟩
  exact ⟨cells₁, picture₁, picture₂, hmaze₁, hrun₁, hrun₂, hshows₁, hshows₂.of_walls hwalls⟩

/-- Runs that leave the same picture began with memories that agree off the maze. -/
theorem SamePicture.pixel_eq {screen : MazeScreen} {rand : Nat → Nat}
    {mem₁ mem₂ : Cells screen.columns screen.rows} {frame₁ frame₂ : screen.Frame}
    (h : SamePicture screen rand mem₁ mem₂ frame₁ frame₂) :
    ∃ cells, generateMaze mem₁ rand = some ⟨100, cells⟩ ∧
      ∀ p ∉ mazePixels screen.raster cells, Raster.pixel frame₁ p = Raster.pixel frame₂ p := by
  rcases h with ⟨picture, hsame₁, hsame₂⟩
  rcases initGamePicture_shows_both screen rand mem₁ mem₂ frame₁ frame₂ with
    ⟨cells, picture₁, picture₂, hmaze, hrun₁, hrun₂, hshows₁, hshows₂⟩
  have heq₁ := Option.some.inj (hrun₁.unique hsame₁)
  have heq₂ := Option.some.inj (hrun₂.unique hsame₂)
  subst heq₁ heq₂
  exact ⟨cells, hmaze, fun p hp => ((hshows₁.pixel_eq_iff hshows₂ p).mp rfl).resolve_left hp⟩

/-- For every screen with room for a cell, all values of {lit}`rand` and all memories of the cells,
two runs of {lit}`init_game` leave the same picture exactly if the memories of their buffers agree
on every pixel that is on no wall of the maze and in no marker. -/
theorem initGame_same_picture_iff (screen : MazeScreen) (rand : Nat → Nat)
    (mem₁ mem₂ : Cells screen.columns screen.rows) (frame₁ frame₂ : screen.Frame) :
    ∃ cells, generateMaze mem₁ rand = some ⟨100, cells⟩ ∧
      (SamePicture screen rand mem₁ mem₂ frame₁ frame₂ ↔
        ∀ p ∉ mazePixels screen.raster cells,
          Raster.pixel frame₁ p = Raster.pixel frame₂ p) := by
  rcases initGamePicture_shows_both screen rand mem₁ mem₂ frame₁ frame₂ with
    ⟨cells, picture₁, picture₂, hmaze, hrun₁, hrun₂, hshows₁, hshows₂⟩
  refine ⟨cells, hmaze, fun h => ?_, fun h => ?_⟩
  · rcases h.pixel_eq with ⟨cells', hmaze', hpixels⟩
    rw [hmaze, Option.some.injEq, Maze.mk.injEq] at hmaze'
    rw [hmaze'.2]
    exact hpixels
  · have hsame : picture₁ = picture₂ := by
      refine Raster.ext_pixel fun p => (hshows₁.pixel_eq_iff hshows₂ p).mpr ?_
      by_cases hp : p ∈ mazePixels screen.raster cells
      · exact Or.inl hp
      · exact Or.inr (h p hp)
    exact ⟨picture₁, hrun₁, hsame ▸ hrun₂⟩

/-- The screen of the game has room for a cell. -/
def gameMazeScreen : MazeScreen where
  toScreen := gameScreen
  width_ge := by decide
  height_ge := by decide

/-- Four pixels from the corner of the first cell, the memory shows through. -/
theorem initGame_shows_memory :
    ¬SamePicture gameMazeScreen (fun _ => 0) (fun _ => ⟨false, false, false, false, false, 0, none⟩)
      (fun _ => ⟨false, false, false, false, false, 0, none⟩) (fun _ => 0) (fun _ => 1) := by
  intro h
  rcases h.pixel_eq with ⟨cells, -, hpixels⟩
  have hbyte := hpixels (⟨3, by decide⟩, ⟨3, by decide⟩) ?_
  · exact absurd (congrFun hbyte ⟨0, by decide⟩) (by simp [Raster.pixel])
  · rintro ((⟨cell, side, -, hside⟩ | hstart) | hgoal)
    · cases side <;> simp only [sidePixels, Set.mem_ofPred_eq] at hside <;> omega
    · simp only [markerPixels, Set.mem_ofPred_eq] at hstart
      omega
    · simp only [markerPixels, Set.mem_ofPred_eq] at hgoal
      omega

end LCOMaze
