import LCOMaze.Foundations.DepthFirstSearch
import LCOMaze.Game.GenerateMaze

/-!
# Generated mazes are perfect

The opened passages form a tree on the visited cells throughout the search, and a
visited cell that has left the stack has no unvisited neighbour.  When the stack
is empty, the visited cells are therefore the whole grid and the passages are a
spanning tree of it.  The two flags of every border agree in every iteration and
the outer border is never opened.

Main results:

- Theorem {lit}`GeneratorMove.step`: every iteration is a move of a depth-first search
  over the grid.
- Theorem {lit}`GeneratorInvariant.move`: both moves of the loop keep the
  invariant.
- Theorem {lit}`generateMaze_spec`: every maze that is generated comes from a
  state in which the invariant holds and the stack is empty.
- Theorem {lit}`generateMaze_perfect`: all cells are visited and the open
  passages are a spanning tree.
-/

namespace LCOMaze

open Foundations

variable {W H : Nat}

/-! ## The invariant of the search -/

/-- The visited cells. -/
def visitedCells (cells : Cells W H) : Set (CellPtr W H) :=
  {p | (cells p).visited = true}

/-- The two flags of every border agree, and the outer border is closed. -/
structure WallsConsistent (cells : Cells W H) : Prop where
  facing : ∀ p side q, p.neighbour side = some q →
    (cells p).wall side = (cells q).wall side.opposite
  border : ∀ p side, p.neighbour side = none → (cells p).wall side = true

/-- What holds at the head of every iteration of {lit}`generate_maze`. -/
structure GeneratorInvariant [NeZero W] [NeZero H] (s : Generator W H) : Prop where
  walls : WallsConsistent s.cells
  tree : TreeOn (passageGraph s.cells) (visitedCells s.cells) CellPtr.origin
  stacked : ∀ p ∈ s.stack.nodes, (s.cells p).visited = true
  explored : ∀ p, (s.cells p).visited = true → p ∉ s.stack.nodes →
    ∀ side q, p.neighbour side = some q → (s.cells q).visited = true

/-! ## Flags and passages -/

/-- With consistent flags, a cleared flag alone decides a passage. -/
theorem WallsConsistent.adj_iff {cells : Cells W H} (hwalls : WallsConsistent cells)
    {p q : CellPtr W H} {side : Side} (h : p.neighbour side = some q) :
    (passageGraph cells).Adj p q ↔ (cells p).wall side = false := by
  rw [passageGraph_adj_iff h, ← hwalls.facing p side q h, and_self_iff]

/-- Clearing both flags of a border keeps all flags consistent. -/
theorem WallsConsistent.clearFacing {cells : Cells W H} (hwalls : WallsConsistent cells)
    {p q : CellPtr W H} {side : Side} (h : p.neighbour side = some q) :
    WallsConsistent (cells.clearFacing p q side) where
  facing := by
    intro a t b hab
    rw [Cells.clearFacing_wall cells h, Cells.clearFacing_wall cells h,
      hwalls.facing a t b hab]
    have hba := CellPtr.neighbour_comm.mp hab
    have hiff : ((a = p ∧ t = side) ∨ (a = q ∧ t = side.opposite)) ↔
        ((b = p ∧ t.opposite = side) ∨ (b = q ∧ t.opposite = side.opposite)) := by
      constructor
      · rintro (⟨rfl, rfl⟩ | ⟨rfl, rfl⟩)
        · exact Or.inr ⟨Option.some.inj (hab.symm.trans h), rfl⟩
        · have hbp := hab.symm.trans (CellPtr.neighbour_comm.mp h)
          exact Or.inl ⟨Option.some.inj hbp, Side.opposite_opposite side⟩
      · rintro (⟨rfl, ht⟩ | ⟨rfl, ht⟩)
        · rw [ht] at hba
          refine Or.inr ⟨Option.some.inj (hba.symm.trans h), ?_⟩
          rw [← ht, Side.opposite_opposite]
        · rw [ht] at hba
          have hap := hba.symm.trans (CellPtr.neighbour_comm.mp h)
          refine Or.inl ⟨Option.some.inj hap, ?_⟩
          rw [← Side.opposite_opposite t, ht, Side.opposite_opposite]
    simp only [hiff]
  border := by
    intro a t hab
    rw [Cells.clearFacing_wall cells h, if_neg, hwalls.border a t hab]
    rintro (⟨rfl, rfl⟩ | ⟨rfl, rfl⟩)
    · rw [h] at hab
      contradiction
    · rw [CellPtr.neighbour_comm.mp h] at hab
      contradiction

@[simp]
theorem Cell.visit_wall (cell : Cell W H) (side : Side) :
    cell.visit.wall side = cell.wall side := by
  cases side <;> rfl

/-- Marking a cell as visited changes no flag. -/
theorem Cells.modify_visit_wall (cells : Cells W H) (q p : CellPtr W H) (side : Side) :
    (cells.modify q Cell.visit p).wall side = (cells p).wall side := by
  rw [Cells.modify_apply]
  split_ifs with h
  · rw [h, Cell.visit_wall]
  · rfl

/-- Consistency of the flags depends on the flags only. -/
theorem WallsConsistent.of_wall_eq {cells cells' : Cells W H}
    (hwalls : WallsConsistent cells)
    (h : ∀ p side, (cells' p).wall side = (cells p).wall side) :
    WallsConsistent cells' where
  facing := by
    intro p side q hq
    rw [h, h]
    exact hwalls.facing p side q hq
  border := by
    intro p side hp
    rw [h]
    exact hwalls.border p side hp

/-- The passages depend on the flags only. -/
theorem passageGraph_of_wall_eq {cells cells' : Cells W H}
    (h : ∀ p side, (cells' p).wall side = (cells p).wall side) :
    passageGraph cells' = passageGraph cells := by
  ext p q
  simp only [passageGraph, h]

/-! ## The generator as a depth-first search -/

/-- The search over the grid that a state of the generation loop represents. -/
def Generator.search (s : Generator W H) : Dfs (CellPtr W H) where
  tree := passageGraph s.cells
  seen := visitedCells s.cells
  stack := s.stack.nodes

/-- Opening a wall towards a neighbour discovers it. -/
theorem search_of_extend {s t : Generator W H} {current fresh : CellPtr W H} {side : Side}
    {rest : List (CellPtr W H)} (hside : current.neighbour side = some fresh)
    (hcells : t.cells = (s.cells.clearFacing current fresh side).modify fresh Cell.visit)
    (hrest : t.stack.nodes = rest) :
    t.search = ⟨passageGraph s.cells ⊔ SimpleGraph.edge current fresh,
      insert fresh (visitedCells s.cells), rest⟩ := by
  have hwall : ∀ p d, (t.cells p).wall d = (s.cells.clearFacing current fresh side p).wall d := by
    intro p d
    rw [hcells, Cells.modify_visit_wall]
  apply Dfs.ext
  · exact (passageGraph_of_wall_eq hwall).trans (passageGraph_clearFacing s.cells hside)
  · ext p
    change (t.cells p).visited = true ↔ p = fresh ∨ (s.cells p).visited = true
    rw [hcells, Cells.modify_apply]
    split_ifs with hp <;> simp [Cell.visit, Cells.clearFacing_visited, hp]
  · exact hrest

/-- Every iteration is a move of that search. -/
theorem GeneratorMove.step {s t : Generator W H} (h : GeneratorMove s t) :
    Dfs.Step (gridGraph W H) s.search t.search := by
  cases h with
  | backtrack current rest hstack hdone hcells hrest =>
      refine .backtrack current rest hstack ?_ (congrArg passageGraph hcells)
        (congrArg visitedCells hcells) hrest
      rintro q ⟨side, hside⟩
      exact hdone side q hside
  | extend current rest side fresh hstack hside hfresh hcells hrest =>
      rw [search_of_extend hside hcells hrest]
      refine .extend current fresh rest hstack ⟨side, hside⟩ ?_ rfl rfl rfl
      simp [Generator.search, visitedCells, hfresh]

/-- Before the first iteration all walls are up and only the corner is visited. -/
theorem generatorInit_search [NeZero W] [NeZero H] (mem : Cells W H) :
    (generatorInit mem).search = Dfs.init CellPtr.origin := by
  have hwalled : ∀ (p : CellPtr W H) side, (mem p).init.wall side = true := by
    intro p side
    cases side <;> rfl
  have hclosed : passageGraph (generatorInit mem).cells = ⊥ := by
    ext p q
    simp [passageGraph, generatorInit, Cells.modify_visit_wall, hwalled]
  have hvisited : visitedCells (generatorInit mem).cells = {CellPtr.origin} := by
    ext p
    by_cases hp : p = CellPtr.origin <;>
      simp [visitedCells, generatorInit, Cells.modify_apply, Cell.visit, Cell.init, hp]
  rw [Generator.search, hclosed, hvisited]
  rfl

/-! ## The invariant holds throughout -/

/-- The invariant is that of the search and the consistency of the flags. -/
theorem generatorInvariant_iff [NeZero W] [NeZero H] {s : Generator W H} :
    GeneratorInvariant s ↔
      WallsConsistent s.cells ∧ Dfs.Explores (gridGraph W H) CellPtr.origin s.search := by
  constructor
  · intro h
    refine ⟨h.walls, h.tree, h.stacked, ?_⟩
    rintro p hp hnot q ⟨side, hside⟩
    exact h.explored p hp hnot side q hside
  · rintro ⟨hwalls, h⟩
    exact ⟨hwalls, h.tree, h.stacked,
      fun p hp hnot side q hside => h.explored p hp hnot q ⟨side, hside⟩⟩

/-- At the start all flags are set. -/
theorem generatorInit_walls [NeZero W] [NeZero H] (mem : Cells W H) :
    WallsConsistent (generatorInit mem).cells where
  facing := by
    intro p side q _
    simp only [generatorInit, Cells.modify_visit_wall]
    cases side <;> rfl
  border := by
    intro p side _
    simp only [generatorInit, Cells.modify_visit_wall]
    cases side <;> rfl

/-- Both moves of the generation loop keep the flags consistent. -/
theorem GeneratorMove.walls {s t : Generator W H} (h : GeneratorMove s t)
    (hwalls : WallsConsistent s.cells) : WallsConsistent t.cells := by
  cases h with
  | backtrack current rest hstack hdone hcells hrest => exact hcells ▸ hwalls
  | extend current rest side fresh hstack hside hfresh hcells hrest =>
      refine (hwalls.clearFacing hside).of_wall_eq fun p d => ?_
      rw [hcells, Cells.modify_visit_wall]

theorem GeneratorInvariant.init [NeZero W] [NeZero H] (mem : Cells W H) :
    GeneratorInvariant (generatorInit mem) := by
  rw [generatorInvariant_iff, generatorInit_search]
  exact ⟨generatorInit_walls mem, Dfs.Explores.init _ _⟩

/-- Both moves of the generation loop keep the invariant. -/
theorem GeneratorInvariant.move [NeZero W] [NeZero H] {s t : Generator W H}
    (hs : GeneratorInvariant s) (hmove : GeneratorMove s t) : GeneratorInvariant t := by
  rw [generatorInvariant_iff] at hs ⊢
  exact ⟨hmove.walls hs.1, hs.2.step hmove.step⟩

/-- At the end of the search the opened passages span the whole grid. -/
theorem GeneratorInvariant.visitedCells_eq_univ [NeZero W] [NeZero H] {s : Generator W H}
    (hs : GeneratorInvariant s) (hempty : s.stack.nodes = []) :
    visitedCells s.cells = Set.univ :=
  (generatorInvariant_iff.mp hs).2.seen_eq_univ (gridGraph_preconnected W H) hempty

/-! ## The generated maze -/

/-- {lit}`generate_maze` returns, its flags are consistent, every cell is visited
and the passages form a tree. -/
theorem generateMaze_spec [NeZero W] [NeZero H] (mem : Cells W H) (rand : Nat → Nat) :
    ∃ maze, generateMaze mem rand = some maze ∧ maze.cellSize = 100 ∧
      WallsConsistent maze.cells ∧ visitedCells maze.cells = Set.univ ∧
      (passageGraph maze.cells).IsTree := by
  obtain ⟨s, hrun, hs, hempty⟩ := generateLoop_total mem rand
    (GeneratorInvariant.init mem) (fun _ _ hs hmove => hs.move hmove)
  have huniv := hs.visitedCells_eq_univ hempty
  refine ⟨⟨100, s.cells⟩, by rw [generateMaze, hrun]; rfl, rfl, hs.walls, huniv, ?_⟩
  have htree := hs.tree
  rw [huniv] at htree
  exact htree.isTree

/-- Every generated maze is perfect: all cells are visited, and the open passages
form a spanning tree of the grid, so that exactly one simple path of open passages
joins any two cells. -/
theorem generateMaze_perfect [NeZero W] [NeZero H] (mem : Cells W H) (rand : Nat → Nat) :
    ∃ maze, generateMaze mem rand = some maze ∧
      (∀ p, (maze.cells p).visited = true) ∧
      (passageGraph maze.cells).Connected ∧
      (passageGraph maze.cells).IsAcyclic ∧
      (passageGraph maze.cells).edgeFinset.card = W * H - 1 ∧
      ∀ p q, ∃! path : (passageGraph maze.cells).Walk p q, path.IsPath := by
  obtain ⟨maze, hrun, -, -, hvisited, htree⟩ := generateMaze_spec mem rand
  refine ⟨maze, hrun, ?_, htree.connected, htree.isAcyclic, ?_, htree.existsUnique_path⟩
  · intro p
    have hp : p ∈ visitedCells maze.cells := hvisited ▸ Set.mem_univ p
    exact hp
  · have hcard := htree.card_edgeFinset
    rw [CellPtr.card_eq] at hcard
    omega

/-- A maze of three by two cells on memory full of garbage. -/
theorem generateMaze_perfect_three_by_two :
    ∃ maze : Maze 3 2,
      generateMaze (fun _ => ⟨true, false, true, false, true, 7, none⟩) (fun n => n) = some maze ∧
      (∀ p, (maze.cells p).visited = true) ∧
      (passageGraph maze.cells).Connected ∧
      (passageGraph maze.cells).IsAcyclic ∧
      (passageGraph maze.cells).edgeFinset.card = 3 * 2 - 1 ∧
      ∀ p q, ∃! path : (passageGraph maze.cells).Walk p q, path.IsPath :=
  generateMaze_perfect _ _

end LCOMaze
