import LCOMaze.Game.PerfectMaze

/-!
# The mazes that can be generated

Which neighbour an iteration of {lit}`generate_maze` opens is up to {lit}`rand`.  Its
iterations are moves of a depth-first search over the grid, and every such move is made by an
iteration for some value of {lit}`rand`, so the layouts that come out are the search trees of
the grid.

Main results:

- Theorem {lit}`generateMaze_searchTree`: every generated maze is a search tree.
- Theorem {lit}`generateStep_driven`: a value below 4 makes an iteration follow a given move.
- Theorem {lit}`generateLoop_builds`: every search tree is built by some values of {lit}`rand`.
- Theorem {lit}`generated_iff_searchTree`: the layouts that are generated are exactly the
  search trees.
-/

namespace LCOMaze

open Foundations

variable {W H : Nat}

/-! ## Generated mazes are search trees -/

/-- No wall of a generated maze separates two cells of different branches. -/
theorem generateMaze_searchTree [NeZero W] [NeZero H] (mem : Cells W H) (rand : Nat → Nat) :
    ∃ maze, generateMaze mem rand = some maze ∧
      IsSearchTree (gridGraph W H) (passageGraph maze.cells) CellPtr.origin := by
  let Inv : Generator W H → Prop := fun s =>
    Dfs.Descends (gridGraph W H) CellPtr.origin s.search
  have hinit : Inv (generatorInit mem) := by
    simp only [Inv, generatorInit_search]
    exact Dfs.Descends.init _ _
  have hmove : ∀ s t, Inv s → GeneratorMove s t → Inv t := fun _ _ hs h => hs.step h.step
  rcases generateLoop_total mem rand hinit hmove with ⟨s, hrun, hs, hempty⟩
  exact ⟨⟨100, s.cells⟩, by rw [generateMaze, hrun]; rfl,
    hs.isSearchTree (gridGraph_preconnected W H) hempty⟩

/-! ## Steering the generator -/

/-- A cell whose neighbours are all visited collects none. -/
theorem unvisitedNeighbours_eq_nil {cells : Cells W H} {current : CellPtr W H}
    (hdone : ∀ side q, current.neighbour side = some q → (cells q).visited = true) :
    unvisitedNeighbours cells current = [] := by
  rw [List.eq_nil_iff_forall_not_mem]
  intro q hq
  rcases mem_unvisitedNeighbours.mp hq with ⟨side, hside, hfresh⟩
  cases (hdone side q hside).symm.trans hfresh

/-- Every fresh neighbour is chosen for some value below 4, its index. -/
theorem exists_choice {cells : Cells W H} {current fresh : CellPtr W H} {side : Side}
    (hside : current.neighbour side = some fresh) (hfresh : (cells fresh).visited = false) :
    ∃ choice < 4, (unvisitedNeighbours cells current)[
      choice % (unvisitedNeighbours cells current).length]? = some fresh := by
  have hmem := mem_unvisitedNeighbours.mpr ⟨side, hside, hfresh⟩
  rcases List.mem_iff_getElem?.mp hmem with ⟨index, hindex⟩
  have hlt : index < (unvisitedNeighbours cells current).length :=
    (List.getElem?_eq_some_iff.mp hindex).1
  have hfour : (unvisitedNeighbours cells current).length ≤ 4 := List.length_filterMap_le _ _
  refine ⟨index, hlt.trans_le hfour, ?_⟩
  rw [Nat.mod_eq_of_lt hlt]
  exact hindex

/-- Every move of the search is made by an iteration, for some value of {lit}`rand`. -/
theorem generateStep_driven {s : Generator W H} {d : Dfs (CellPtr W H)}
    (h : Dfs.Step (gridGraph W H) s.search d) :
    ∃ t, Driven generateStep Generator.calls (· < 4) s t ∧ GeneratorMove s t ∧ t.search = d := by
  cases h with
  | backtrack current rest hstack hdone htree hseen hrest =>
      have hpop : s.stack.stackPop = (some current, ⟨rest, rest.length, rfl⟩) :=
        Stack.stackPop_of_nodes hstack
      have hvisited : ∀ side q, current.neighbour side = some q → (s.cells q).visited = true :=
        fun side q hside => hdone q ⟨side, hside⟩
      exact ⟨{ s with stack := ⟨rest, rest.length, rfl⟩ },
        Or.inl ⟨rfl, fun _ => generateStep_of_done hpop (unvisitedNeighbours_eq_nil hvisited)⟩,
        .backtrack current rest hstack hvisited rfl rfl,
        Dfs.ext htree.symm hseen.symm hrest.symm⟩
  | extend current fresh rest hstack hadj hfresh htree hseen hrest =>
      have hpop : s.stack.stackPop = (some current, ⟨rest, rest.length, rfl⟩) :=
        Stack.stackPop_of_nodes hstack
      rcases hadj with ⟨side, hside⟩
      have hunvisited : (s.cells fresh).visited = false := Bool.not_eq_true _ ▸ hfresh
      rcases exists_choice hside hunvisited with ⟨choice, hfour, hchosen⟩
      have hread : ∀ rand : Nat → Nat, rand s.calls = choice → generateStep rand s = some
          { cells := (removeWall s.cells current fresh).modify fresh Cell.visit
            stack := ((⟨rest, rest.length, rfl⟩ : Stack _).stackPush current).stackPush fresh
            calls := s.calls + 1 } := by
        intro rand hrand
        exact generateStep_of_chosen hpop (by rw [hrand]; exact hchosen)
      have hcells := congrArg (Cells.modify · fresh Cell.visit)
        (removeWall_of_neighbour s.cells hside)
      refine ⟨_, Or.inr ⟨rfl, choice, hfour, hread⟩,
        .extend current rest side fresh hstack hside hunvisited hcells rfl, ?_⟩
      rw [search_of_extend hside hcells rfl]
      exact Dfs.ext htree.symm hseen.symm hrest.symm

/-- Some values of {lit}`rand` below 4 make the loop build a given search tree. -/
theorem generateLoop_builds [NeZero W] [NeZero H] (mem : Cells W H)
    {T : SimpleGraph (CellPtr W H)} (hT : IsSearchTree (gridGraph W H) T CellPtr.origin) :
    ∃ rand : Nat → Nat, (∀ n, rand n < 4) ∧
      ∃ s, generateLoop rand (2 * (W * H)) (generatorInit mem) = some s ∧
        WallsConsistent s.cells ∧ passageGraph s.cells = T := by
  let Inv : Generator W H → Prop := fun s => WallsConsistent s.cells ∧
    Dfs.Descends (gridGraph W H) CellPtr.origin s.search ∧ s.search.tree ≤ T
  have hinit : Inv (generatorInit mem) := by
    refine ⟨generatorInit_walls mem, ?_⟩
    rw [generatorInit_search]
    exact ⟨Dfs.Descends.init _ _, bot_le⟩
  have hstep : ∀ s : Generator W H, Inv s → decide (0 < s.stack.size) = true →
      ∃ t, Driven generateStep Generator.calls (· < 4) s t ∧ Inv t ∧
        t.iterationsLeft < s.iterationsLeft := by
    rintro s ⟨hwalls, hs, hle⟩ hcond
    have hne : s.search.stack ≠ [] := by
      rcases Stack.size_pos_iff.mp (of_decide_eq_true hcond) with ⟨top, rest, hstack⟩
      exact List.ne_nil_of_mem (hstack ▸ List.mem_cons_self)
    rcases hs.exists_step hT hle hne with ⟨d, hd, hdle⟩
    rcases generateStep_driven hd with ⟨t, hdriven, hmove, rfl⟩
    have hleft := hmove.iterationsLeft
    exact ⟨t, hdriven, ⟨hmove.walls hwalls, hs.step hd, hdle⟩, by omega⟩
  have hfuel : (generatorInit mem).iterationsLeft ≤ 2 * (W * H) := by
    rw [generatorInit_iterationsLeft]
    omega
  rcases whileLoop_chosen 0 (by decide) hstep hinit hfuel with
    ⟨rand, hallowed, s, ⟨hwalls, hs, hle⟩, hstop, hrun⟩
  have hempty : s.search.stack = [] := by
    have hsize := s.stack.size_eq
    simp only [decide_eq_false_iff_not, not_lt, Nat.le_zero] at hstop
    change s.stack.nodes = []
    exact List.length_eq_zero_iff.mp (by omega)
  exact ⟨rand, hallowed, s, hrun rand fun _ _ => rfl, hwalls,
    hs.tree_eq (gridGraph_preconnected W H) hempty hT.isTree hle⟩

/-! ## The layouts that are generated -/

/-- {lit}`generate_maze` leaves the wall flags of the layout. -/
def Generates [NeZero W] [NeZero H] (mem : Cells W H) (rand : Nat → Nat)
    (layout : Cells W H) : Prop :=
  ∃ maze, generateMaze mem rand = some maze ∧
    ∀ p side, (maze.cells p).wall side = (layout p).wall side

/-- Consistent flags are determined by the passages. -/
theorem WallsConsistent.wall_eq {cells layout : Cells W H} (hcells : WallsConsistent cells)
    (hlayout : WallsConsistent layout) (hpassages : passageGraph cells = passageGraph layout)
    (p : CellPtr W H) (side : Side) : (cells p).wall side = (layout p).wall side := by
  cases hside : p.neighbour side with
  | none => rw [hcells.border p side hside, hlayout.border p side hside]
  | some q =>
      have hiff : (cells p).wall side = false ↔ (layout p).wall side = false := by
        rw [← hcells.adj_iff hside, ← hlayout.adj_iff hside, hpassages]
      exact Bool.eq_iff_iff.mpr (by simpa using not_congr hiff)

/-- A wall layout with consistent flags and a closed border is the result of
{lit}`generate_maze` for some sequence of {lit}`rand()` values, if and only if its open
passages are a spanning tree of the grid in which any two neighbours that a wall separates
are an ancestor and a descendant, seen from the first cell.  Values below 4 are enough. -/
theorem generated_iff_searchTree [NeZero W] [NeZero H] (mem layout : Cells W H)
    (hlayout : WallsConsistent layout) :
    ((∃ rand, Generates mem rand layout) ↔
      IsSearchTree (gridGraph W H) (passageGraph layout) CellPtr.origin) ∧
    (IsSearchTree (gridGraph W H) (passageGraph layout) CellPtr.origin →
      ∃ rand, (∀ n, rand n < 4) ∧ Generates mem rand layout) := by
  have hbuild : IsSearchTree (gridGraph W H) (passageGraph layout) CellPtr.origin →
      ∃ rand, (∀ n, rand n < 4) ∧ Generates mem rand layout := by
    intro hT
    rcases generateLoop_builds mem hT with ⟨rand, hallowed, s, hrun, hwalls, hpassages⟩
    exact ⟨rand, hallowed, ⟨100, s.cells⟩, by rw [generateMaze, hrun]; rfl,
      hwalls.wall_eq hlayout hpassages⟩
  refine ⟨⟨?_, ?_⟩, hbuild⟩
  · rintro ⟨rand, maze, hrun, hwall⟩
    rcases generateMaze_searchTree mem rand with ⟨maze', hrun', htree⟩
    cases hrun.symm.trans hrun'
    rwa [← passageGraph_of_wall_eq hwall]
  · intro hT
    rcases hbuild hT with ⟨rand, -, hrand⟩
    exact ⟨rand, hrand⟩

/-- Four cells on one path from the first cell around to the cell below it. -/
def uTurn : Cells 2 2 := fun p =>
  ⟨false, decide (p.y = 0 ∨ p.x = 0), decide (p.y = 1 ∨ p.x = 0), decide (p.x = 0),
    decide (p.x = 1), 0, none⟩

theorem generated_iff_searchTree_uTurn :
    ((∃ rand, Generates uTurn rand uTurn) ↔
      IsSearchTree (gridGraph 2 2) (passageGraph uTurn) CellPtr.origin) ∧
    (IsSearchTree (gridGraph 2 2) (passageGraph uTurn) CellPtr.origin →
      ∃ rand, (∀ n, rand n < 4) ∧ Generates uTurn rand uTurn) :=
  generated_iff_searchTree uTurn uTurn ⟨by decide, by decide⟩

end LCOMaze
