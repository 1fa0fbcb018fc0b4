import LCOMaze.Foundations.WhileLoop
import LCOMaze.DataStructures.Stack
import LCOMaze.Game.Maze
import Mathlib.Algebra.BigOperators.Group.Finset.Basic

/-!
# The maze generator of {lit}`maze.c`

{lit}`generate_maze` walls every cell, then runs a randomized depth-first search
with an explicit stack.  The fresh cells come from {lit}`malloc`, so the model
starts from arbitrary memory; {lit}`rand` is an arbitrary stream of non-negative
values, read through the number of calls made so far.

Main results:

- Theorem {lit}`generateStep_spec`: an iteration on a nonempty stack never
  dereferences {lit}`NULL` and either drops a cell whose neighbours are all
  visited or opens one wall towards a fresh neighbour.
- Theorem {lit}`generateLoop_total`: any invariant of these two moves holds of the
  cells that the loop returns.
-/

namespace LCOMaze

open Foundations

variable {W H : Nat}

/-! ## The translated generator -/

/-- The initialization of one freshly allocated cell; {lit}`dist` and
{lit}`prev` keep whatever the memory held. -/
def Cell.init (cell : Cell W H) : Cell W H :=
  { cell with
    visited := false
    topWall := true
    bottomWall := true
    leftWall := true
    rightWall := true }

/-- The assignment {lit}`cell->visited = 1`. -/
def Cell.visit (cell : Cell W H) : Cell W H :=
  { cell with visited := true }

/-- The variables of the generation loop. -/
structure Generator (W H : Nat) where
  cells : Cells W H
  stack : Stack (CellPtr W H)
  calls : Nat

/-- The array {lit}`neighbours` up to {lit}`neighbours_count`: the unvisited
neighbours from left, right, top and bottom. -/
def unvisitedNeighbours (cells : Cells W H) (current : CellPtr W H) :
    List (CellPtr W H) :=
  [Side.left, .right, .top, .bottom].filterMap fun side =>
    (current.neighbour side).filter fun q => !(cells q).visited

/-- Remove the wall between the current cell and the chosen neighbour, found by
comparing coordinates. -/
def removeWall (cells : Cells W H) (current neighbour : CellPtr W H) : Cells W H :=
  if (neighbour.x : Int) = current.x - 1 then
    cells.clearFacing current neighbour .left
  else if (neighbour.x : Int) = current.x + 1 then
    cells.clearFacing current neighbour .right
  else if (neighbour.y : Int) = current.y - 1 then
    cells.clearFacing current neighbour .top
  else if (neighbour.y : Int) = current.y + 1 then
    cells.clearFacing current neighbour .bottom
  else cells

/-- One iteration of the generation loop; {lean}`none` is a dereference of
{lit}`NULL`, from {lit}`stack_pop` or from the array of neighbours. -/
def generateStep (rand : Nat → Nat) (s : Generator W H) : Option (Generator W H) :=
  match s.stack.stackPop with
  | (none, _) => none
  | (some current, stack) =>
      let neighbours := unvisitedNeighbours s.cells current
      if 0 < neighbours.length then
        match neighbours[rand s.calls % neighbours.length]? with
        | none => none
        | some neighbour =>
            some
              { cells := (removeWall s.cells current neighbour).modify neighbour Cell.visit
                stack := (stack.stackPush current).stackPush neighbour
                calls := s.calls + 1 }
      else some { s with stack := stack }

/-- The state in which the generation loop starts. -/
def generatorInit [NeZero W] [NeZero H] (mem : Cells W H) : Generator W H where
  cells := Cells.modify (fun p => (mem p).init) CellPtr.origin Cell.visit
  stack := Stack.empty.stackPush CellPtr.origin
  calls := 0

/-- The loop {lit}`while (stack.size > 0)`. -/
def generateLoop (rand : Nat → Nat) (fuel : Nat) (s : Generator W H) :
    Option (Generator W H) :=
  whileLoop (fun s => decide (0 < s.stack.size)) (generateStep rand) fuel s

/-- {lit}`generate_maze` for a maze of {lit}`W` by {lit}`H` cells, on freshly
allocated cells {lit}`mem`. -/
def generateMaze [NeZero W] [NeZero H] (mem : Cells W H) (rand : Nat → Nat) :
    Option (Maze W H) :=
  (generateLoop rand (2 * (W * H)) (generatorInit mem)).map fun s =>
    { cellSize := 100, cells := s.cells }

/-! ## What one iteration does -/

/-- The two moves of the generation loop. -/
inductive GeneratorMove (s t : Generator W H) : Prop
  | backtrack (current : CellPtr W H) (rest : List (CellPtr W H))
      (hstack : s.stack.nodes = current :: rest)
      (hdone : ∀ side q, current.neighbour side = some q → (s.cells q).visited = true)
      (hcells : t.cells = s.cells)
      (hrest : t.stack.nodes = rest)
  | extend (current : CellPtr W H) (rest : List (CellPtr W H))
      (side : Side) (fresh : CellPtr W H)
      (hstack : s.stack.nodes = current :: rest)
      (hside : current.neighbour side = some fresh)
      (hfresh : (s.cells fresh).visited = false)
      (hcells : t.cells =
        (s.cells.clearFacing current fresh side).modify fresh Cell.visit)
      (hrest : t.stack.nodes = fresh :: current :: rest)

/-- The collected neighbours are exactly the unvisited ones. -/
theorem mem_unvisitedNeighbours {cells : Cells W H} {current q : CellPtr W H} :
    q ∈ unvisitedNeighbours cells current ↔
      ∃ side, current.neighbour side = some q ∧ (cells q).visited = false := by
  simp only [unvisitedNeighbours, List.mem_filterMap, Option.filter_eq_some_iff,
    Bool.not_eq_true']
  constructor
  · rintro ⟨side, -, h⟩
    exact ⟨side, h⟩
  · rintro ⟨side, h⟩
    exact ⟨side, by cases side <;> simp, h⟩

/-- The coordinate comparisons find the side of the chosen neighbour. -/
theorem removeWall_of_neighbour (cells : Cells W H) {current q : CellPtr W H} {side : Side}
    (h : current.neighbour side = some q) :
    removeWall cells current q = cells.clearFacing current q side := by
  rw [CellPtr.neighbour_eq_some_iff] at h
  cases side <;> simp only [CellPtr.columnAcross, CellPtr.rowAcross] at h <;>
    simp only [removeWall] <;> split_ifs <;> first | rfl | omega

/-- An iteration that finds unvisited neighbours moves to the chosen one. -/
theorem generateStep_of_chosen {rand : Nat → Nat} {s : Generator W H}
    {current q : CellPtr W H} {stack : Stack (CellPtr W H)}
    (hpop : s.stack.stackPop = (some current, stack))
    (hchosen : (unvisitedNeighbours s.cells current)[
      rand s.calls % (unvisitedNeighbours s.cells current).length]? = some q) :
    generateStep rand s = some
      { cells := (removeWall s.cells current q).modify q Cell.visit
        stack := (stack.stackPush current).stackPush q
        calls := s.calls + 1 } := by
  have hcount : 0 < (unvisitedNeighbours s.cells current).length := by
    obtain ⟨hindex, -⟩ := List.getElem?_eq_some_iff.mp hchosen
    omega
  simp only [generateStep, hpop, hcount, if_true, hchosen]

/-- An iteration without unvisited neighbours only pops. -/
theorem generateStep_of_done {rand : Nat → Nat} {s : Generator W H}
    {current : CellPtr W H} {stack : Stack (CellPtr W H)}
    (hpop : s.stack.stackPop = (some current, stack))
    (hdone : unvisitedNeighbours s.cells current = []) :
    generateStep rand s = some { s with stack := stack } := by
  simp [generateStep, hpop, hdone]

/-- On a nonempty stack an iteration succeeds and makes one of the two moves. -/
theorem generateStep_spec (rand : Nat → Nat) {s : Generator W H}
    (h : 0 < s.stack.size) :
    ∃ t, generateStep rand s = some t ∧ GeneratorMove s t := by
  obtain ⟨current, rest, hstack⟩ := Stack.size_pos_iff.mp h
  have hpop := Stack.stackPop_of_nodes hstack
  by_cases hcount : 0 < (unvisitedNeighbours s.cells current).length
  · -- some neighbour is chosen, whatever `rand` returns
    have hindex := Nat.mod_lt (rand s.calls) hcount
    obtain ⟨side, hside, hfresh⟩ :=
      mem_unvisitedNeighbours.mp (List.getElem_mem hindex)
    refine ⟨_, generateStep_of_chosen hpop (List.getElem?_eq_getElem hindex), ?_⟩
    exact .extend current rest side _ hstack hside hfresh
      (by rw [removeWall_of_neighbour _ hside]) rfl
  · have hnone : unvisitedNeighbours s.cells current = [] :=
      List.length_eq_zero_iff.mp (by omega)
    refine ⟨_, generateStep_of_done hpop hnone, ?_⟩
    refine .backtrack current rest hstack (fun side q hq => ?_) rfl rfl
    by_contra hvisited
    have hmem := mem_unvisitedNeighbours.mpr ⟨side, hq, by simpa using hvisited⟩
    simp [hnone] at hmem

/-! ## The whole loop -/

/-- The number of cells that the search has not reached. -/
def unvisitedCount (cells : Cells W H) : Nat :=
  (Finset.univ.filter fun p => (cells p).visited = false).card

/-- Visiting a fresh cell leaves one unvisited cell less. -/
theorem unvisitedCount_visit {cells : Cells W H} {q : CellPtr W H}
    (hq : (cells q).visited = false) :
    unvisitedCount (cells.modify q Cell.visit) + 1 = unvisitedCount cells := by
  have herase : (Finset.univ.filter fun p => (cells.modify q Cell.visit p).visited = false) =
      (Finset.univ.filter fun p => (cells p).visited = false).erase q := by
    ext p
    by_cases hpq : p = q <;> simp [Cells.modify_apply, Cell.visit, hpq]
  rw [unvisitedCount, unvisitedCount, herase, Finset.card_erase_add_one]
  simpa using hq

/-- Opening a border visits no cell. -/
@[simp]
theorem unvisitedCount_clearFacing (cells : Cells W H) (p q : CellPtr W H) (side : Side) :
    unvisitedCount (cells.clearFacing p q side) = unvisitedCount cells := by
  simp [unvisitedCount, Cells.clearFacing_visited]

/-- Twice the unvisited cells plus the height of the stack: the iterations left. -/
def Generator.iterationsLeft (s : Generator W H) : Nat :=
  2 * unvisitedCount s.cells + s.stack.size

/-- Every move uses up exactly one iteration. -/
theorem GeneratorMove.iterationsLeft {s t : Generator W H} (h : GeneratorMove s t) :
    t.iterationsLeft + 1 = s.iterationsLeft := by
  simp only [Generator.iterationsLeft, s.stack.size_eq, t.stack.size_eq]
  cases h with
  | backtrack current rest hstack _ hcells hrest =>
      rw [hcells, hstack, hrest, List.length_cons]
      omega
  | extend current rest side fresh hstack _ hfresh hcells hrest =>
      have hfresh' : (s.cells.clearFacing current fresh side fresh).visited = false := by
        rw [Cells.clearFacing_visited]
        exact hfresh
      have hcount := unvisitedCount_visit hfresh'
      rw [unvisitedCount_clearFacing] at hcount
      rw [hcells, hstack, hrest]
      simp only [List.length_cons]
      omega

/-- At the start, only the corner is visited and stacked. -/
theorem generatorInit_iterationsLeft [NeZero W] [NeZero H] (mem : Cells W H) :
    (generatorInit mem).iterationsLeft = 2 * (W * H) - 1 := by
  let walled : Cells W H := fun p => (mem p).init
  have hwalled : unvisitedCount walled = W * H := by
    simp [unvisitedCount, walled, Cell.init, CellPtr.card_eq]
  have hfresh : (walled CellPtr.origin).visited = false := rfl
  have hvisit : unvisitedCount (walled.modify CellPtr.origin Cell.visit) + 1 =
      unvisitedCount walled := unvisitedCount_visit hfresh
  change 2 * unvisitedCount (walled.modify CellPtr.origin Cell.visit) + 1 = _
  omega

/-- The generation loop returns, and every property kept by its two moves holds
when the stack has become empty. -/
theorem generateLoop_total [NeZero W] [NeZero H] {Inv : Generator W H → Prop}
    (mem : Cells W H) (rand : Nat → Nat) (hinit : Inv (generatorInit mem))
    (hmove : ∀ s t, Inv s → GeneratorMove s t → Inv t) :
    ∃ s, generateLoop rand (2 * (W * H)) (generatorInit mem) = some s ∧ Inv s ∧
      s.stack.nodes = [] := by
  have hstep : ∀ s : Generator W H, Inv s → decide (0 < s.stack.size) = true →
      ∃ t, generateStep rand s = some t ∧ Inv t ∧ t.iterationsLeft < s.iterationsLeft := by
    intro s hs hcond
    obtain ⟨t, ht, hst⟩ := generateStep_spec rand (of_decide_eq_true hcond)
    have hleft := hst.iterationsLeft
    exact ⟨t, ht, hmove s t hs hst, by omega⟩
  have hfuel : (generatorInit mem).iterationsLeft ≤ 2 * (W * H) := by
    rw [generatorInit_iterationsLeft]
    omega
  obtain ⟨s, hrun, hs, hcond⟩ := whileLoop_total hstep hinit hfuel
  refine ⟨s, hrun, hs, ?_⟩
  have hsize := s.stack.size_eq
  simp only [decide_eq_false_iff_not, not_lt, Nat.le_zero] at hcond
  exact List.length_eq_zero_iff.mp (by omega)

end LCOMaze
