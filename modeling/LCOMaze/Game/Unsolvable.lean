import LCOMaze.Game.SolutionCorrect

/-!
# Mazes without a solution

The header of {lit}`get_solution` promises {lit}`NULL` if no solution is found.  All
cells are in the list of nodes from the beginning, those that cannot be reached
included, and the test for the far corner asks for its coordinates only.  So the far
corner leaves the list in the end, at whatever distance it has, and a list is returned
in every maze.

Main results:

- Theorem {lit}`SolverSafe.solverStep_cases`: whatever the distances are, an iteration writes a
  solution or extracts a cell, and the predecessors stay a forest.
- Theorem {lit}`getSolution_returns`: {lit}`get_solution` never returns {lit}`NULL`.
- Theorem {lit}`reports_unsolvable_iff`: so it keeps its promise where the far corner
  can be reached, and nowhere else.
-/

namespace LCOMaze

open Foundations

variable {W H : Nat}

/-! ## The invariant for all mazes -/

/-- What holds before every iteration that has not yet returned, also after the
distances have wrapped around. -/
structure SolverSafe [NeZero W] [NeZero H] (s : Solver W H)
    (entries : List (Nat × CellPtr W H)) : Prop where
  list : IsList s.heap s.nodes entries
  distinct : (entries.map Prod.snd).Nodup
  goal_mem : CellPtr.goal ∈ entries.map Prod.snd
  forest : PrevForest {p | p ∉ entries.map Prod.snd} fun p => (s.cells p).prev
  solution : s.solution = none

section

variable [NeZero W] [NeZero H] {s : Solver W H} {entries : List (Nat × CellPtr W H)}

/-- The invariant of the solvable case contains this one. -/
theorem SolverInvariant.safe {maze : Cells W H} (h : SolverInvariant maze s entries) :
    SolverSafe s entries where
  list := h.list
  distinct := h.distinct
  goal_mem := h.goal_mem
  forest := h.valid.prevForest
  solution := h.solution

/-- Extracting any cell but the far corner keeps it. -/
theorem SolverSafe.extract {current : CellPtr W H} {t : Solver W H}
    {entries' : List (Nat × CellPtr W H)} (h : SolverSafe s entries)
    (hcurrent : current ≠ CellPtr.goal) (hstep : Extracts current s t entries entries') :
    SolverSafe t entries' where
  list := hstep.list
  distinct := hstep.distinct
  goal_mem := (hstep.listed CellPtr.goal).mpr ⟨hcurrent.symm, h.goal_mem⟩
  forest := by
    have hsettled : {p | p ∉ entries'.map Prod.snd} =
        insert current {p | p ∉ entries.map Prod.snd} := by
      ext p
      change p ∉ entries'.map Prod.snd ↔ p = current ∨ p ∉ entries.map Prod.snd
      rw [hstep.listed, not_and_or, not_not]
    rw [hsettled]
    apply h.forest.settle
    intro p
    rw [hstep.cells, ← hsettled]
    split_ifs with himproved
    · exact Or.inr ⟨fun hnot => hnot himproved.1.2, rfl⟩
    · exact Or.inl rfl
  solution := hstep.solution.trans h.solution

/-- The walk from the far corner over {lit}`prev`, which meets no cell twice, is what the
solution holds. -/
def WalkWritten (s : Solver W H) : Prop :=
  ∃ solution path, s.solution = some solution ∧
    PrevPath (fun p => (s.cells p).prev) CellPtr.goal path ∧ path.Nodup ∧
    HoldsCells s.heap solution path

theorem WalkWritten.solution_ne (h : WalkWritten s) : s.solution ≠ none := by
  rcases h with ⟨solution, -, hsome, -⟩
  simp [hsome]

/-- Once the far corner is the cell of least distance, a solution is written: the
predecessors come to an end, and no cell is met twice on the way. -/
theorem SolverSafe.finish (h : SolverSafe s entries)
    (hminimum : getMinimumDistance s.heap (fun cell => (s.cells cell).dist) s.nodes =
      some (some CellPtr.goal)) :
    ∃ t, solverStep s = some t ∧ t.cells = s.cells ∧ WalkWritten t := by
  rcases h.forest CellPtr.goal with ⟨path, hpath, hnodup, -⟩
  have hempty : HoldsCells s.heap LinkedList.empty ([] : List (CellPtr W H)) :=
    ⟨[], IsList.empty _, fun hne => absurd rfl hne, rfl⟩
  rcases writePath_spec hpath hempty (length_le_of_nodup hnodup) with
    ⟨heap, solution, hrun, hholds⟩
  refine ⟨{ s with heap := heap, solution := some solution }, ?_, rfl,
    solution, path, rfl, hpath, hnodup, hholds⟩
  simp only [solverStep, hminimum, Option.bind_some]
  rw [if_pos (CellPtr.eq_goal_iff.mp rfl), hrun]
  rfl

/-- What an iteration does: the cell of least distance is the far corner and the walk over the
predecessors is written, or it is another cell and leaves the list. -/
theorem SolverSafe.solverStep_cases (h : SolverSafe s entries) :
    ∃ current t, getMinimumDistance s.heap (fun cell => (s.cells cell).dist) s.nodes =
        some (some current) ∧ current ∈ entries.map Prod.snd ∧ solverStep s = some t ∧
      ((t.cells = s.cells ∧ WalkWritten t) ∨
        ∃ entries', Extracts current s t entries entries' ∧ SolverSafe t entries') := by
  rcases h.list.exists_minimum (fun cell => (s.cells cell).dist) h.goal_mem with
    ⟨current, hminimum, hmem, -⟩
  by_cases hcurrent : current = CellPtr.goal
  · rcases h.finish (hcurrent ▸ hminimum) with ⟨t, hrun, hcells, hwritten⟩
    exact ⟨current, t, hminimum, hmem, hrun, Or.inl ⟨hcells, hwritten⟩⟩
  · have hcorner : ¬(current.x.val = W - 1 ∧ current.y.val = H - 1) :=
      fun hcorner => hcurrent (CellPtr.eq_goal_iff.mpr hcorner)
    rcases solverStep_extracts h.list h.distinct hminimum hmem hcorner with
      ⟨t, entries', hrun, hstep⟩
    exact ⟨current, t, hminimum, hmem, hrun, Or.inr ⟨entries', hstep, h.extract hcurrent hstep⟩⟩

/-- One iteration extracts a cell, or it writes a solution. -/
theorem SolverSafe.iterate (h : SolverSafe s entries) :
    ∃ t, solverStep s = some t ∧ (WalkWritten t ∨
      ∃ entries', SolverSafe t entries' ∧ entries'.length < entries.length) := by
  rcases h.solverStep_cases with ⟨current, t, -, -, hrun, ⟨-, hwritten⟩ | ⟨entries', hstep, ht⟩⟩
  · exact ⟨t, hrun, Or.inl hwritten⟩
  · have hshorter := hstep.length
    exact ⟨t, hrun, Or.inr ⟨entries', ht, by omega⟩⟩

/-- In every maze, with any flags, {lit}`get_solution` returns a list. -/
theorem getSolution_returns (maze : Maze W H) :
    ∃ s solution, getSolution maze = some s ∧ s.solution = some solution := by
  rcases solverInit_invariant maze with ⟨start, entries, hinit, hstart⟩
  have hlength : entries.length ≤ W * H := by
    have hnodup := length_le_of_nodup hstart.distinct
    rwa [List.length_map] at hnodup
  rcases solverLoop_total (fun s hs => WalkWritten.solution_ne hs)
      (fun s entries hs => ⟨hs.list, hs.goal_mem, hs.solution⟩)
      (fun s entries hs => hs.iterate) hstart.safe hlength with
    ⟨s, hrun, solution, -, hsolution, -⟩
  exact ⟨s, solution, by rw [getSolution, hinit]; exact hrun, hsolution⟩

end

/-! ## Reporting that there is no solution -/

/-- The far corner can be reached from the first cell. -/
def Solvable [NeZero W] [NeZero H] (cells : Cells W H) : Prop :=
  ∃ n, Steps (OpenMove cells) CellPtr.origin n CellPtr.goal

/-- If the far corner cannot be reached, {lit}`NULL` is returned and no sum
{lit}`dist + 1` was taken of a distance {lit}`INT_MAX`. -/
def ReportsUnsolvable [NeZero W] [NeZero H] (maze : Maze W H) : Prop :=
  ¬Solvable maze.cells →
    ∃ s, getSolution maze = some s ∧ s.solution = none ∧ ∀ sum ∈ s.sums, sum ≤ intMax

/-- {lit}`get_solution` returns a list in every maze.  It reports no maze as unsolvable:
what its header says holds only where the far corner can be reached. -/
theorem reports_unsolvable_iff [NeZero W] [NeZero H] (maze : Maze W H) :
    (∃ s solution, getSolution maze = some s ∧ s.solution = some solution) ∧
      (ReportsUnsolvable maze ↔ Solvable maze.cells) := by
  refine ⟨getSolution_returns maze, ?_⟩
  constructor
  · intro hreports
    by_contra hunsolvable
    rcases hreports hunsolvable with ⟨s, hrun, hnone, -⟩
    rcases getSolution_returns maze with ⟨s', solution, hrun', hsome⟩
    cases hrun.symm.trans hrun'
    cases hnone.symm.trans hsome
  · exact fun hsolvable hunsolvable => absurd hsolvable hunsolvable

/-- Two cells with a wall between them. -/
def walledMaze : Maze 2 1 := ⟨100, fun _ => ⟨true, true, true, true, true, 0, none⟩⟩

/-- No cell of it can be left. -/
theorem walledMaze_unsolvable : ¬Solvable walledMaze.cells := by
  rintro ⟨n, hwalk⟩
  have hclosed : ∀ p q, ¬OpenMove walledMaze.cells p q := by decide
  generalize hgoal : (CellPtr.goal : CellPtr 2 1) = p at hwalk
  cases hwalk with
  | refl => exact absurd hgoal (by decide)
  | tail _ hmove => exact hclosed _ _ hmove

theorem reports_unsolvable_iff_walled :
    (∃ s solution, getSolution walledMaze = some s ∧ s.solution = some solution) ∧
      (ReportsUnsolvable walledMaze ↔ Solvable walledMaze.cells) :=
  reports_unsolvable_iff walledMaze

/-- The solver answers there with a list of one cell, the far corner. -/
theorem reports_unsolvable_not : ¬ReportsUnsolvable walledMaze := by
  intro hreports
  have hlist : (getSolution walledMaze).map (fun s => s.solution.map LinkedList.size) =
      some (some 1) := by decide
  rcases hreports walledMaze_unsolvable with ⟨s, hrun, hnone, -⟩
  rw [hrun, Option.map_some, hnone] at hlist
  cases hlist

end LCOMaze
