import LCOMaze.DataStructures.LinkedList
import LCOMaze.Foundations.ShortestPath
import LCOMaze.Foundations.WhileLoop
import LCOMaze.Game.Maze
import Mathlib.Data.Fintype.List

/-!
# The solver of {lit}`maze.c`

{lit}`get_solution` runs Dijkstra's algorithm over the cells, with a linked list in
place of the priority queue and with the distances and predecessors in the cells
themselves.  {lean}`none` is a fault; a run that returns carries the returned list in
{lit}`solution`, where {lit}`NULL` is the inner {lean}`none`.

Main results:

- Theorem {lit}`solutionNeighbours_spec`: the neighbours collected are the listed
  cells behind an open side.
- Theorem {lit}`relaxAll_cells`: what the relaxation of all neighbours does to a cell.
- Theorem {lit}`writePath_spec`: the solution list holds the chain of predecessors.
-/

namespace LCOMaze

open Foundations

variable {W H : Nat}

/-! ## The translated function -/

/-- {lit}`INT_MAX`. -/
def intMax : Int := 2147483647

/-- The addition of two {lit}`int`s. -/
def intAdd (a b : Int) : Int := (a + b).bmod (2 ^ 32)

/-- The state of the search.  {lit}`sums` records the exact values of all sums
{lit}`dist + 1`, which no variable of the source keeps. -/
structure Solver (W H : Nat) where
  cells : Cells W H
  heap : NodeHeap (CellPtr W H)
  nodes : LinkedList
  sums : List Int
  solution : Option LinkedList

/-- All cells in the order of the nested initialization loops. -/
def rowMajor (W H : Nat) : List (CellPtr W H) :=
  (List.finRange H).flatMap fun i => (List.finRange W).map fun j => ⟨j, i⟩

/-- One iteration of the initialization. -/
def initializeCell (s : Solver W H) (cell : CellPtr W H) : Option (Solver W H) :=
  (linkedListPush s.heap s.nodes cell).map fun (heap, nodes) =>
    { s with
      cells := s.cells.modify cell fun c => { c with dist := intMax, prev := none }
      heap := heap
      nodes := nodes }

/-- Everything before the main loop. -/
def solverInit [NeZero W] [NeZero H] (maze : Maze W H) : Option (Solver W H) :=
  ((rowMajor W H).foldlM initializeCell ⟨maze.cells, .empty, .empty, [], none⟩).map fun s =>
    { s with cells := s.cells.modify CellPtr.origin fun c => { c with dist := 0 } }

/-- The loop that pushes a cell and its predecessors on the solution. -/
def writePath (cells : Cells W H) :
    Nat → NodeHeap (CellPtr W H) → LinkedList → Option (CellPtr W H) →
      Option (NodeHeap (CellPtr W H) × LinkedList)
  | _, heap, solution, none => some (heap, solution)
  | 0, _, _, some _ => none
  | fuel + 1, heap, solution, some currentCell =>
      (linkedListPush heap solution currentCell).bind fun (heap, solution) =>
        writePath cells fuel heap solution (cells currentCell).prev

/-- The check of one neighbour: it exists, the side is open and it is still listed. -/
def checkNeighbour (cells : Cells W H) (heap : NodeHeap (CellPtr W H)) (nodes : LinkedList)
    (currentCell : CellPtr W H) (neighbours : List (CellPtr W H)) (side : Side) :
    Option (List (CellPtr W H)) :=
  match currentCell.neighbour side with
  | none => some neighbours
  | some neighbour =>
      if (cells currentCell).wall side = false then
        (linkedListContains heap nodes neighbour).map fun found =>
          if found then neighbours ++ [neighbour] else neighbours
      else some neighbours

/-- The array {lit}`neighbours` after its four checks. -/
def solutionNeighbours (cells : Cells W H) (heap : NodeHeap (CellPtr W H))
    (nodes : LinkedList) (currentCell : CellPtr W H) : Option (List (CellPtr W H)) :=
  [Side.left, .right, .top, .bottom].foldlM (checkNeighbour cells heap nodes currentCell) []

/-- The update of one neighbour. -/
def relax (currentCell : CellPtr W H) (s : Solver W H) (neighbour : CellPtr W H) :
    Solver W H :=
  let alt := intAdd (s.cells currentCell).dist 1
  let s := { s with sums := s.sums ++ [(s.cells currentCell).dist + 1] }
  if alt < (s.cells neighbour).dist then
    { s with
      cells := s.cells.modify neighbour fun c => { c with dist := alt, prev := some currentCell } }
  else s

/-- One iteration of the main loop. -/
def solverStep (s : Solver W H) : Option (Solver W H) :=
  (getMinimumDistance s.heap (fun cell => (s.cells cell).dist) s.nodes).bind fun minimum =>
    minimum.bind fun currentCell =>
      if currentCell.x.val = W - 1 ∧ currentCell.y.val = H - 1 then
        (writePath s.cells (W * H) s.heap LinkedList.empty (some currentCell)).map
          fun (heap, solution) => { s with heap := heap, solution := some solution }
      else
        (linkedListRemove s.heap s.nodes currentCell).bind fun (heap, nodes) =>
          (solutionNeighbours s.cells heap nodes currentCell).map fun neighbours =>
            neighbours.foldl (relax currentCell) { s with heap := heap, nodes := nodes }

/-- The main loop goes on while nothing was returned and nodes are left. -/
def solverRunning (s : Solver W H) : Bool := s.solution.isNone && decide (0 < s.nodes.size)

/-- {lit}`get_solution`. -/
def getSolution [NeZero W] [NeZero H] (maze : Maze W H) : Option (Solver W H) :=
  (solverInit maze).bind (whileLoop solverRunning solverStep (W * H))

/-! ## Open moves -/

/-- A move across one of the cell's own sides whose flag is cleared. -/
def OpenMove (cells : Cells W H) (p q : CellPtr W H) : Prop :=
  ∃ side, p.neighbour side = some q ∧ (cells p).wall side = false

instance (cells : Cells W H) (p q : CellPtr W H) : Decidable (OpenMove cells p q) :=
  inferInstanceAs (Decidable (∃ side, p.neighbour side = some q ∧ (cells p).wall side = false))

theorem OpenMove.ne {cells : Cells W H} {p q : CellPtr W H} (h : OpenMove cells p q) :
    p ≠ q := by
  rcases h with ⟨side, hside, -⟩
  exact CellPtr.neighbour_ne hside

theorem openMove_congr {cells cells' : Cells W H} {p : CellPtr W H}
    (h : ∀ side, (cells p).wall side = (cells' p).wall side) (q : CellPtr W H) :
    OpenMove cells p q ↔ OpenMove cells' p q := by
  simp only [OpenMove, h]

/-! ## The cells in row-major order -/

theorem mem_rowMajor (p : CellPtr W H) : p ∈ rowMajor W H := by
  rcases p with ⟨x, y⟩
  simp [rowMajor]

theorem rowMajor_nodup : (rowMajor W H).Nodup := by
  rw [rowMajor, List.nodup_flatMap]
  constructor
  · intro i _
    apply List.Nodup.map _ (List.nodup_finRange W)
    intro a b hab
    exact congrArg CellPtr.x hab
  · apply (List.nodup_finRange H).imp
    intro i j hij p hp hp'
    rcases List.mem_map.mp hp with ⟨a, -, rfl⟩
    rcases List.mem_map.mp hp' with ⟨b, -, hb⟩
    exact hij (congrArg CellPtr.y hb).symm

/-- A list of distinct cells is no longer than the maze is large. -/
theorem length_le_of_nodup {path : List (CellPtr W H)} (h : path.Nodup) :
    path.length ≤ W * H := by
  have hle := h.length_le_card
  rwa [CellPtr.card_eq] at hle

/-! ## One call at a time -/

/-- One check adds the neighbour if it is listed and the side is open. -/
theorem checkNeighbour_spec (cells : Cells W H) {heap : NodeHeap (CellPtr W H)}
    {nodes : LinkedList} {entries : List (Nat × CellPtr W H)} (h : IsList heap nodes entries)
    (currentCell : CellPtr W H) (found : List (CellPtr W H)) (side : Side) :
    ∃ next, checkNeighbour cells heap nodes currentCell found side = some next ∧
      ∀ q, q ∈ next ↔ q ∈ found ∨ (currentCell.neighbour side = some q ∧
        (cells currentCell).wall side = false ∧ q ∈ entries.map Prod.snd) := by
  unfold checkNeighbour
  cases hside : currentCell.neighbour side with
  | none => exact ⟨found, rfl, by simp⟩
  | some neighbour =>
      cases hwall : (cells currentCell).wall side with
      | true => exact ⟨found, rfl, by simp⟩
      | false =>
          refine ⟨_, by simp only [h.contains, Option.map_some]; rfl, fun q => ?_⟩
          by_cases hmem : neighbour ∈ entries.map Prod.snd
          · simp only [hmem, decide_true, if_true, List.mem_append, List.mem_singleton,
              Option.some.injEq, true_and]
            constructor
            · intro hq
              rcases hq with hq | rfl
              · exact Or.inl hq
              · exact Or.inr ⟨rfl, hmem⟩
            · intro hq
              rcases hq with hq | ⟨rfl, -⟩
              · exact Or.inl hq
              · exact Or.inr rfl
          · simp only [hmem, decide_false, Bool.false_eq_true, if_false, Option.some.injEq,
              true_and]
            constructor
            · exact Or.inl
            · intro hq
              rcases hq with hq | ⟨rfl, hq⟩
              · exact hq
              · exact absurd hq hmem

/-- The checks of several sides add what each of them adds. -/
theorem checkNeighbour_foldlM (cells : Cells W H) {heap : NodeHeap (CellPtr W H)}
    {nodes : LinkedList} {entries : List (Nat × CellPtr W H)} (h : IsList heap nodes entries)
    (currentCell : CellPtr W H) (sides : List Side) (found : List (CellPtr W H)) :
    ∃ neighbours,
      sides.foldlM (checkNeighbour cells heap nodes currentCell) found = some neighbours ∧
      ∀ q, q ∈ neighbours ↔ q ∈ found ∨ ∃ side ∈ sides, currentCell.neighbour side = some q ∧
        (cells currentCell).wall side = false ∧ q ∈ entries.map Prod.snd := by
  induction sides generalizing found with
  | nil => exact ⟨found, rfl, by simp⟩
  | cons side sides ih =>
      rcases checkNeighbour_spec cells h currentCell found side with ⟨next, hnext, hmem⟩
      rcases ih next with ⟨neighbours, hrun, hall⟩
      refine ⟨neighbours, by rw [List.foldlM_cons, hnext]; exact hrun, fun q => ?_⟩
      rw [hall, hmem, List.exists_mem_cons_iff, or_assoc]

/-- The four checks collect the listed cells behind an open side. -/
theorem solutionNeighbours_spec (cells : Cells W H) {heap : NodeHeap (CellPtr W H)}
    {nodes : LinkedList} {entries : List (Nat × CellPtr W H)} (h : IsList heap nodes entries)
    (currentCell : CellPtr W H) :
    ∃ neighbours, solutionNeighbours cells heap nodes currentCell = some neighbours ∧
      ∀ q, q ∈ neighbours ↔ OpenMove cells currentCell q ∧ q ∈ entries.map Prod.snd := by
  rcases checkNeighbour_foldlM cells h currentCell [Side.left, .right, .top, .bottom] [] with
    ⟨neighbours, hrun, hall⟩
  refine ⟨neighbours, hrun, fun q => ?_⟩
  rw [hall, OpenMove]
  constructor
  · intro hq
    rcases hq with hq | ⟨side, -, hside, hwall, hmem⟩
    · simp at hq
    · exact ⟨⟨side, hside, hwall⟩, hmem⟩
  · intro hq
    rcases hq with ⟨⟨side, hside, hwall⟩, hmem⟩
    exact Or.inr ⟨side, by cases side <;> simp, hside, hwall, hmem⟩

/-- Relaxing touches neither the list nor the result. -/
theorem relaxAll_frame (currentCell : CellPtr W H) (neighbours : List (CellPtr W H))
    (s : Solver W H) :
    (neighbours.foldl (relax currentCell) s).heap = s.heap ∧
      (neighbours.foldl (relax currentCell) s).nodes = s.nodes ∧
      (neighbours.foldl (relax currentCell) s).solution = s.solution := by
  induction neighbours generalizing s with
  | nil => exact ⟨rfl, rfl, rfl⟩
  | cons neighbour neighbours ih =>
      rcases ih (relax currentCell s neighbour) with ⟨hheap, hnodes, hsolution⟩
      rw [List.foldl_cons, hheap, hnodes, hsolution]
      unfold relax
      dsimp only
      split_ifs <;> exact ⟨rfl, rfl, rfl⟩

theorem relax_cells {currentCell neighbour : CellPtr W H} (s : Solver W H)
    (p : CellPtr W H) :
    (relax currentCell s neighbour).cells p =
      if p = neighbour ∧ intAdd (s.cells currentCell).dist 1 < (s.cells p).dist then
        { s.cells p with
          dist := intAdd (s.cells currentCell).dist 1
          prev := some currentCell }
      else s.cells p := by
  unfold relax
  dsimp only
  by_cases hp : p = neighbour
  · subst hp
    split_ifs <;> simp_all [Cells.modify_apply]
  · split_ifs <;> simp_all [Cells.modify_apply]

/-- The cells after all neighbours were relaxed: an improved one carries the new
distance and predecessor, all others are unchanged. -/
theorem relaxAll_cells {currentCell : CellPtr W H} {neighbours : List (CellPtr W H)}
    (hcurrent : currentCell ∉ neighbours) (s : Solver W H) (p : CellPtr W H) :
    (neighbours.foldl (relax currentCell) s).cells p =
      if p ∈ neighbours ∧ intAdd (s.cells currentCell).dist 1 < (s.cells p).dist then
        { s.cells p with
          dist := intAdd (s.cells currentCell).dist 1
          prev := some currentCell }
      else s.cells p := by
  induction neighbours generalizing s with
  | nil => simp
  | cons neighbour neighbours ih =>
      rw [List.mem_cons, not_or] at hcurrent
      rw [List.foldl_cons, ih hcurrent.2]
      have hsame : (relax currentCell s neighbour).cells currentCell = s.cells currentCell := by
        rw [relax_cells, if_neg fun h => hcurrent.1 h.1]
      rw [hsame, relax_cells]
      by_cases hp : p = neighbour
      · subst hp
        by_cases hlt : intAdd (s.cells currentCell).dist 1 < (s.cells p).dist <;> simp [hlt]
      · simp [hp]

/-- The only sum computed is the one of the current cell. -/
theorem relaxAll_sums {currentCell : CellPtr W H} {neighbours : List (CellPtr W H)}
    (hcurrent : currentCell ∉ neighbours) (s : Solver W H) :
    ∀ sum ∈ (neighbours.foldl (relax currentCell) s).sums,
      sum ∈ s.sums ∨ sum = (s.cells currentCell).dist + 1 := by
  induction neighbours generalizing s with
  | nil => exact fun sum hsum => Or.inl hsum
  | cons neighbour neighbours ih =>
      intro sum hsum
      rw [List.mem_cons, not_or] at hcurrent
      have hsame : (relax currentCell s neighbour).cells currentCell = s.cells currentCell := by
        rw [relax_cells, if_neg fun h => hcurrent.1 h.1]
      have hsums : (relax currentCell s neighbour).sums =
          s.sums ++ [(s.cells currentCell).dist + 1] := by
        unfold relax
        dsimp only
        split_ifs <;> rfl
      rcases ih hcurrent.2 (relax currentCell s neighbour) sum hsum with hold | hnew
      · rw [hsums, List.mem_append, List.mem_singleton] at hold
        exact hold
      · rw [hsame] at hnew
        exact Or.inr hnew

/-- The solution list holds the chain of predecessors behind what it held before. -/
theorem writePath_spec {cells : Cells W H} {cell : CellPtr W H} {path : List (CellPtr W H)}
    (hpath : PrevPath (fun p => (cells p).prev) cell path) {heap : NodeHeap (CellPtr W H)}
    {solution : LinkedList} {written : List (CellPtr W H)}
    (hwritten : HoldsCells heap solution written) {fuel : Nat} (hfuel : path.length ≤ fuel) :
    ∃ heap' solution', writePath cells fuel heap solution (some cell) = some (heap', solution') ∧
      HoldsCells heap' solution' (written ++ path) := by
  induction hpath generalizing heap solution written fuel with
  | @root a hprev =>
      rcases hwritten with ⟨entries, hlist, hlast, rfl⟩
      rcases hlist.push hlast a with ⟨heap', solution', hpush, hlist', hlast'⟩
      cases fuel with
      | zero => simp at hfuel
      | succ fuel =>
          refine ⟨heap', solution', ?_, _, hlist', hlast', by simp⟩
          rw [writePath, hpush, Option.bind_some, hprev]
          cases fuel <;> rfl
  | @step a b path hprev _ ih =>
      rcases hwritten with ⟨entries, hlist, hlast, rfl⟩
      rcases hlist.push hlast a with ⟨heap', solution', hpush, hlist', hlast'⟩
      cases fuel with
      | zero => simp at hfuel
      | succ fuel =>
          have hholds : HoldsCells heap' solution' (entries.map Prod.snd ++ [a]) :=
            ⟨_, hlist', hlast', by simp⟩
          rcases ih hholds (by simpa using hfuel) with ⟨heap'', solution'', hrun, hholds'⟩
          refine ⟨heap'', solution'', ?_, by simpa using hholds'⟩
          rw [writePath, hpush, Option.bind_some, hprev]
          exact hrun

/-! ## One iteration -/

/-- What an iteration does that does not return: the current cell leaves the list, and its
listed neighbours behind an open side are relaxed. -/
structure Extracts (current : CellPtr W H) (s t : Solver W H)
    (entries entries' : List (Nat × CellPtr W H)) : Prop where
  list : IsList t.heap t.nodes entries'
  distinct : (entries'.map Prod.snd).Nodup
  listed : ∀ p, p ∈ entries'.map Prod.snd ↔ p ≠ current ∧ p ∈ entries.map Prod.snd
  length : entries'.length + 1 = entries.length
  cells : ∀ p, t.cells p =
    if (OpenMove s.cells current p ∧ p ∈ entries'.map Prod.snd) ∧
        intAdd (s.cells current).dist 1 < (s.cells p).dist then
      { s.cells p with
        dist := intAdd (s.cells current).dist 1
        prev := some current }
    else s.cells p
  sums : ∀ sum ∈ t.sums, sum ∈ s.sums ∨ sum = (s.cells current).dist + 1
  solution : t.solution = s.solution

/-- The wall flags are left alone. -/
theorem Extracts.wall {current : CellPtr W H} {s t : Solver W H}
    {entries entries' : List (Nat × CellPtr W H)} (h : Extracts current s t entries entries')
    (p : CellPtr W H) (side : Side) : (t.cells p).wall side = (s.cells p).wall side := by
  rw [h.cells]
  split_ifs <;> cases side <;> rfl

/-- An iteration whose cell of least distance is not the far corner does so. -/
theorem solverStep_extracts {s : Solver W H} {entries : List (Nat × CellPtr W H)}
    (hlist : IsList s.heap s.nodes entries) (hdistinct : (entries.map Prod.snd).Nodup)
    {current : CellPtr W H}
    (hminimum : getMinimumDistance s.heap (fun cell => (s.cells cell).dist) s.nodes =
      some (some current))
    (hmem : current ∈ entries.map Prod.snd)
    (hcurrent : ¬(current.x.val = W - 1 ∧ current.y.val = H - 1)) :
    ∃ t entries', solverStep s = some t ∧ Extracts current s t entries entries' := by
  rcases List.mem_map.mp hmem with ⟨⟨address, cell⟩, hentry, heq⟩
  dsimp only at heq
  subst heq
  rcases List.append_of_mem hentry with ⟨before, after, rfl⟩
  simp only [List.map_append, List.map_cons, List.nodup_append, List.nodup_cons,
    List.mem_cons] at hdistinct
  have hbefore : ∀ entry ∈ before, entry.2 ≠ cell := by
    intro entry hentry
    exact hdistinct.2.2 entry.2 (List.mem_map_of_mem hentry) cell (Or.inl rfl)
  rcases hlist.remove hbefore with ⟨heap, nodes, hremove, hlist'⟩
  rcases solutionNeighbours_spec s.cells hlist' cell with ⟨neighbours, hcollect, hneighbours⟩
  have hnot : cell ∉ neighbours := by
    intro hcell
    exact ((hneighbours cell).mp hcell).1.ne rfl
  let start : Solver W H := { s with heap := heap, nodes := nodes }
  rcases relaxAll_frame cell neighbours start with ⟨hheap, hnodes, hsolution⟩
  refine ⟨neighbours.foldl (relax cell) start, before ++ after, ?_, ?_, ?_, ?_, ?_, ?_,
    relaxAll_sums hnot start, hsolution⟩
  · simp only [solverStep, hminimum, Option.bind_some, if_neg hcurrent, hremove, hcollect,
      Option.map_some]
    rfl
  · rw [hheap, hnodes]
    exact hlist'
  · rw [List.map_append, List.nodup_append]
    exact ⟨hdistinct.1, hdistinct.2.1.2, fun a ha b hb => hdistinct.2.2 a ha b (Or.inr hb)⟩
  · intro p
    simp only [List.map_append, List.map_cons, List.mem_append, List.mem_cons]
    constructor
    · intro hp
      refine ⟨?_, hp.imp_right Or.inr⟩
      rintro rfl
      rcases hp with hp | hp
      · exact hdistinct.2.2 p hp p (Or.inl rfl) rfl
      · exact hdistinct.2.1.1 hp
    · rintro ⟨hne, hp | hp | hp⟩
      · exact Or.inl hp
      · exact absurd hp hne
      · exact Or.inr hp
  · simp
    omega
  · intro p
    rw [relaxAll_cells hnot start]
    simp only [hneighbours, start]

end LCOMaze
