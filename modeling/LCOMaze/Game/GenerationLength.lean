import LCOMaze.Game.PerfectMaze

/-!
# How long the generation takes

Every iteration of {lit}`generate_maze` either visits one cell more, which puts one more on the
stack, or takes one off for good.  So each cell but the first one costs two iterations, and the
first one costs one.

Main results:

- Theorem {lit}`soundHead_of_descends`: what the search invariant says about the stack.
- Theorem {lit}`generationHead_sound`: at the head of every iteration the stack is a path of
  passages from the first cell, and no {lit}`NULL` is met.
- Theorem {lit}`generation_length`: the loop ends after exactly {lit}`2 * W * H - 1` iterations.
-/

namespace LCOMaze

open Foundations

variable {W H : Nat}

/-! ## The head of an iteration -/

/-- The condition {lit}`stack.size > 0`. -/
def generatorRunning (s : Generator W H) : Bool := decide (0 < s.stack.size)

/-- The state at the head of the loop after {lit}`n` iterations. -/
def GenerationHead [NeZero W] [NeZero H] (mem : Cells W H) (rand : Nat → Nat) (n : Nat)
    (s : Generator W H) : Prop :=
  Iterates generatorRunning (generateStep rand) n (generatorInit mem) s

/-- The stack holds, from bottom to top, different visited cells that form a path of open
passages from the first cell; popping it gives a cell and choosing among its fresh neighbours
gives a neighbour. -/
structure SoundHead [NeZero W] [NeZero H] (rand : Nat → Nat) (s : Generator W H) : Prop where
  distinct : s.stack.nodes.reverse.Nodup
  visited : ∀ p ∈ s.stack.nodes.reverse, (s.cells p).visited = true
  passages : s.stack.nodes.reverse.IsChain (passageGraph s.cells).Adj
  start : s.stack.nodes ≠ [] → s.stack.nodes.reverse.head? = some CellPtr.origin
  size_le : s.stack.size ≤ W * H
  pops : 0 < s.stack.size → ∃ current, s.stack.stackPop.1 = some current ∧
    (0 < (unvisitedNeighbours s.cells current).length → ∃ neighbour,
      (unvisitedNeighbours s.cells current)[
        rand s.calls % (unvisitedNeighbours s.cells current).length]? = some neighbour)

section

variable [NeZero W] [NeZero H] {s : Generator W H}

/-- What the invariant of the search says about the stack. -/
theorem soundHead_of_descends (rand : Nat → Nat)
    (h : Dfs.Descends (gridGraph W H) CellPtr.origin s.search) : SoundHead rand s where
  distinct := List.nodup_reverse.mpr h.path.nodup
  visited := fun p hp => h.stacked p (List.mem_reverse.mp hp)
  passages := h.path.isChain_reverse
  start := h.path.head_reverse
  size_le := by
    have hle := h.path.nodup.length_le_card
    rw [CellPtr.card_eq] at hle
    rw [s.stack.size_eq]
    exact hle
  pops := by
    intro hpos
    rcases Stack.size_pos_iff.mp hpos with ⟨current, rest, hstack⟩
    refine ⟨current, by rw [Stack.stackPop_of_nodes hstack], fun hcount => ?_⟩
    exact ⟨_, List.getElem?_eq_getElem (Nat.mod_lt (rand s.calls) hcount)⟩

/-- An iteration keeps the invariant of the search and uses up one iteration. -/
theorem generateStep_descends (rand : Nat → Nat) {t : Generator W H}
    (h : Dfs.Descends (gridGraph W H) CellPtr.origin s.search)
    (hrunning : generatorRunning s = true) (hstep : generateStep rand s = some t) :
    Dfs.Descends (gridGraph W H) CellPtr.origin t.search ∧
      t.iterationsLeft + 1 = s.iterationsLeft := by
  rcases generateStep_spec rand (of_decide_eq_true hrunning) with ⟨t', ht', hmove⟩
  cases hstep.symm.trans ht'
  exact ⟨h.step hmove.step, hmove.iterationsLeft⟩

/-- When the stack is empty, nothing is left to do: all cells are visited. -/
theorem iterationsLeft_of_stopped (h : Dfs.Descends (gridGraph W H) CellPtr.origin s.search)
    (hstop : generatorRunning s = false) : s.iterationsLeft = 0 := by
  have hsize : s.stack.size = 0 := by
    have hnot := of_decide_eq_false hstop
    omega
  have hempty : s.search.stack = [] := by
    have hlength := s.stack.size_eq
    exact List.length_eq_zero_iff.mp (hlength.symm.trans hsize)
  have hseen := h.seen_eq_univ (gridGraph_preconnected W H) hempty
  have hcount : unvisitedCount s.cells = 0 := by
    rw [unvisitedCount, Finset.card_eq_zero, Finset.filter_eq_empty_iff]
    intro p _ hfresh
    have hp : p ∈ s.search.seen := hseen ▸ Set.mem_univ p
    exact absurd (hp.symm.trans hfresh) (by decide)
  rw [Generator.iterationsLeft, hcount, hsize]

/-- The search invariant holds at the start. -/
theorem generatorInit_descends (mem : Cells W H) :
    Dfs.Descends (gridGraph W H) CellPtr.origin (generatorInit mem).search := by
  rw [generatorInit_search]
  exact Dfs.Descends.init _ _

/-- At the head of every iteration the stack is a path of passages from the first cell, and no
{lit}`NULL` is met. -/
theorem generationHead_sound (mem : Cells W H) (rand : Nat → Nat) {n : Nat}
    (h : GenerationHead mem rand n s) : SoundHead rand s := by
  apply soundHead_of_descends rand
  exact h.invariant (fun s t hs hrunning hstep =>
    (generateStep_descends rand hs hrunning hstep).1) (generatorInit_descends mem)

/-- The loop ends after exactly {lit}`2 * W * H - 1` iterations. -/
theorem generationHead_last (mem : Cells W H) (rand : Nat → Nat) :
    ∃ last : Generator W H, GenerationHead mem rand (2 * (W * H) - 1) last ∧
      generatorRunning last = false := by
  let Inv : Generator W H → Prop := fun s =>
    Dfs.Descends (gridGraph W H) CellPtr.origin s.search
  have hinit : Inv (generatorInit mem) := generatorInit_descends mem
  have hstep : ∀ s : Generator W H, Inv s → generatorRunning s = true →
      ∃ t, generateStep rand s = some t ∧ Inv t ∧ t.iterationsLeft < s.iterationsLeft := by
    intro s hs hrunning
    rcases generateStep_spec rand (of_decide_eq_true hrunning) with ⟨t, ht, -⟩
    rcases generateStep_descends rand hs hrunning ht with ⟨hinv, hone⟩
    exact ⟨t, ht, hinv, by omega⟩
  rcases exists_iterates hstep hinit with ⟨n, last, -, hrun, hlast, hstop⟩
  have hcount := hrun.measure
    (fun s t hs hrunning hbody => generateStep_descends rand hs hrunning hbody) hinit
  rw [iterationsLeft_of_stopped hlast hstop, Nat.zero_add, generatorInit_iterationsLeft] at hcount
  exact ⟨last, hcount ▸ hrun, hstop⟩

/-- What is left behind after these iterations is the maze. -/
theorem generateMaze_of_last {mem : Cells W H} {rand : Nat → Nat}
    (h : GenerationHead mem rand (2 * (W * H) - 1) s) (hstop : generatorRunning s = false) :
    generateMaze mem rand = some ⟨100, s.cells⟩ := by
  have hrun : generateLoop rand (2 * (W * H)) (generatorInit mem) = some s :=
    h.whileLoop_eq hstop (Nat.sub_le _ _)
  rw [generateMaze, hrun]
  rfl

end

/-- For all sizes and all values of {lit}`rand`, the loop of {lit}`generate_maze` ends after
exactly {lit}`2 * W * H - 1` iterations, and at the head of each of them the stack is a path of
open passages over different visited cells from the first cell, so that {lit}`stack_pop` and the
choice of a neighbour never give {lit}`NULL`. -/
theorem generation_length [NeZero W] [NeZero H] (mem : Cells W H) (rand : Nat → Nat) :
    (∃ last, GenerationHead mem rand (2 * (W * H) - 1) last ∧ last.stack.size = 0 ∧
      generateMaze mem rand = some ⟨100, last.cells⟩) ∧
    ∀ n s, GenerationHead mem rand n s → SoundHead rand s := by
  refine ⟨?_, fun n s h => generationHead_sound mem rand h⟩
  rcases generationHead_last mem rand with ⟨last, hlast, hstop⟩
  have hsize : last.stack.size = 0 := by
    have hnot := of_decide_eq_false hstop
    omega
  exact ⟨last, hlast, hsize, generateMaze_of_last hlast hstop⟩

/-- Memory for four cells. -/
def fourCells : Cells 2 2 := fun _ => ⟨false, false, false, false, false, 0, none⟩

/-- Four cells take seven iterations. -/
theorem generation_length_fourCells :
    (∃ last, GenerationHead fourCells id (2 * (2 * 2) - 1) last ∧ last.stack.size = 0 ∧
      generateMaze fourCells id = some ⟨100, last.cells⟩) ∧
    ∀ n s, GenerationHead fourCells id n s → SoundHead id s :=
  generation_length fourCells id

end LCOMaze
