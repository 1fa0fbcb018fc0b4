import LCOMaze.Game.Unsolvable

/-!
# The solver comes to an end

The search is followed with a record of the cells that {lit}`get_minimum_distance` has given,
the newest first.  Distances wrap around as they do in the source, and the walls are arbitrary:
the order of extraction alone keeps the predecessors free of cycles.

Main results:

- Theorem {lit}`ExtractedBefore.cons`: one more extraction leaves the order of the others alone.
- Theorem {lit}`SearchRecord.step`: one iteration keeps what is known of the record.
- Theorem {lit}`getSolution_terminates`: the loop runs at most {lit}`W * H` times on a list
  that holds the cells not yet extracted, and the final walk meets no cell twice.
-/

namespace LCOMaze

open Foundations

variable {W H : Nat}

/-! ## The record of a run -/

/-- {lit}`current_cell` at the head of an iteration; {lean}`none` is a fault or {lit}`NULL`. -/
def Solver.currentCell (s : Solver W H) : Option (CellPtr W H) :=
  (getMinimumDistance s.heap (fun cell => (s.cells cell).dist) s.nodes).join

/-- The state at the head of the loop after these cells were extracted, the newest first. -/
def SolverRun [NeZero W] [NeZero H] (maze : Maze W H) (extracted : List (CellPtr W H))
    (s : Solver W H) : Prop :=
  ∃ start, solverInit maze = some start ∧
    Records solverRunning solverStep Solver.currentCell start extracted s

/-- The cell {lit}`q` is extracted, and if {lit}`p` is extracted as well then {lit}`q` was so
earlier. -/
def ExtractedBefore (extracted : List (CellPtr W H)) (q p : CellPtr W H) : Prop :=
  q ∈ extracted ∧ ∀ newer older, extracted = newer ++ p :: older → q ∈ older

/-- What an iteration finds: a list of as many nodes as its {lit}`size` says, which holds each
cell not yet extracted once, and in it a cell of least distance. -/
structure SearchHead (extracted : List (CellPtr W H)) (s : Solver W H) : Prop where
  list : ∃ entries, IsList s.heap s.nodes entries ∧ (entries.map Prod.snd).Nodup ∧
    ∀ p, p ∈ entries.map Prod.snd ↔ p ∉ extracted
  minimum : ∃ current, getMinimumDistance s.heap (fun cell => (s.cells cell).dist) s.nodes =
    some (some current) ∧ current ∉ extracted

/-- What is known of the record, also after the return. -/
structure SearchRecord [NeZero W] [NeZero H] (extracted : List (CellPtr W H))
    (s : Solver W H) : Prop where
  distinct : extracted.Nodup
  earlier : ∀ p q, (s.cells p).prev = some q → ExtractedBefore extracted q p
  searching : s.solution = none → ∃ entries, SolverSafe s entries ∧
    ∀ p, p ∈ entries.map Prod.snd ↔ p ∉ extracted
  returned : s.solution ≠ none → WalkWritten s

/-! ## The order of extraction -/

/-- One more extraction leaves the order of the others alone. -/
theorem ExtractedBefore.cons {extracted : List (CellPtr W H)} {p q : CellPtr W H}
    (h : ExtractedBefore extracted q p) (current : CellPtr W H) :
    ExtractedBefore (current :: extracted) q p := by
  refine ⟨List.mem_cons_of_mem current h.1, fun newer older hsplit => ?_⟩
  cases newer with
  | nil =>
      rw [List.nil_append, List.cons.injEq] at hsplit
      rw [← hsplit.2]
      exact h.1
  | cons first newer =>
      rw [List.cons_append, List.cons.injEq] at hsplit
      exact h.2 newer older hsplit.2

/-- The cell extracted last comes before all cells that are still listed. -/
theorem extractedBefore_of_not_mem {extracted : List (CellPtr W H)} {current p : CellPtr W H}
    (hp : p ∉ current :: extracted) : ExtractedBefore (current :: extracted) current p := by
  refine ⟨List.mem_cons_self, fun newer older hsplit => ?_⟩
  rw [hsplit] at hp
  exact absurd (List.mem_append_right newer List.mem_cons_self) hp

/-! ## One iteration -/

theorem Solver.currentCell_eq_some {s : Solver W H} {current : CellPtr W H} :
    s.currentCell = some current ↔
      getMinimumDistance s.heap (fun cell => (s.cells cell).dist) s.nodes =
        some (some current) := by
  rw [Solver.currentCell, Option.join_eq_some_iff]

section

variable [NeZero W] [NeZero H] {s t : Solver W H} {extracted : List (CellPtr W H)}

/-- The cell of least distance is one that was not extracted before. -/
theorem SearchRecord.head (h : SearchRecord extracted s) (hnone : s.solution = none) :
    SearchHead extracted s := by
  rcases h.searching hnone with ⟨entries, hsafe, hlisted⟩
  rcases hsafe.solverStep_cases with ⟨current, -, hminimum, hmem, -⟩
  exact ⟨⟨entries, hsafe.list, hsafe.distinct, hlisted⟩,
    current, hminimum, (hlisted current).mp hmem⟩

/-- Nothing is known to be extracted before the first iteration. -/
theorem solverInit_record (maze : Maze W H) :
    ∃ start, solverInit maze = some start ∧ SearchRecord [] start := by
  rcases solverInit_spec maze with ⟨start, entries, hinit, hlist, hcells, hstart, -, hsolution⟩
  rcases solverInit_invariant maze with ⟨start', entries', hinit', hinvariant⟩
  cases hinit.symm.trans hinit'
  have hsame : entries = entries' := hlist.chain.unique hinvariant.list.chain
  subst hsame
  refine ⟨start, hinit, List.nodup_nil, ?_, fun _ => ⟨entries, hinvariant.safe, ?_⟩,
    fun hsome => absurd hsolution hsome⟩
  · intro p q hprev
    rw [hstart] at hprev
    cases hprev
  · intro p
    rw [hcells]
    exact iff_of_true (mem_rowMajor p) List.not_mem_nil

/-- One iteration keeps what is known of the record. -/
theorem SearchRecord.step (h : SearchRecord extracted s) {current : CellPtr W H}
    (hrunning : solverRunning s = true) (hcurrent : s.currentCell = some current)
    (hrun : solverStep s = some t) : SearchRecord (current :: extracted) t := by
  rcases solverRunning_iff.mp hrunning with ⟨hnone, -⟩
  rcases h.searching hnone with ⟨entries, hsafe, hlisted⟩
  rcases hsafe.solverStep_cases with ⟨least, t', hleast, hmem, hrun', hcases⟩
  cases (Solver.currentCell_eq_some.mp hcurrent).symm.trans hleast
  cases hrun.symm.trans hrun'
  have hnew : current ∉ extracted := (hlisted current).mp hmem
  have hdistinct : (current :: extracted).Nodup := List.nodup_cons.mpr ⟨hnew, h.distinct⟩
  rcases hcases with ⟨hcells, hwritten⟩ | ⟨entries', hstep, hsafe'⟩
  · refine ⟨hdistinct, ?_, fun hnone' => absurd hnone' hwritten.solution_ne, fun _ => hwritten⟩
    intro p q hprev
    rw [hcells] at hprev
    exact (h.earlier p q hprev).cons current
  · have hlisted' : ∀ p, p ∈ entries'.map Prod.snd ↔ p ∉ current :: extracted := by
      intro p
      rw [hstep.listed, hlisted, List.mem_cons, not_or]
    refine ⟨hdistinct, ?_, fun _ => ⟨entries', hsafe', hlisted'⟩,
      fun hsome => absurd hsafe'.solution hsome⟩
    intro p q hprev
    rw [hstep.cells] at hprev
    split_ifs at hprev with himproved
    · -- the cell extracted now becomes the predecessor of a listed one
      cases hprev
      exact extractedBefore_of_not_mem ((hlisted' p).mp himproved.1.2)
    · exact (h.earlier p q hprev).cons current

/-- No iteration is stuck. -/
theorem SearchRecord.proceeds (h : SearchRecord extracted s)
    (hrunning : solverRunning s = true) :
    ∃ current t, s.currentCell = some current ∧ solverStep s = some t := by
  rcases solverRunning_iff.mp hrunning with ⟨hnone, -⟩
  rcases h.searching hnone with ⟨entries, hsafe, -⟩
  rcases hsafe.solverStep_cases with ⟨current, t, hminimum, -, hrun, -⟩
  exact ⟨current, t, Solver.currentCell_eq_some.mpr hminimum, hrun⟩

/-- The loop stops for no other reason than the return: the far corner stays listed. -/
theorem SearchRecord.walkWritten (h : SearchRecord extracted s)
    (hstop : solverRunning s = false) : WalkWritten s := by
  apply h.returned
  intro hnone
  rcases h.searching hnone with ⟨entries, hsafe, -⟩
  cases hstop.symm.trans (solverRunning_of_goal_mem hsafe.list hsafe.goal_mem hnone)

/-! ## The whole run -/

/-- What is known of the record holds in every run. -/
theorem SolverRun.record {maze : Maze W H} (h : SolverRun maze extracted s) :
    SearchRecord extracted s := by
  rcases h with ⟨start, hinit, hrecords⟩
  rcases solverInit_record maze with ⟨start', hinit', hstart⟩
  cases hinit.symm.trans hinit'
  exact hrecords.invariant hstart fun _ _ _ _ hrecord hrunning hcurrent hrun =>
    hrecord.step hrunning hcurrent hrun

/-- The loop runs once for each cell at most. -/
theorem SolverRun.length_le {maze : Maze W H} (h : SolverRun maze extracted s) :
    extracted.length ≤ W * H :=
  length_le_of_nodup h.record.distinct

/-- The run comes to an end, and {lit}`get_solution` returns its last state. -/
theorem exists_solverRun (maze : Maze W H) :
    ∃ extracted last, SolverRun maze extracted last ∧ solverRunning last = false ∧
      getSolution maze = some last := by
  rcases solverInit_record maze with ⟨start, hinit, -⟩
  have hbound : ∀ extracted s,
      Records solverRunning solverStep Solver.currentCell start extracted s →
        extracted.length ≤ W * H := by
    intro extracted s h
    exact SolverRun.length_le ⟨start, hinit, h⟩
  have hstep : ∀ extracted s,
      Records solverRunning solverStep Solver.currentCell start extracted s →
        solverRunning s = true →
        ∃ current t, s.currentCell = some current ∧ solverStep s = some t := by
    intro extracted s h hrunning
    have hrun : SolverRun maze extracted s := ⟨start, hinit, h⟩
    exact hrun.record.proceeds hrunning
  rcases Records.exists_last hbound hstep with ⟨extracted, last, hrecords, hstop⟩
  refine ⟨extracted, last, ⟨start, hinit, hrecords⟩, hstop, ?_⟩
  rw [getSolution, hinit]
  exact hrecords.iterates.whileLoop_eq hstop (hbound extracted last hrecords)

end

/-- In every maze, with any flags, the loop of {lit}`get_solution` runs at most {lit}`W * H`
times.  At the head of each iteration {lit}`size` is the number of nodes in the list, which
holds the cells not yet extracted, and {lit}`get_minimum_distance` gives one of them.  Every
{lit}`prev` is a cell extracted earlier, and the walk over {lit}`prev` from the far corner
ends without meeting a cell twice. -/
theorem getSolution_terminates [NeZero W] [NeZero H] (maze : Maze W H) :
    (∃ extracted last, SolverRun maze extracted last ∧ getSolution maze = some last ∧
      WalkWritten last) ∧
    ∀ extracted s, SolverRun maze extracted s → extracted.length ≤ W * H ∧
      (∀ p q, (s.cells p).prev = some q → ExtractedBefore extracted q p) ∧
      (s.solution = none → SearchHead extracted s) := by
  constructor
  · rcases exists_solverRun maze with ⟨extracted, last, hrun, hstop, hsolution⟩
    exact ⟨extracted, last, hrun, hsolution, hrun.record.walkWritten hstop⟩
  · intro extracted s hrun
    exact ⟨hrun.length_le, hrun.record.earlier, hrun.record.head⟩

theorem getSolution_terminates_walled :
    (∃ extracted last, SolverRun walledMaze extracted last ∧
      getSolution walledMaze = some last ∧ WalkWritten last) ∧
    ∀ extracted s, SolverRun walledMaze extracted s → extracted.length ≤ 2 * 1 ∧
      (∀ p q, (s.cells p).prev = some q → ExtractedBefore extracted q p) ∧
      (s.solution = none → SearchHead extracted s) :=
  getSolution_terminates walledMaze

end LCOMaze
