import LCOMaze.Game.GetSolution
import LCOMaze.Game.PerfectMaze

/-!
# The solution is a shortest path

The state of the solver is read as a {lit}`Foundations.Search`: the settled cells are
those that left the list, and a distance of {lit}`INT_MAX` is the label {lit}`⊤`.

Main results:

- Theorem {lit}`SolverInvariant.iterate`: one iteration settles a cell of least distance
  and keeps the invariant, or it writes the solution.
- Theorem {lit}`getSolution_spec`: the solution of a solvable maze is a shortest path.
- Theorem {lit}`getSolution_shortest`: the same, and on a generated maze it is the only
  simple path.
-/

namespace LCOMaze

open Foundations

variable {W H : Nat}

/-! ## Distances as labels -/

/-- The label that a distance stands for. -/
def distLabel (dist : Int) : ℕ∞ := if dist = intMax then ⊤ else dist.toNat

@[simp]
theorem distLabel_intMax : distLabel intMax = ⊤ := if_pos rfl

theorem distLabel_eq_top_iff {dist : Int} : distLabel dist = ⊤ ↔ dist = intMax := by
  unfold distLabel
  split_ifs with h
  · simp [h]
  · simp [h]

/-- Labels are ordered as the distances are. -/
theorem distLabel_le_iff {a b : Int} (ha : 0 ≤ a) (ha' : a ≤ intMax) (hb : 0 ≤ b)
    (hb' : b ≤ intMax) : distLabel a ≤ distLabel b ↔ a ≤ b := by
  unfold distLabel
  split_ifs with hamax hbmax hbmax
  · simp [hamax, hbmax]
  · simp only [top_le_iff, ENat.natCast_ne_top, false_iff]
    omega
  · simp only [le_top, true_iff]
    omega
  · rw [Nat.cast_le]
    omega

theorem distLabel_lt_iff {a b : Int} (ha : 0 ≤ a) (ha' : a ≤ intMax) (hb : 0 ≤ b)
    (hb' : b ≤ intMax) : distLabel a < distLabel b ↔ a < b := by
  rw [← not_le, distLabel_le_iff hb hb' ha ha', not_le]

/-- Adding one to a distance far from {lit}`INT_MAX` adds one to its label. -/
theorem distLabel_intAdd {dist : Int} (h : 0 ≤ dist) (hlt : dist + 1 < intMax) :
    intAdd dist 1 = dist + 1 ∧ distLabel (intAdd dist 1) = distLabel dist + 1 := by
  have hadd : intAdd dist 1 = dist + 1 := by
    unfold intMax at hlt
    rw [intAdd, Int.bmod_def]
    omega
  refine ⟨hadd, ?_⟩
  rw [hadd, distLabel, distLabel, if_neg (by omega), if_neg (by omega)]
  have htoNat : (dist + 1).toNat = dist.toNat + 1 := by omega
  rw [htoNat]
  push_cast
  rfl

/-! ## The invariant -/

/-- The search that the cells and the list of remaining nodes represent. -/
def searchOf (cells : Cells W H) (entries : List (Nat × CellPtr W H)) :
    Search (CellPtr W H) where
  settled := {p | p ∉ entries.map Prod.snd}
  label := fun p => distLabel (cells p).dist
  prev := fun p => (cells p).prev

/-- What holds before every iteration that has not yet returned. -/
structure SolverInvariant [NeZero W] [NeZero H] (maze : Cells W H) (s : Solver W H)
    (entries : List (Nat × CellPtr W H)) : Prop where
  list : IsList s.heap s.nodes entries
  distinct : (entries.map Prod.snd).Nodup
  walls : ∀ p side, (s.cells p).wall side = (maze p).wall side
  dist_nonneg : ∀ p, 0 ≤ (s.cells p).dist
  dist_le : ∀ p, (s.cells p).dist ≤ intMax
  goal_mem : CellPtr.goal ∈ entries.map Prod.snd
  valid : (searchOf s.cells entries).Valid (OpenMove maze) CellPtr.origin
  bounded : (searchOf s.cells entries).LabelsBounded (W * H - entries.length)
  sums : ∀ sum ∈ s.sums, sum ≤ intMax
  solution : s.solution = none

/-- A path of open moves from the far corner back to the first cell, as short as
any walk between them. -/
structure IsSolution [NeZero W] [NeZero H] (maze : Cells W H) (path : List (CellPtr W H)) :
    Prop where
  head : path.head? = some CellPtr.goal
  last : path.getLast? = some CellPtr.origin
  nodup : path.Nodup
  moves : path.IsChain (fun p q => OpenMove maze q p)
  shortest : ∃ n, path.length = n + 1 ∧ Steps (OpenMove maze) CellPtr.origin n CellPtr.goal ∧
    ∀ m, Steps (OpenMove maze) CellPtr.origin m CellPtr.goal → n ≤ m

/-- The solver has returned such a path without overflow. -/
def Solved [NeZero W] [NeZero H] (maze : Cells W H) (s : Solver W H) : Prop :=
  ∃ solution path, s.solution = some solution ∧ HoldsCells s.heap solution path ∧
    IsSolution maze path ∧ ∀ sum ∈ s.sums, sum ≤ intMax

section

variable [NeZero W] [NeZero H] {maze : Cells W H} {s : Solver W H}
  {entries : List (Nat × CellPtr W H)}

omit [NeZero W] [NeZero H] in
/-- The initialization loop pushes every cell and clears its search fields. -/
theorem initializeCell_foldlM (cells : List (CellPtr W H)) (s : Solver W H)
    (hlist : IsList s.heap s.nodes entries) (hlast : LastCorrect s.nodes entries) :
    ∃ t added, cells.foldlM initializeCell s = some t ∧
      IsList t.heap t.nodes (entries ++ added) ∧ added.map Prod.snd = cells ∧
      (∀ p, t.cells p =
        if p ∈ cells then { s.cells p with dist := intMax, prev := none } else s.cells p) ∧
      t.sums = s.sums ∧ t.solution = s.solution := by
  induction cells generalizing s entries with
  | nil => exact ⟨s, [], rfl, by simpa using hlist, rfl, by simp, rfl, rfl⟩
  | cons cell cells ih =>
      rcases hlist.push hlast cell with ⟨heap, nodes, hpush, hlist', hlast'⟩
      let next : Solver W H :=
        { s with
          cells := s.cells.modify cell fun c => { c with dist := intMax, prev := none }
          heap := heap
          nodes := nodes }
      have hstep : initializeCell s cell = some next := by
        rw [initializeCell, hpush]
        rfl
      rcases ih next hlist' hlast' with ⟨t, added, hrun, ht, hadded, hcells, hsums, hsolution⟩
      refine ⟨t, (s.heap.fresh, cell) :: added, by rw [List.foldlM_cons, hstep]; exact hrun,
        by simpa using ht, by simp [hadded], fun p => ?_, hsums, hsolution⟩
      rw [hcells]
      simp only [next, Cells.modify_apply, List.mem_cons]
      by_cases hp : p = cell
      · subst hp
        simp
      · simp [hp]

/-- The state in which the main loop starts: all cells are listed, none has a predecessor,
and only the first one has a distance. -/
theorem solverInit_spec (maze : Maze W H) :
    ∃ s entries, solverInit maze = some s ∧ IsList s.heap s.nodes entries ∧
      entries.map Prod.snd = rowMajor W H ∧
      (∀ p, s.cells p = { maze.cells p with
        dist := if p = CellPtr.origin then 0 else intMax
        prev := none }) ∧
      s.sums = [] ∧ s.solution = none := by
  rcases initializeCell_foldlM (rowMajor W H) ⟨maze.cells, .empty, .empty, [], none⟩
      (IsList.empty _) (fun h => absurd rfl h) with
    ⟨t, entries, hrun, hlist, hcells, hinit, hsums, hsolution⟩
  rw [List.nil_append] at hlist
  refine ⟨{ t with cells := t.cells.modify CellPtr.origin fun c => { c with dist := 0 } }, entries,
    by rw [solverInit, hrun]; rfl, hlist, hcells, fun p => ?_, hsums, hsolution⟩
  simp only [Cells.modify_apply, hinit, mem_rowMajor, if_true]
  split_ifs with hp
  · rw [hp]
  · rfl

/-- The invariant holds there. -/
theorem solverInit_invariant (maze : Maze W H) :
    ∃ s entries, solverInit maze = some s ∧ SolverInvariant maze.cells s entries := by
  rcases solverInit_spec maze with ⟨s, entries, hrun, hlist, hentries, hcells, hsums, hsolution⟩
  have hlabel : ∀ p, distLabel (s.cells p).dist = if p = CellPtr.origin then 0 else ⊤ := by
    intro p
    rw [hcells]
    dsimp only
    split_ifs
    · rfl
    · exact distLabel_intMax
  have hmax : (0 : Int) ≤ intMax := by decide
  refine ⟨s, entries, hrun, hlist, hentries ▸ rowMajor_nodup, ?_, ?_, ?_,
    hentries ▸ mem_rowMajor _, ?_, ?_, ?_, hsolution⟩
  · intro p side
    rw [hcells]
    cases side <;> rfl
  · intro p
    rw [hcells]
    dsimp only
    split_ifs
    · exact le_rfl
    · exact hmax
  · intro p
    rw [hcells]
    dsimp only
    split_ifs
    · exact hmax
    · exact le_rfl
  · apply Search.Valid.init
    · simp [searchOf, hentries, mem_rowMajor]
    · exact (hlabel _).trans (if_pos rfl)
    · exact fun p hp => (hlabel p).trans (if_neg hp)
    · intro p
      simp only [searchOf, hcells]
  · intro p hp
    simp only [searchOf, hlabel] at hp ⊢
    split_ifs at hp ⊢ with hroot
    · exact zero_le
    · exact absurd rfl hp
  · simp [hsums]

/-! ## One iteration -/

/-- A listed cell of least distance is a least unsettled vertex of the search. -/
theorem SolverInvariant.isMin {current : CellPtr W H} (h : SolverInvariant maze s entries)
    (hmem : current ∈ entries.map Prod.snd)
    (hle : ∀ w ∈ entries.map Prod.snd, (s.cells current).dist ≤ (s.cells w).dist) :
    (searchOf s.cells entries).IsMin current where
  not_settled := fun hsettled => hsettled hmem
  le := by
    intro w hw
    exact (distLabel_le_iff (h.dist_nonneg _) (h.dist_le _) (h.dist_nonneg _) (h.dist_le _)).mpr
      (hle w (not_not.mp hw))

/-- Writing the solution once the far corner is the cell of least distance. -/
theorem SolverInvariant.finish (h : SolverInvariant maze s entries)
    (hmin : (searchOf s.cells entries).IsMin CellPtr.goal)
    (hfinite : (searchOf s.cells entries).label CellPtr.goal ≠ ⊤) :
    ∃ heap solution,
      writePath s.cells (W * H) s.heap LinkedList.empty (some CellPtr.goal) =
        some (heap, solution) ∧
      Solved maze { s with heap := heap, solution := some solution } := by
  rcases ENat.ne_top_iff_exists.mp hfinite with ⟨n, hn⟩
  rcases h.valid.exists_prevPath hn.symm with
    ⟨path, hpath, hlength, hlast, hchain, -, hnodup, hwalk⟩
  have hempty : HoldsCells s.heap LinkedList.empty ([] : List (CellPtr W H)) :=
    ⟨[], IsList.empty _, fun hne => absurd rfl hne, rfl⟩
  rcases writePath_spec hpath hempty (length_le_of_nodup hnodup) with
    ⟨heap, solution, hrun, hholds⟩
  have hshortest : ∀ m, Steps (OpenMove maze) CellPtr.origin m CellPtr.goal → n ≤ m := by
    intro m hm
    have hle := h.valid.label_le_of_isMin hmin hm
    rw [← hn] at hle
    exact_mod_cast hle
  exact ⟨heap, solution, hrun, solution, path, rfl, hholds,
    ⟨hpath.head?, hlast, hnodup, hchain, n, hlength, hwalk, hshortest⟩, h.sums⟩

/-- A finite least distance is far enough from {lit}`INT_MAX` to be incremented. -/
theorem SolverInvariant.dist_add_one_lt (h : SolverInvariant maze s entries)
    (hsize : (W * H : Nat) < intMax) {p : CellPtr W H}
    (hfinite : (searchOf s.cells entries).label p ≠ ⊤) : (s.cells p).dist + 1 < intMax := by
  have hpos : 0 < entries.length := by
    have hlength := List.length_pos_of_mem h.goal_mem
    rwa [List.length_map] at hlength
  have hle : entries.length ≤ W * H := by
    have hnodup := length_le_of_nodup h.distinct
    rwa [List.length_map] at hnodup
  have hbound := h.bounded p hfinite
  have hne : (s.cells p).dist ≠ intMax := fun heq => hfinite (distLabel_eq_top_iff.mpr heq)
  simp only [searchOf, distLabel, if_neg hne, Nat.cast_le] at hbound
  omega

/-- An iteration that extracts a cell of finite distance settles it. -/
theorem SolverInvariant.settles {current : CellPtr W H} {t : Solver W H}
    {entries' : List (Nat × CellPtr W H)} (h : SolverInvariant maze s entries)
    (hsize : (W * H : Nat) < intMax)
    (hfinite : (searchOf s.cells entries).label current ≠ ⊤)
    (hstep : Extracts current s t entries entries') :
    (searchOf s.cells entries).Settles (OpenMove maze) current (searchOf t.cells entries') := by
  rcases distLabel_intAdd (h.dist_nonneg current) (h.dist_add_one_lt hsize hfinite) with
    ⟨hadd, hlabel⟩
  have hlt : ∀ w, intAdd (s.cells current).dist 1 < (s.cells w).dist ↔
      distLabel (s.cells current).dist + 1 < distLabel (s.cells w).dist := by
    intro w
    have hnonneg := h.dist_nonneg current
    have hbound := h.dist_add_one_lt hsize hfinite
    rw [← hlabel, distLabel_lt_iff (by omega) (by omega) (h.dist_nonneg w) (h.dist_le w)]
  have himproved : ∀ w, ((OpenMove s.cells current w ∧ w ∈ entries'.map Prod.snd) ∧
      intAdd (s.cells current).dist 1 < (s.cells w).dist) ↔
      (w ∉ (searchOf t.cells entries').settled ∧ OpenMove maze current w ∧
        distLabel (s.cells current).dist + 1 < distLabel (s.cells w).dist) := by
    intro w
    have hlisted : w ∉ (searchOf t.cells entries').settled ↔
        w ∈ entries'.map Prod.snd := not_not
    rw [hlt, openMove_congr (h.walls current), hlisted, and_comm (a := OpenMove _ _ _), and_assoc]
  refine ⟨?_, ?_, ?_⟩
  · ext p
    change p ∉ entries'.map Prod.snd ↔ p = current ∨ p ∉ entries.map Prod.snd
    rw [hstep.listed, not_and_or, not_not]
  · intro w hw hmove hless
    have hcell := hstep.cells w
    rw [if_pos ((himproved w).mpr ⟨hw, hmove, hless⟩)] at hcell
    simp only [searchOf, hcell]
    exact ⟨hlabel, trivial⟩
  · intro w hkept
    have hcell := hstep.cells w
    rw [if_neg fun hmem => hkept ((himproved w).mp hmem)] at hcell
    simp only [searchOf, hcell, and_self]

/-- Extracting a cell of least and finite distance keeps the invariant. -/
theorem SolverInvariant.extract {current : CellPtr W H} {t : Solver W H}
    {entries' : List (Nat × CellPtr W H)} (h : SolverInvariant maze s entries)
    (hsize : (W * H : Nat) < intMax)
    (hmin : (searchOf s.cells entries).IsMin current) (hcurrent : current ≠ CellPtr.goal)
    (hfinite : (searchOf s.cells entries).label current ≠ ⊤)
    (hstep : Extracts current s t entries entries') : SolverInvariant maze t entries' := by
  have hsettles := h.settles hsize hfinite hstep
  have hlt := h.dist_add_one_lt hsize hfinite
  have hadd := (distLabel_intAdd (h.dist_nonneg current) hlt).1
  have hnonneg := h.dist_nonneg current
  refine ⟨hstep.list, hstep.distinct, ?_, ?_, ?_, ?_, h.valid.settle hmin hfinite hsettles,
    ?_, ?_, ?_⟩
  · intro p side
    rw [hstep.wall, h.walls]
  · intro p
    rw [hstep.cells]
    split_ifs
    · dsimp only
      omega
    · exact h.dist_nonneg p
  · intro p
    rw [hstep.cells]
    split_ifs
    · dsimp only
      omega
    · exact h.dist_le p
  · exact (hstep.listed CellPtr.goal).mpr ⟨hcurrent.symm, h.goal_mem⟩
  · have hlength := length_le_of_nodup h.distinct
    rw [List.length_map] at hlength
    have hbounded := h.bounded.settle hfinite hsettles
    have hcount : W * H - entries.length + 1 = W * H - entries'.length := by
      have hshorter := hstep.length
      omega
    rwa [hcount] at hbounded
  · intro sum hsum
    rcases hstep.sums sum hsum with hold | rfl
    · exact h.sums sum hold
    · exact hlt.le
  · rw [hstep.solution]
    exact h.solution

/-- One iteration settles a cell of least distance, or it writes the solution. -/
theorem SolverInvariant.iterate (h : SolverInvariant maze s entries)
    (hsize : (W * H : Nat) < intMax)
    (hreach : ∃ n, Steps (OpenMove maze) CellPtr.origin n CellPtr.goal) :
    ∃ t, solverStep s = some t ∧ (Solved maze t ∨ ∃ entries',
      SolverInvariant maze t entries' ∧ entries'.length < entries.length) := by
  rcases hreach with ⟨n, hwalk⟩
  rcases h.list.exists_minimum (fun cell => (s.cells cell).dist) h.goal_mem with
    ⟨current, hminimum, hmem, hle⟩
  have hmin := h.isMin hmem hle
  have hfinite := h.valid.label_ne_top_of_isMin hmin (fun hsettled => hsettled h.goal_mem) hwalk
  by_cases hcurrent : current = CellPtr.goal
  · -- the far corner has been extracted
    rcases h.finish (hcurrent ▸ hmin) (hcurrent ▸ hfinite) with ⟨heap, solution, hrun, hsolved⟩
    refine ⟨_, ?_, Or.inl hsolved⟩
    simp only [solverStep, hminimum, Option.bind_some]
    rw [if_pos (CellPtr.eq_goal_iff.mp hcurrent), hcurrent, hrun]
    rfl
  · have hcorner : ¬(current.x.val = W - 1 ∧ current.y.val = H - 1) :=
      fun hcorner => hcurrent (CellPtr.eq_goal_iff.mpr hcorner)
    rcases solverStep_extracts h.list h.distinct hminimum hmem hcorner with
      ⟨t, entries', hrun, hstep⟩
    have hshorter := hstep.length
    exact ⟨t, hrun, Or.inr ⟨entries', h.extract hsize hmin hcurrent hfinite hstep, by omega⟩⟩

/-! ## The whole run -/

/-- The number of iterations left: nothing after a return, else one per node. -/
def nodesLeft (s : Solver W H) : Nat := if s.solution.isSome then 0 else s.nodes.size.toNat

omit [NeZero W] [NeZero H] in
theorem solverRunning_iff : solverRunning s = true ↔ s.solution = none ∧ 0 < s.nodes.size := by
  simp [solverRunning]

/-- While the far corner is listed and nothing was returned, the loop goes on. -/
theorem solverRunning_of_goal_mem (hlist : IsList s.heap s.nodes entries)
    (hgoal : CellPtr.goal ∈ entries.map Prod.snd) (hsolution : s.solution = none) :
    solverRunning s = true := by
  have hlength := List.length_pos_of_mem hgoal
  rw [List.length_map] at hlength
  have hsize : 0 < s.nodes.size := by
    rw [hlist.size_eq]
    exact_mod_cast hlength
  exact solverRunning_iff.mpr ⟨hsolution, hsize⟩

omit [NeZero W] [NeZero H] in
/-- The nodes left are those in the list. -/
theorem nodesLeft_eq (hlist : IsList s.heap s.nodes entries) (hsolution : s.solution = none) :
    nodesLeft s = entries.length := by
  rw [nodesLeft, hsolution, hlist.size_eq]
  rfl

/-- The loop returns: each iteration on a list that holds the far corner either
finishes with a solution or leaves a shorter list of this kind. -/
theorem solverLoop_total {Inv : Solver W H → List (Nat × CellPtr W H) → Prop}
    {Done : Solver W H → Prop} (hdone : ∀ s, Done s → s.solution ≠ none)
    (hlist : ∀ s entries, Inv s entries → IsList s.heap s.nodes entries ∧
      CellPtr.goal ∈ entries.map Prod.snd ∧ s.solution = none)
    (hstep : ∀ s entries, Inv s entries → ∃ t, solverStep s = some t ∧
      (Done t ∨ ∃ entries', Inv t entries' ∧ entries'.length < entries.length))
    (hs : Inv s entries) {fuel : Nat} (hfuel : entries.length ≤ fuel) :
    ∃ t, whileLoop solverRunning solverStep fuel s = some t ∧ Done t := by
  have hbody : ∀ s : Solver W H, (Done s ∨ ∃ entries, Inv s entries) → solverRunning s = true →
      ∃ t, solverStep s = some t ∧ (Done t ∨ ∃ entries, Inv t entries) ∧
        nodesLeft t < nodesLeft s := by
    intro s hs hrunning
    rcases solverRunning_iff.mp hrunning with ⟨hnone, hpos⟩
    rcases hs with hs | ⟨entries, hs⟩
    · exact absurd hnone (hdone s hs)
    · have hleft := nodesLeft_eq (hlist s entries hs).1 hnone
      rcases hstep s entries hs with ⟨t, hrun, ht | ⟨entries', ht, hlt⟩⟩
      · refine ⟨t, hrun, Or.inl ht, ?_⟩
        rw [nodesLeft, if_pos (Option.isSome_iff_ne_none.mpr (hdone t ht)), hleft]
        rw [(hlist s entries hs).1.size_eq] at hpos
        exact_mod_cast hpos
      · rcases hlist t entries' ht with ⟨hlist', -, hnone'⟩
        refine ⟨t, hrun, Or.inr ⟨entries', ht⟩, ?_⟩
        rw [hleft, nodesLeft_eq hlist' hnone']
        exact hlt
  have hleft : nodesLeft s ≤ fuel := by
    rcases hlist s entries hs with ⟨hlist', -, hnone⟩
    rwa [nodesLeft_eq hlist' hnone]
  rcases whileLoop_total hbody (Or.inr ⟨entries, hs⟩) hleft with ⟨t, hrun, ht, hstop⟩
  refine ⟨t, hrun, ?_⟩
  rcases ht with ht | ⟨entries', ht⟩
  · exact ht
  · rcases hlist t entries' ht with ⟨hlist', hgoal, hnone⟩
    cases hstop.symm.trans (solverRunning_of_goal_mem hlist' hgoal hnone)

/-- The solution of a solvable maze is a shortest path, found without overflow. -/
theorem getSolution_spec (maze : Maze W H) (hsize : (W * H : Nat) < intMax)
    (hreach : ∃ n, Steps (OpenMove maze.cells) CellPtr.origin n CellPtr.goal) :
    ∃ s, getSolution maze = some s ∧ Solved maze.cells s := by
  rcases solverInit_invariant maze with ⟨start, entries, hinit, hstart⟩
  have hlength : entries.length ≤ W * H := by
    have hnodup := length_le_of_nodup hstart.distinct
    rwa [List.length_map] at hnodup
  have hdone : ∀ s : Solver W H, Solved maze.cells s → s.solution ≠ none := by
    intro s hs
    rcases hs with ⟨solution, path, hsome, -⟩
    simp [hsome]
  rcases solverLoop_total hdone (fun s entries hs => ⟨hs.list, hs.goal_mem, hs.solution⟩)
      (fun s entries hs => hs.iterate hsize hreach) hstart hlength with ⟨s, hrun, hs⟩
  exact ⟨s, by rw [getSolution, hinit]; exact hrun, hs⟩

/-! ## Generated mazes -/

omit [NeZero W] [NeZero H] in
/-- With consistent flags the open moves are the passages. -/
theorem WallsConsistent.openMove_iff (hwalls : WallsConsistent maze) {p q : CellPtr W H} :
    OpenMove maze p q ↔ (passageGraph maze).Adj p q := by
  constructor
  · intro h
    rcases h with ⟨side, hside, hwall⟩
    exact (hwalls.adj_iff hside).mpr hwall
  · intro h
    rcases h with ⟨side, hside, hwall, -⟩
    exact ⟨side, hside, hwall⟩

omit [NeZero W] [NeZero H] in
/-- A walk of passages is a sequence of open moves. -/
theorem WallsConsistent.steps_of_walk (hwalls : WallsConsistent maze) {root p q : CellPtr W H}
    (walk : (passageGraph maze).Walk p q) {n : Nat} (hsteps : Steps (OpenMove maze) root n p) :
    ∃ m, Steps (OpenMove maze) root m q := by
  induction walk generalizing n with
  | nil => exact ⟨n, hsteps⟩
  | cons hadj _ ih => exact ih (hsteps.tail (hwalls.openMove_iff.mpr hadj))

/-- On consistent flags a solution is the support of a simple path of passages. -/
theorem IsSolution.exists_path (hwalls : WallsConsistent maze) {path : List (CellPtr W H)}
    (h : IsSolution maze path) :
    ∃ walk : (passageGraph maze).Walk CellPtr.goal CellPtr.origin,
      walk.IsPath ∧ walk.support = path := by
  have hne : path ≠ [] := by
    intro hnil
    have hhead := h.head
    rw [hnil] at hhead
    contradiction
  have hchain : path.IsChain (passageGraph maze).Adj :=
    h.moves.imp fun p q hmove => (hwalls.openMove_iff.mp hmove).symm
  have hhead : path.head hne = CellPtr.goal := by
    have hsome := h.head
    rw [List.head?_eq_some_head hne] at hsome
    exact Option.some.inj hsome
  have hlast : path.getLast hne = CellPtr.origin := by
    have hsome := h.last
    rw [List.getLast?_eq_some_getLast hne] at hsome
    exact Option.some.inj hsome
  refine ⟨(SimpleGraph.Walk.ofSupport path hne hchain).copy hhead hlast, ?_, ?_⟩
  · rw [SimpleGraph.Walk.isPath_copy, SimpleGraph.Walk.isPath_def,
      SimpleGraph.Walk.support_ofSupport]
    exact h.nodup
  · rw [SimpleGraph.Walk.support_copy, SimpleGraph.Walk.support_ofSupport]

end

/-- {lit}`get_solution` on fewer than {lit}`INT_MAX` cells.  In every maze whose far
corner is reachable, with any flags, it returns the cells of a shortest path from
the far corner back to the first cell and no sum exceeds {lit}`INT_MAX`; in a
generated maze that path is the only simple one. -/
theorem getSolution_shortest [NeZero W] [NeZero H] (hsize : (W * H : Nat) < intMax) :
    (∀ maze : Maze W H, (∃ n, Steps (OpenMove maze.cells) CellPtr.origin n CellPtr.goal) →
      ∃ s solution path, getSolution maze = some s ∧ s.solution = some solution ∧
        HoldsCells s.heap solution path ∧ IsSolution maze.cells path ∧
        ∀ sum ∈ s.sums, sum ≤ intMax) ∧
    ∀ (mem : Cells W H) (rand : Nat → Nat),
      ∃ maze s solution path, generateMaze mem rand = some maze ∧ getSolution maze = some s ∧
        s.solution = some solution ∧ HoldsCells s.heap solution path ∧
        IsSolution maze.cells path ∧ (∀ sum ∈ s.sums, sum ≤ intMax) ∧
        ∃ walk : (passageGraph maze.cells).Walk CellPtr.goal CellPtr.origin,
          walk.IsPath ∧ walk.support = path ∧
          ∀ other : (passageGraph maze.cells).Walk CellPtr.goal CellPtr.origin,
            other.IsPath → other = walk := by
  constructor
  · intro maze hreach
    rcases getSolution_spec maze hsize hreach with
      ⟨s, hrun, solution, path, hsolution, hholds, hpath, hsums⟩
    exact ⟨s, solution, path, hrun, hsolution, hholds, hpath, hsums⟩
  · intro mem rand
    rcases generateMaze_spec mem rand with ⟨maze, hmaze, -, hwalls, -, htree⟩
    rcases htree.connected.preconnected CellPtr.origin CellPtr.goal with ⟨walk⟩
    rcases getSolution_spec maze hsize (hwalls.steps_of_walk walk .refl) with
      ⟨s, hrun, solution, path, hsolution, hholds, hpath, hsums⟩
    rcases hpath.exists_path hwalls with ⟨simple, hsimple, hsupport⟩
    exact ⟨maze, s, solution, path, hmaze, hrun, hsolution, hholds, hpath, hsums, simple, hsimple,
      hsupport, fun other hother => htree.existsUnique_path _ _ |>.unique hother hsimple⟩

/-- Four cells without inner walls. -/
theorem getSolution_shortest_two_by_two :
    let maze : Maze 2 2 := ⟨100, fun _ => ⟨true, false, false, false, false, 0, none⟩⟩
    ∃ s solution path, getSolution maze = some s ∧ s.solution = some solution ∧
      HoldsCells s.heap solution path ∧ IsSolution maze.cells path ∧
      ∀ sum ∈ s.sums, sum ≤ intMax :=
  (getSolution_shortest (by decide)).1 _
    ⟨2, .tail (.tail .refl ⟨.right, rfl, rfl⟩) ⟨.bottom, rfl, rfl⟩⟩

end LCOMaze
