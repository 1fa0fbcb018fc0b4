import LCOMaze.Game.SolutionCorrect
import LCOMaze.Game.Winnable

/-!
# Following the solution

The cells that {lit}`get_solution` returns are also a way to play: ten keys towards each next cell
keep the player on the path, from one centre to the next.

Main results:

- Theorem {lit}`pixelRun_solutionSides`: the sides along a chain of joined cells are a free run.
- Theorem {lit}`solution_keys_win`: the keys along the returned list are never blocked and win.
-/

namespace LCOMaze

open Foundations

variable {W H : Nat} {maze : Maze W H}

/-! ## Sides along a path -/

/-- The side on which a neighbouring cell lies. -/
def sideToward (p q : CellPtr W H) : Side :=
  if p.x < q.x then .right else if q.x < p.x then .left else if q.y < p.y then .top else .bottom

theorem sideToward_of_neighbour {p q : CellPtr W H} {side : Side}
    (h : p.neighbour side = some q) : sideToward p q = side := by
  rw [CellPtr.neighbour_eq_some_iff] at h
  unfold sideToward
  cases side <;> simp only [CellPtr.columnAcross, CellPtr.rowAcross] at h <;> split_ifs <;>
    first | rfl | omega

/-- Ten steps towards each next cell. -/
def solutionSides : List (CellPtr W H) → List Side
  | p :: q :: rest => List.replicate 10 (sideToward p q) ++ solutionSides (q :: rest)
  | _ => []

/-- The keys W, A, S and D along the cells of a solution, which lead from the goal to the start. -/
def solutionKeys (path : List (CellPtr W H)) : List UInt8 :=
  (solutionSides path.reverse).map keyToward

/-- There are ten steps for each cell after the first. -/
theorem length_solutionSides (path : List (CellPtr W H)) :
    (solutionSides path).length = 10 * (path.length - 1) := by
  induction path with
  | nil => rfl
  | cons p path ih =>
      cases path with
      | nil => rfl
      | cons q rest =>
          simp only [solutionSides, List.length_append, List.length_replicate, List.length_cons]
            at ih ⊢
          omega

/-- Along joined cells, the first ten steps for each of some cells are a free run to the last of
these. -/
theorem pixelRun_solutionSides (hmaze : PassageMaze maze) {path : List (CellPtr W H)}
    (hchain : path.IsChain (passageGraph maze.cells).Adj) {k : Nat} (hk : k < path.length) :
    PixelRun maze (centre (path[0])) (centre path[k]) ((solutionSides path).take (10 * k)) := by
  induction path generalizing k with
  | nil => simp at hk
  | cons p path ih =>
      cases k with
      | zero => exact ⟨trivial, rfl⟩
      | succ k =>
          cases path with
          | nil => simp at hk
          | cons q rest =>
              rcases hchain.rel with ⟨side, hside, hopen⟩
              have hfirst := pixelRun_of_passage hmaze hside ⟨side, hside, hopen⟩
              have hrest := ih hchain.tail (by simpa using hk)
              have htake : (solutionSides (p :: q :: rest)).take (10 * (k + 1)) =
                  List.replicate 10 side ++ (solutionSides (q :: rest)).take (10 * k) := by
                rw [solutionSides, sideToward_of_neighbour hside, Nat.mul_succ, Nat.add_comm,
                  List.take_append, List.length_replicate, Nat.add_sub_cancel_left]
                rw [List.take_of_length_le (by simp)]
              rw [htake]
              exact hfirst.trans hrest

/-! ## The whole way -/

/-- The cells of a solution, from the start to the goal, are joined by passages. -/
theorem IsSolution.isChain_reverse [NeZero W] [NeZero H] {cells : Cells W H}
    (hwalls : WallsConsistent cells) {path : List (CellPtr W H)} (h : IsSolution cells path) :
    path.reverse.IsChain (passageGraph cells).Adj := by
  rw [List.isChain_reverse]
  exact h.moves.imp fun p q hmove => hwalls.openMove_iff.mp hmove

/-- They begin at the start and end at the goal. -/
theorem IsSolution.ends_reverse [NeZero W] [NeZero H] {cells : Cells W H}
    {path : List (CellPtr W H)} (h : IsSolution cells path) :
    ∃ (hfirst : 0 < path.reverse.length), path.reverse[0] = CellPtr.origin ∧
      ∃ (hlast : path.length - 1 < path.reverse.length),
        path.reverse[path.length - 1] = CellPtr.goal := by
  have hfirst := h.last
  rw [← List.head?_reverse, List.head?_eq_getElem?] at hfirst
  have hlast := h.head
  rw [← List.getLast?_reverse, List.getLast?_eq_getElem?, List.length_reverse] at hlast
  rcases List.getElem?_eq_some_iff.mp hfirst with ⟨hpos, horigin⟩
  rcases List.getElem?_eq_some_iff.mp hlast with ⟨hlt, hgoal⟩
  exact ⟨hpos, horigin, hlt, hgoal⟩

/-- In every generated maze, the list that {lit}`get_solution` returns tells how to win: from the
start at heading zero, ten keys towards each next cell of the list, read from its end, ask for ten
pixels along one axis each, none is blocked, the tenth of them puts the player on the centre of
that cell, and after the last one {lit}`check_game_end` holds. -/
theorem solution_keys_win [NeZero W] [NeZero H] (hsize : (W * H : Nat) < intMax)
    (mem : Cells W H) (rand : Nat → Nat) (lib : MathLib) (hcos : lib.cos 0 = 1)
    (hsin : lib.sin 0 = 0) (player : Player) (hx : player.x = 50) (hy : player.y = 50)
    (hdelta : player.delta = 0) (hupdate : player.updateDelta = false) :
    ∃ maze s solution path, generateMaze mem rand = some maze ∧ getSolution maze = some s ∧
      s.solution = some solution ∧ HoldsCells s.heap solution path ∧
      let step := fun player key => gameKeyboardHandler lib maze key player
      (solutionKeys path).length = 10 * (path.length - 1) ∧
      Throughout step (MovesFreely lib maze) (solutionKeys path) player ∧
      (∀ k (hk : k < path.reverse.length), AtPixel lib
        (((solutionKeys path).take (10 * k)).foldl step player) (centre path.reverse[k])) ∧
      checkGameEnd maze ((solutionKeys path).foldl step player) = true := by
  rcases generateMaze_spec mem rand with ⟨maze, hmaze, hcellSize, hwalls, -, htree⟩
  rcases htree.connected.preconnected CellPtr.origin CellPtr.goal with ⟨walk⟩
  rcases getSolution_spec maze hsize (hwalls.steps_of_walk walk .refl) with
    ⟨s, hrun, solution, path, hsolution, hholds, hpath, -⟩
  have hpassages : PassageMaze maze := ⟨hcellSize, hwalls, htree.isAcyclic⟩
  have hchain := hpath.isChain_reverse hwalls
  rcases hpath.ends_reverse with ⟨hpos, hfirst, hlast, hgoal⟩
  have hlength : (solutionSides path.reverse).length = 10 * (path.length - 1) := by
    rw [length_solutionSides, List.length_reverse]
  have hstart : AtPixel lib player (centre path.reverse[0]) := by
    rw [hfirst, centre_origin]
    refine ⟨by rw [hx]; norm_num, by rw [hy]; norm_num, ?_, ?_⟩
    · rw [hdelta]
      exact ⟨hcos, hsin⟩
    · intro hheld
      cases hupdate.symm.trans hheld
  have hreach : ∀ k (hk : k < path.reverse.length), Throughout
      (fun player key => gameKeyboardHandler lib maze key player) (MovesFreely lib maze)
        ((solutionKeys path).take (10 * k)) player ∧
      AtPixel lib (((solutionKeys path).take (10 * k)).foldl
        (fun player key => gameKeyboardHandler lib maze key player) player)
          (centre path.reverse[k]) := by
    intro k hk
    have hkeys := hstart.keys (pixelRun_solutionSides hpassages hchain hk)
    rwa [List.map_take] at hkeys
  have hwhole := hreach (path.length - 1) hlast
  rw [List.take_of_length_le (by simp [solutionKeys, hlength]), hgoal] at hwhole
  refine ⟨maze, s, solution, path, hmaze, hrun, hsolution, hholds, ?_, hwhole.1,
    fun k hk => (hreach k hk).2, checkGameEnd_of_goal hcellSize hwhole.2⟩
  rw [solutionKeys, List.length_map, hlength]

/-- A maze of three by two cells on memory full of garbage. -/
theorem solution_keys_win_three_by_two :
    let player : Player := ⟨50, 50, 0, 0, 0, 0, false, false⟩
    ∃ (maze : Maze 3 2) (s : Solver 3 2) (solution : LinkedList) (path : List (CellPtr 3 2)),
      generateMaze (fun _ => ⟨true, false, true, false, true, 7, none⟩) (fun n => n) = some maze ∧
      getSolution maze = some s ∧ s.solution = some solution ∧ HoldsCells s.heap solution path ∧
      let step := fun player key => gameKeyboardHandler MathLib.headingZero maze key player
      (solutionKeys path).length = 10 * (path.length - 1) ∧
      Throughout step (MovesFreely MathLib.headingZero maze) (solutionKeys path) player ∧
      (∀ k (hk : k < path.reverse.length), AtPixel MathLib.headingZero
        (((solutionKeys path).take (10 * k)).foldl step player) (centre path.reverse[k])) ∧
      checkGameEnd maze ((solutionKeys path).foldl step player) = true :=
  solution_keys_win (by decide) _ _ MathLib.headingZero rfl rfl _ rfl rfl rfl rfl

end LCOMaze
