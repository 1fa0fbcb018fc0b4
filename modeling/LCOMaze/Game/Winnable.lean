import LCOMaze.Foundations.Trace
import LCOMaze.Game.WallSafety

/-!
# Every generated maze can be won

Ten steps of ten pixels lead from the centre of a cell to the centre of the next one.  On
the way only these two cells are touched, so an open border suffices.  A walk of the passage
graph from the corner to the goal becomes a sequence of keys.

Main results:

- Theorem {lit}`free_of_passage`: every position between the centres of two joined cells is
  accepted.
- Theorem {lit}`exists_pixelRun`: a walk of the passage graph becomes a run of such positions.
- Theorem {lit}`AtPixel.keys`: at heading zero the four keys follow a run of positions.
- Theorem {lit}`maze_can_be_won`: some keys lead to the end without being blocked.
-/

namespace LCOMaze

open Foundations

variable {W H : Nat} {maze : Maze W H}

/-! ## Positions on a corridor -/

/-- A position that {lit}`check_collision` accepts. -/
def Free (maze : Maze W H) (position : Int × Int) : Prop :=
  checkCollision maze position.1 position.2 25 = false

/-- The position ten pixels further to one side. -/
def pixelStep (position : Int × Int) (side : Side) : Int × Int :=
  extremity position.1 position.2 10 side

/-- The next position is accepted. -/
def FreeStep (maze : Maze W H) (position : Int × Int) (side : Side) : Prop :=
  Free maze (pixelStep position side)

/-- The centre of a cell of a hundred pixels. -/
def centre (p : CellPtr W H) : Int × Int := (100 * p.x + 50, 100 * p.y + 50)

/-- Two steps to the same side make a longer one. -/
@[simp]
theorem extremity_extremity (x y : Int) (m n : Nat) (side : Side) :
    extremity (extremity x y m side).1 (extremity x y m side).2 n side =
      extremity x y (m + n) side := by
  apply Prod.ext <;> cases side <;> simp only [extremity] <;> omega

/-- A position is accepted if each extremity lies in the cell of the centre, or across an
open border of it. -/
theorem free_of_sides (hmaze : PassageMaze maze) {p : CellPtr W H} {x y : Int}
    (hcentre : getCell maze x y = some p)
    (hextremities : ∀ s, getCell maze (extremity x y 25 s).1 (extremity x y 25 s).2 = some p ∨
      ∃ q, p.neighbour s = some q ∧ (passageGraph maze.cells).Adj p q ∧
        getCell maze (extremity x y 25 s).1 (extremity x y 25 s).2 = some q) :
    Free maze (x, y) := by
  rw [Free, checkCollision_eq_false_iff]
  refine ⟨p, hcentre, fun s => ?_⟩
  rcases hextremities s with hinside | ⟨q, hside, hadj, hacross⟩
  · exact ⟨p, hinside, Or.inl rfl⟩
  · exact ⟨q, hacross, Or.inr (Or.inr ((hmaze.walls.adj_iff hside).mp hadj))⟩

/-- The case of extremities that cross one border only. -/
theorem free_of_pair (hmaze : PassageMaze maze) {p q : CellPtr W H} {side : Side}
    (hside : p.neighbour side = some q) (hadj : (passageGraph maze.cells).Adj p q)
    {x y : Int} (hcentre : getCell maze x y = some p)
    (hextremities : ∀ s, getCell maze (extremity x y 25 s).1 (extremity x y 25 s).2 = some p ∨
      (s = side ∧ getCell maze (extremity x y 25 s).1 (extremity x y 25 s).2 = some q)) :
    Free maze (x, y) := by
  apply free_of_sides hmaze hcentre
  intro s
  rcases hextremities s with hinside | ⟨rfl, hacross⟩
  · exact Or.inl hinside
  · exact Or.inr ⟨q, hside, hadj, hacross⟩

/-- Every tenth pixel between the centres of two joined cells is accepted. -/
theorem free_of_passage (hmaze : PassageMaze maze) {p q : CellPtr W H} {side : Side}
    (hside : p.neighbour side = some q) (hadj : (passageGraph maze.cells).Adj p q)
    {k : Nat} (hk : k ≤ 10) :
    Free maze (extremity (centre p).1 (centre p).2 (10 * k) side) := by
  have hq := CellPtr.neighbour_eq_some_iff.mp hside
  let position := extremity (centre p).1 (centre p).2 (10 * k) side
  have hcell := fun {x y : Int} {c : CellPtr W H} =>
    getCell_eq_some_iff (x := x) (y := y) (p := c) hmaze.cellSize_eq
  have hcentre : getCell maze position.1 position.2 = some p ∨
      getCell maze position.1 position.2 = some q := by
    rw [hcell, hcell]
    cases side <;>
      simp only [position, extremity, centre, CellPtr.columnAcross, CellPtr.rowAcross] at hq ⊢ <;>
      omega
  rcases hcentre with hp | hp
  · apply free_of_pair hmaze hside hadj hp
    intro s
    rw [hcell] at hp ⊢
    rw [hcell]
    cases side <;> cases s <;>
      simp only [position, extremity, centre, CellPtr.columnAcross, CellPtr.rowAcross,
        reduceCtorEq, true_and, false_and, or_false] at hq hp ⊢ <;>
      omega
  · apply free_of_pair hmaze (CellPtr.neighbour_comm.mp hside) hadj.symm hp
    intro s
    rw [hcell] at hp ⊢
    rw [hcell]
    cases side <;> cases s <;>
      simp only [position, extremity, centre, CellPtr.columnAcross, CellPtr.rowAcross,
        Side.opposite, reduceCtorEq, true_and, false_and, or_false] at hq hp ⊢ <;>
      omega

/-! ## Runs of positions -/

/-- Some steps to one side. -/
theorem replicate_foldl_pixelStep (n : Nat) (side : Side) (position : Int × Int) :
    (List.replicate n side).foldl pixelStep position =
      extremity position.1 position.2 (10 * n) side := by
  induction n generalizing position with
  | zero => cases side <;> simp [extremity]
  | succ n ih =>
      rw [List.replicate_succ, List.foldl_cons, ih, pixelStep, extremity_extremity]
      congr 1
      omega

/-- A straight run is free when all its positions are. -/
theorem throughout_replicate {n : Nat} {side : Side} {position : Int × Int}
    (hfree : ∀ k ≤ n, Free maze (extremity position.1 position.2 (10 * k) side)) :
    Throughout pixelStep (FreeStep maze) (List.replicate n side) position := by
  induction n generalizing position with
  | zero => trivial
  | succ n ih =>
      rw [List.replicate_succ, throughout_cons]
      refine ⟨hfree 1 (by omega), ih ?_⟩
      intro k hk
      rw [pixelStep, extremity_extremity]
      have hnext := hfree (k + 1) (by omega)
      rwa [show 10 * (k + 1) = 10 + 10 * k by omega] at hnext

/-- A free run between two positions. -/
def PixelRun (maze : Maze W H) (start finish : Int × Int) (sides : List Side) : Prop :=
  Throughout pixelStep (FreeStep maze) sides start ∧ sides.foldl pixelStep start = finish

theorem PixelRun.trans {a b c : Int × Int} {sides sides' : List Side}
    (h : PixelRun maze a b sides) (h' : PixelRun maze b c sides') :
    PixelRun maze a c (sides ++ sides') := by
  rw [PixelRun, throughout_append, List.foldl_append, h.2]
  exact ⟨⟨h.1, h'.1⟩, h'.2⟩

/-- Ten steps lead to the centre of the next cell. -/
theorem pixelRun_of_passage (hmaze : PassageMaze maze) {p q : CellPtr W H} {side : Side}
    (hside : p.neighbour side = some q) (hadj : (passageGraph maze.cells).Adj p q) :
    PixelRun maze (centre p) (centre q) (List.replicate 10 side) := by
  refine ⟨throughout_replicate fun k hk => free_of_passage hmaze hside hadj hk, ?_⟩
  rw [replicate_foldl_pixelStep]
  have hq := CellPtr.neighbour_eq_some_iff.mp hside
  cases side <;>
    simp only [extremity, centre, CellPtr.columnAcross, CellPtr.rowAcross,
      Prod.mk.injEq] at hq ⊢ <;>
    omega

/-- Every walk of the passage graph becomes a free run between the centres of its ends. -/
theorem exists_pixelRun (hmaze : PassageMaze maze) {p q : CellPtr W H}
    (walk : (passageGraph maze.cells).Walk p q) :
    ∃ sides, PixelRun maze (centre p) (centre q) sides := by
  induction walk with
  | nil => exact ⟨[], trivial, rfl⟩
  | cons hadj walk ih =>
      rcases ih with ⟨sides, hrun⟩
      rcases hadj with ⟨side, hside, hopen⟩
      exact ⟨_, (pixelRun_of_passage hmaze hside ⟨side, hside, hopen⟩).trans hrun⟩

/-! ## Keys at heading zero -/

/-- The key that moves the player to one side at heading zero: W, S, A or D. -/
def keyToward : Side → UInt8
  | .right => 0x11
  | .left => 0x1f
  | .top => 0x1e
  | .bottom => 0x20

/-- The key asks for ten pixels along one axis and is not blocked. -/
structure MovesFreely (lib : MathLib) (maze : Maze W H) (player : Player) (kbdValue : UInt8) :
    Prop where
  axis : let changer := keyChanger lib kbdValue player.delta
    (|changer.1 * 10| = 10 ∧ changer.2 * 10 = 0) ∨ (changer.1 * 10 = 0 ∧ |changer.2 * 10| = 10)
  notBlocked : let changer := keyChanger lib kbdValue player.delta
    checkCollision maze (truncToInt (player.x + changer.1 * 10))
      (truncToInt (player.y - changer.2 * 10)) 25 = false

/-- The player is at a pixel and heads to the right, and a held mouse button does not turn
the player away. -/
structure AtPixel (lib : MathLib) (player : Player) (position : Int × Int) : Prop where
  x_eq : player.x = position.1
  y_eq : player.y = position.2
  heading : lib.cos player.delta = 1 ∧ lib.sin player.delta = 0
  steady : player.updateDelta = true → ∀ angle, lib.cos angle = 1 ∧ lib.sin angle = 0

@[simp]
theorem truncToInt_intCast (n : Int) : truncToInt n = n := by
  unfold truncToInt
  split_ifs
  · exact Int.floor_intCast n
  · exact Int.ceil_intCast n

/-- At heading zero a key moves the player by ten pixels to its side. -/
theorem AtPixel.changer {lib : MathLib} {player : Player} {position : Int × Int}
    (h : AtPixel lib player position) (side : Side) :
    let changer := keyChanger lib (keyToward side) player.delta
    player.x + changer.1 * 10 = (pixelStep position side).1 ∧
      player.y - changer.2 * 10 = (pixelStep position side).2 ∧
      ((|changer.1 * 10| = 10 ∧ changer.2 * 10 = 0) ∨
        (changer.1 * 10 = 0 ∧ |changer.2 * 10| = 10)) := by
  cases side <;>
    simp [keyChanger, keyToward, h.heading, h.x_eq, h.y_eq, pixelStep, extremity,
      sub_eq_add_neg]

/-- A key towards a free position is not blocked and reaches it. -/
theorem AtPixel.key {lib : MathLib} {player : Player} {position : Int × Int}
    (h : AtPixel lib player position) {side : Side} (hfree : FreeStep maze position side) :
    MovesFreely lib maze player (keyToward side) ∧
      AtPixel lib (gameKeyboardHandler lib maze (keyToward side) player)
        (pixelStep position side) := by
  rcases h.changer side with ⟨hx, hy, haxis⟩
  have hnotBlocked : checkCollision maze
      (truncToInt (player.x + (keyChanger lib (keyToward side) player.delta).1 * 10))
      (truncToInt (player.y - (keyChanger lib (keyToward side) player.delta).2 * 10)) 25 =
        false := by
    rw [hx, hy, truncToInt_intCast, truncToInt_intCast]
    exact hfree
  have hposition := gameKeyboardHandler_position lib maze (keyToward side) player
  simp only [movePlayer, hnotBlocked, Bool.false_eq_true, if_false] at hposition
  refine ⟨⟨haxis, hnotBlocked⟩, hposition.1.trans hx, hposition.2.trans hy, ?_, ?_⟩
  · cases hupdate : player.updateDelta with
    | false =>
        rw [(gameKeyboardHandler_heading lib maze (keyToward side) player).2 hupdate]
        exact h.heading
    | true => exact h.steady hupdate _
  · intro hupdate
    apply h.steady
    rwa [(gameKeyboardHandler_heading lib maze (keyToward side) player).1] at hupdate

/-- The keys of a free run follow it without being blocked. -/
theorem AtPixel.keys {lib : MathLib} {player : Player} {start finish : Int × Int}
    (h : AtPixel lib player start) {sides : List Side} (hrun : PixelRun maze start finish sides) :
    let step := fun player kbdValue => gameKeyboardHandler lib maze kbdValue player
    Throughout step (MovesFreely lib maze) (sides.map keyToward) player ∧
      AtPixel lib ((sides.map keyToward).foldl step player) finish := by
  intro step
  induction sides generalizing player start with
  | nil =>
      rcases hrun with ⟨-, rfl⟩
      exact ⟨trivial, h⟩
  | cons side sides ih =>
      rcases h.key hrun.1.1 with ⟨hmoves, hnext⟩
      rcases ih hnext ⟨hrun.1.2, hrun.2⟩ with ⟨hrest, hfinish⟩
      exact ⟨⟨hmoves, hrest⟩, hfinish⟩

/-! ## The goal -/

/-- The centre of the bottom-right cell counts as the end. -/
theorem checkGameEnd_of_goal [NeZero W] [NeZero H] (hsize : maze.cellSize = 100) {lib : MathLib}
    {player : Player} (h : AtPixel lib player (centre (CellPtr.goal : CellPtr W H))) :
    checkGameEnd maze player = true := by
  have hW := NeZero.pos W
  have hH := NeZero.pos H
  simp only [checkGameEnd, h.x_eq, h.y_eq, centre, CellPtr.goal, hsize, Bool.and_eq_true,
    decide_eq_true_eq]
  constructor
  · exact_mod_cast (by omega : ((W : Int) - 1) * 100 - 25 ≤ 100 * ((W - 1 : Nat) : Int) + 50)
  · exact_mod_cast (by omega : ((H : Int) - 1) * 100 - 25 ≤ 100 * ((H - 1 : Nat) : Int) + 50)

/-- The start is the centre of the first cell. -/
theorem centre_origin [NeZero W] [NeZero H] :
    centre (CellPtr.origin : CellPtr W H) = (50, 50) := by
  simp [centre, CellPtr.origin]

/-- In every generated maze, some keys W, A, S and D at the initial heading zero lead the player
from the start to a position at which {lit}`check_game_end` holds; each asks for ten pixels along
one axis, and none is blocked by {lit}`check_collision`. -/
theorem maze_can_be_won [NeZero W] [NeZero H] (mem : Cells W H) (rand : Nat → Nat)
    (lib : MathLib) (hcos : lib.cos 0 = 1) (hsin : lib.sin 0 = 0) (player : Player)
    (hx : player.x = 50) (hy : player.y = 50) (hdelta : player.delta = 0)
    (hupdate : player.updateDelta = false) :
    ∃ maze, generateMaze mem rand = some maze ∧ ∃ keys : List UInt8,
      (∀ key ∈ keys, key ∈ [0x11, 0x1e, 0x1f, 0x20]) ∧
      Throughout (fun player key => gameKeyboardHandler lib maze key player)
        (MovesFreely lib maze) keys player ∧
      checkGameEnd maze
        (keys.foldl (fun player key => gameKeyboardHandler lib maze key player) player) =
          true := by
  rcases generateMaze_spec mem rand with ⟨maze, hrun, hsize, hwalls, -, htree⟩
  have hmaze : PassageMaze maze := ⟨hsize, hwalls, htree.isAcyclic⟩
  have hstart : AtPixel lib player (centre (CellPtr.origin : CellPtr W H)) := by
    rw [centre_origin]
    refine ⟨by rw [hx]; norm_num, by rw [hy]; norm_num, ?_, ?_⟩
    · rw [hdelta]
      exact ⟨hcos, hsin⟩
    · intro hheld
      cases hupdate.symm.trans hheld
  rcases htree.connected.preconnected CellPtr.origin CellPtr.goal with ⟨walk⟩
  rcases exists_pixelRun hmaze walk with ⟨sides, hsides⟩
  rcases hstart.keys hsides with ⟨hfree, hgoal⟩
  refine ⟨maze, hrun, sides.map keyToward, ?_, hfree, checkGameEnd_of_goal hsize hgoal⟩
  intro key hkey
  rcases List.mem_map.mp hkey with ⟨side, -, rfl⟩
  cases side <;> decide

/-- A maze of three by two cells on memory full of garbage. -/
theorem maze_can_be_won_three_by_two :
    let player : Player := ⟨50, 50, 0, 0, 0, 0, false, false⟩
    ∃ maze : Maze 3 2,
      generateMaze (fun _ => ⟨true, false, true, false, true, 7, none⟩) (fun n => n) = some maze ∧
      ∃ keys : List UInt8, (∀ key ∈ keys, key ∈ [0x11, 0x1e, 0x1f, 0x20]) ∧
        Throughout (fun player key => gameKeyboardHandler MathLib.headingZero maze key player)
          (MovesFreely MathLib.headingZero maze) keys player ∧
        checkGameEnd maze (keys.foldl
          (fun player key => gameKeyboardHandler MathLib.headingZero maze key player) player) =
            true :=
  maze_can_be_won _ _ MathLib.headingZero rfl rfl _ rfl rfl rfl rfl

end LCOMaze
