import LCOMaze.Foundations.NearestEven
import LCOMaze.Game.Maze
import Mathlib.Tactic.Linarith

/-!
# The player of {lit}`game.c`

The {lit}`double` variables of the game are modelled by rational numbers.  The
functions of {lit}`math.h` are not part of the program: they are a parameter whose
sine and cosine lie between minus one and one.  The sums and products of this module are
exact; where the drawing rounds them, the arithmetic is a parameter as well.

Main results:

- Theorem {lit}`getCell_eq_some_iff`: the cell at a pixel is the one whose square
  contains it.
- Theorem {lit}`checkCollision_eq_false_iff`: what a position accepted by
  {lit}`check_collision` looks like on every side.
- Theorem {lit}`gameKeyboardHandler_cases`: a key moves the player by its whole
  displacement to an accepted position, or not at all.
-/

namespace LCOMaze

open Foundations

variable {W H : Nat}

/-! ## Doubles -/

/-- The arithmetic of {lit}`double`, which has 53 binary digits.  No value of the game comes near
the ends of its range, so the exponent is not bounded. -/
abbrev Doubles := FloatArith 53

/-- Its default is to round to nearest. -/
def binary64 : Doubles := .nearestEven 52

example : binary64.round (1 / 10) ≠ 1 / 10 := by decide +kernel

/-! ## Cells under pixels -/

/-- Dividing a coordinate inside the maze by the cell size gives a cell index. -/
theorem cellIndex_bounds {n : Nat} {size x : Int} (hx : 0 ≤ x) (hlt : x < n * size) :
    0 ≤ x / size ∧ x / size < n := by
  have hpos : 0 < size := by
    by_contra hneg
    have hle : (n : Int) * size ≤ 0 :=
      mul_nonpos_of_nonneg_of_nonpos (Int.natCast_nonneg n) (not_lt.mp hneg)
    omega
  exact ⟨Int.ediv_nonneg hx hpos.le, Int.ediv_lt_of_lt_mul hpos hlt⟩

/-- {lit}`get_cell`: the cell at a pixel, or {lean}`none` outside the maze. -/
def getCell (maze : Maze W H) (x y : Int) : Option (CellPtr W H) :=
  if h : x < 0 ∨ x ≥ W * maze.cellSize ∨ y < 0 ∨ y ≥ H * maze.cellSize then none
  else
    have hx : 0 ≤ x / maze.cellSize ∧ x / maze.cellSize < W :=
      cellIndex_bounds (by omega) (by omega)
    have hy : 0 ≤ y / maze.cellSize ∧ y / maze.cellSize < H :=
      cellIndex_bounds (by omega) (by omega)
    some ⟨⟨(x / maze.cellSize).toNat, by omega⟩, ⟨(y / maze.cellSize).toNat, by omega⟩⟩

/-- {lit}`check_collision`.  The centre cell is {lit}`NULL` only when one of the
four extremity cells is. -/
def checkCollision (maze : Maze W H) (x y : Int) (size : Nat) : Bool :=
  match getCell maze (x - size) y, getCell maze (x + size) y,
      getCell maze x (y - size), getCell maze x (y + size), getCell maze x y with
  | some left, some right, some top, some bottom, some center =>
      (left ≠ center && (maze.cells left).rightWall && (maze.cells center).leftWall) ||
      (right ≠ center && (maze.cells right).leftWall && (maze.cells center).rightWall) ||
      (top ≠ center && (maze.cells top).bottomWall && (maze.cells center).topWall) ||
      (bottom ≠ center && (maze.cells bottom).topWall && (maze.cells center).bottomWall)
  | _, _, _, _, _ => true

/-- The point of the player that reaches furthest to one side. -/
def extremity (x y : Int) (size : Nat) : Side → Int × Int
  | .left => (x - size, y)
  | .right => (x + size, y)
  | .top => (x, y - size)
  | .bottom => (x, y + size)

/-- On cells of a hundred pixels, the cell at a pixel is the square around it. -/
theorem getCell_eq_some_iff {maze : Maze W H} (hsize : maze.cellSize = 100) {x y : Int}
    {p : CellPtr W H} :
    getCell maze x y = some p ↔
      100 * (p.x : Int) ≤ x ∧ x < 100 * (p.x : Int) + 100 ∧
      100 * (p.y : Int) ≤ y ∧ y < 100 * (p.y : Int) + 100 := by
  obtain ⟨⟨px, hpx⟩, ⟨py, hpy⟩⟩ := p
  simp only [getCell, hsize]
  split_ifs with h
  · simp only [false_iff]
    omega
  · simp only [Option.some.injEq, CellPtr.mk.injEq, Fin.mk.injEq]
    omega

/-- Every pixel of the maze lies in some cell. -/
theorem getCell_isSome_iff {maze : Maze W H} (hsize : maze.cellSize = 100) {x y : Int} :
    (∃ p, getCell maze x y = some p) ↔ 0 ≤ x ∧ x < 100 * W ∧ 0 ≤ y ∧ y < 100 * H := by
  simp only [getCell, hsize]
  split_ifs with h
  · simp only [exists_false, false_iff]
    omega
  · simp only [Option.some.injEq, exists_eq', true_iff]
    omega

/-- A position is accepted when all four extremities are in the maze and none of
them lies behind a border that is walled from both sides. -/
theorem checkCollision_eq_false_iff {maze : Maze W H} {x y : Int} {size : Nat} :
    checkCollision maze x y size = false ↔
      ∃ center, getCell maze x y = some center ∧
        ∀ side, ∃ cell,
          getCell maze (extremity x y size side).1 (extremity x y size side).2 = some cell ∧
          (cell = center ∨ (maze.cells cell).wall side.opposite = false ∨
            (maze.cells center).wall side = false) := by
  constructor
  · intro h
    unfold checkCollision at h
    split at h
    · rename_i left right top bottom center hleft hright htop hbottom hcenter
      simp only [Bool.or_eq_false_iff, Bool.and_eq_false_iff, decide_eq_false_iff_not,
        not_not, or_assoc] at h
      refine ⟨center, hcenter, fun side => ?_⟩
      cases side with
      | left => exact ⟨left, hleft, by simpa [Cell.wall, Side.opposite] using h.1.1.1⟩
      | right => exact ⟨right, hright, by simpa [Cell.wall, Side.opposite] using h.1.1.2⟩
      | top => exact ⟨top, htop, by simpa [Cell.wall, Side.opposite] using h.1.2⟩
      | bottom => exact ⟨bottom, hbottom, by simpa [Cell.wall, Side.opposite] using h.2⟩
    · contradiction
  · intro h
    rcases h with ⟨center, hcenter, hsides⟩
    rcases hsides .left with ⟨left, hleft, hleft'⟩
    rcases hsides .right with ⟨right, hright, hright'⟩
    rcases hsides .top with ⟨top, htop, htop'⟩
    rcases hsides .bottom with ⟨bottom, hbottom, hbottom'⟩
    simp only [extremity] at hleft hright htop hbottom
    simp only [checkCollision, hleft, hright, htop, hbottom, hcenter]
    simp only [Side.opposite, Cell.wall] at hleft' hright' htop' hbottom'
    simp only [Bool.or_eq_false_iff, Bool.and_eq_false_iff, decide_eq_false_iff_not,
      not_not, or_assoc]
    exact ⟨⟨⟨hleft', hright'⟩, htop'⟩, hbottom'⟩

/-! ## The keyboard handler -/

/-- The functions of {lit}`math.h` that the game calls. -/
structure MathLib where
  cos : ℚ → ℚ
  sin : ℚ → ℚ
  atan2 : ℚ → ℚ → ℚ
  pi : ℚ
  abs_cos_le : ∀ angle, |cos angle| ≤ 1
  abs_sin_le : ∀ angle, |sin angle| ≤ 1

/-- The functions of {lit}`math.h` as far as they are needed at the angle zero. -/
def MathLib.headingZero : MathLib where
  cos := fun _ => 1
  sin := fun _ => 0
  atan2 := fun _ _ => 0
  pi := 22 / 7
  abs_cos_le := fun _ => by norm_num
  abs_sin_le := fun _ => by norm_num

/-- The global variables of {lit}`game.c` that describe the player and the cursor. -/
structure Player where
  x : ℚ
  y : ℚ
  xMouse : ℚ
  yMouse : ℚ
  delta : ℚ
  direction : ℚ
  isMoving : Bool
  updateDelta : Bool

/-- {lit}`check_game_end`. -/
def checkGameEnd (maze : Maze W H) (player : Player) : Bool :=
  ((((W : Int) - 1) * maze.cellSize - 25 : Int) : ℚ) ≤ player.x &&
    ((((H : Int) - 1) * maze.cellSize - 25 : Int) : ℚ) ≤ player.y

/-- The conversion of a {lit}`double` argument to {lit}`int`: truncation towards zero. -/
def truncToInt (q : ℚ) : Int :=
  if 0 ≤ q then ⌊q⌋ else ⌈q⌉

/-- Truncating a coordinate of at least zero moves it by less than one pixel. -/
theorem truncToInt_of_nonneg {q : ℚ} (hq : 0 ≤ q) :
    (truncToInt q : ℚ) ≤ q ∧ q < truncToInt q + 1 := by
  rw [truncToInt, if_pos hq]
  exact ⟨Int.floor_le q, Int.lt_floor_add_one q⟩

/-- A coordinate is at least as large as a positive lower bound of its truncation. -/
theorem le_of_le_truncToInt {q : ℚ} {n : Int} (hn : 0 < n) (h : n ≤ truncToInt q) :
    (n : ℚ) ≤ q := by
  unfold truncToInt at h
  split_ifs at h with hq
  · exact Int.le_floor.mp h
  · have hceil : ⌈q⌉ ≤ 0 := Int.ceil_le.mpr (by push_cast; exact (not_le.mp hq).le)
    omega

/-- Coordinates at most ten apart are at most ten apart after truncation. -/
theorem truncToInt_near {q r : ℚ} (hq : 0 ≤ q) (hr : 0 ≤ r) (h : |r - q| ≤ 10) :
    |truncToInt r - truncToInt q| ≤ 10 := by
  rcases truncToInt_of_nonneg hq with ⟨hq1, hq2⟩
  rcases truncToInt_of_nonneg hr with ⟨hr1, hr2⟩
  rw [abs_le] at h ⊢
  constructor
  · have hlt : ((truncToInt q : Int) : ℚ) - 11 < truncToInt r := by linarith
    have hlt' : truncToInt q - 11 < truncToInt r := by exact_mod_cast hlt
    omega
  · have hlt : ((truncToInt r : Int) : ℚ) < truncToInt q + 11 := by linarith
    have hlt' : truncToInt r < truncToInt q + 11 := by exact_mod_cast hlt
    omega

/-- {lit}`x_changer` and {lit}`y_changer` for the keys W, S, A and D; any other
key moves nothing. -/
def keyChanger (lib : MathLib) (kbdValue : UInt8) (delta : ℚ) : ℚ × ℚ :=
  if kbdValue = 0x11 then (lib.cos delta, lib.sin delta)
  else if kbdValue = 0x1f then (-lib.cos delta, -lib.sin delta)
  else if kbdValue = 0x1e then (-lib.sin delta, lib.cos delta)
  else if kbdValue = 0x20 then (lib.sin delta, -lib.cos delta)
  else (0, 0)

/-- The assignments to {lit}`direction`, one for each key that moves the player. -/
def keyDirection (lib : MathLib) (kbdValue : UInt8) (player : Player) : ℚ :=
  if kbdValue = 0x11 then player.delta
  else if kbdValue = 0x1f then player.delta + lib.pi
  else if kbdValue = 0x1e then player.delta - lib.pi / 2
  else if kbdValue = 0x20 then player.delta + lib.pi / 2
  else player.direction

/-- {lit}`game_update_delta`; the global {lit}`img` is never assigned, so its
width and height are zero. -/
def gameUpdateDelta (lib : MathLib) (player : Player) : Player :=
  { player with
    delta := lib.atan2 (-(player.y - player.yMouse)) (player.x - player.xMouse) + lib.pi }

/-- Move by a displacement unless {lit}`check_collision` rejects the new position.  The sums are
exact: rounding them would change the target, but the test and the move would still share it. -/
def movePlayer (maze : Maze W H) (player : Player) (dx dy : ℚ) : Player :=
  if checkCollision maze (truncToInt (player.x + dx)) (truncToInt (player.y - dy)) 25 then
    player
  else { player with x := player.x + dx, y := player.y - dy }

/-- {lit}`game_keyboard_handler`. -/
def gameKeyboardHandler (lib : MathLib) (maze : Maze W H) (kbdValue : UInt8)
    (player : Player) : Player :=
  let changer := keyChanger lib kbdValue player.delta
  let player :=
    { player with
      isMoving := kbdValue = 0x11 || kbdValue = 0x1f || kbdValue = 0x1e || kbdValue = 0x20
      direction := keyDirection lib kbdValue player }
  let player := movePlayer maze player (changer.1 * 10) (changer.2 * 10)
  if player.updateDelta then gameUpdateDelta lib player else player

/-- No key asks for more than ten pixels on an axis. -/
theorem abs_keyChanger_le (lib : MathLib) (kbdValue : UInt8) (delta : ℚ) :
    |(keyChanger lib kbdValue delta).1| ≤ 1 ∧ |(keyChanger lib kbdValue delta).2| ≤ 1 := by
  have hcos := lib.abs_cos_le delta
  have hsin := lib.abs_sin_le delta
  unfold keyChanger
  split_ifs <;> simp only [abs_neg, abs_zero] <;> constructor <;>
    first | assumption | exact zero_le_one

/-- Updating the heading moves neither the player nor the cursor. -/
@[simp]
theorem gameUpdateDelta_x (lib : MathLib) (player : Player) :
    (gameUpdateDelta lib player).x = player.x := rfl

@[simp]
theorem gameUpdateDelta_y (lib : MathLib) (player : Player) :
    (gameUpdateDelta lib player).y = player.y := rfl

/-- A key does not touch the mouse button, and turns the player only while it is held. -/
theorem gameKeyboardHandler_heading (lib : MathLib) (maze : Maze W H) (kbdValue : UInt8)
    (player : Player) :
    (gameKeyboardHandler lib maze kbdValue player).updateDelta = player.updateDelta ∧
      (player.updateDelta = false →
        (gameKeyboardHandler lib maze kbdValue player).delta = player.delta) := by
  have hfinally : ∀ p : Player,
      (if p.updateDelta then gameUpdateDelta lib p else p).updateDelta = p.updateDelta ∧
        (p.updateDelta = false →
          (if p.updateDelta then gameUpdateDelta lib p else p).delta = p.delta) := by
    intro p
    cases hheld : p.updateDelta with
    | false => exact ⟨hheld, fun _ => rfl⟩
    | true => exact ⟨hheld, fun h => by cases h⟩
  have hmove : ∀ (p : Player) (dx dy : ℚ), (movePlayer maze p dx dy).updateDelta = p.updateDelta ∧
      (movePlayer maze p dx dy).delta = p.delta := by
    intro p dx dy
    unfold movePlayer
    split_ifs <;> exact ⟨rfl, rfl⟩
  refine ⟨(hfinally _).1.trans (hmove _ _ _).1, fun hreleased => ?_⟩
  refine Eq.trans ((hfinally _).2 ?_) (hmove _ _ _).2
  exact (hmove _ _ _).1.trans hreleased

/-- The position after a key is the one that {lit}`movePlayer` gives. -/
theorem gameKeyboardHandler_position (lib : MathLib) (maze : Maze W H) (kbdValue : UInt8)
    (player : Player) :
    let changer := keyChanger lib kbdValue player.delta
    let moved := movePlayer maze player (changer.1 * 10) (changer.2 * 10)
    (gameKeyboardHandler lib maze kbdValue player).x = moved.x ∧
      (gameKeyboardHandler lib maze kbdValue player).y = moved.y := by
  simp only [gameKeyboardHandler, movePlayer]
  split_ifs <;> exact ⟨rfl, rfl⟩

/-- A key either leaves the player in place or moves the player by its whole
displacement to an accepted position. -/
theorem gameKeyboardHandler_cases (lib : MathLib) (maze : Maze W H) (kbdValue : UInt8)
    (player : Player) :
    let changer := keyChanger lib kbdValue player.delta
    let moved := gameKeyboardHandler lib maze kbdValue player
    (moved.x = player.x ∧ moved.y = player.y) ∨
      (moved.x = player.x + changer.1 * 10 ∧ moved.y = player.y - changer.2 * 10 ∧
        checkCollision maze (truncToInt moved.x) (truncToInt moved.y) 25 = false) := by
  intro changer moved
  have hposition := gameKeyboardHandler_position lib maze kbdValue player
  simp only [moved, hposition.1, hposition.2, movePlayer]
  split_ifs with hcollision
  · exact Or.inl ⟨rfl, rfl⟩
  · exact Or.inr ⟨rfl, rfl, by simpa using hcollision⟩

end LCOMaze
