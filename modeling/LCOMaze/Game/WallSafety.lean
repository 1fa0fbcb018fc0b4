import LCOMaze.Game.PerfectMaze
import LCOMaze.Game.Player
import Mathlib.Tactic.Linarith

/-!
# The player never phases through a wall

{lit}`check_collision` looks at five points of the new position only.  Because the
extremities are 25 pixels away from the centre and a key moves it by at most ten,
a centre that changes column or row had an extremity in the next cell before and
leaves one behind, so that border is open.  Changing both at once would need four
open borders around one corner, which a maze without cycles does not have.

Main results:

- Theorem {lit}`exists_passage_of_extremity`: an accepted position reaches into
  another cell only through a passage.
- Theorem {lit}`eq_or_adj_of_accepted`: two accepted positions at most ten pixels
  apart lie in one cell or in two cells joined by a passage.
- Theorem {lit}`player_never_phases`: every run of key events visits a walk of the
  passage graph.
-/

namespace LCOMaze

open Foundations

variable {W H : Nat} {maze : Maze W H}

/-! ## Accepted positions -/

/-- What {lit}`generate_maze` guarantees and the collision test relies on. -/
structure PassageMaze (maze : Maze W H) : Prop where
  cellSize_eq : maze.cellSize = 100
  walls : WallsConsistent maze.cells
  acyclic : (passageGraph maze.cells).IsAcyclic

/-- An extremity of an accepted position outside the centre cell lies in the
neighbour on its side, and the border is open. -/
theorem exists_passage_of_extremity (hmaze : PassageMaze maze) {x y : Int}
    (haccepted : checkCollision maze x y 25 = false) {center : CellPtr W H}
    (hcenter : getCell maze x y = some center) (side : Side)
    (hout : getCell maze (extremity x y 25 side).1 (extremity x y 25 side).2 ≠ some center) :
    ∃ cell, center.neighbour side = some cell ∧ (passageGraph maze.cells).Adj center cell := by
  rcases checkCollision_eq_false_iff.mp haccepted with ⟨c, hc, hsides⟩
  have hcc : c = center := Option.some.inj (hc.symm.trans hcenter)
  subst hcc
  rcases hsides side with ⟨cell, hcell, hopen⟩
  have hne : cell ≠ c := by
    intro heq
    exact hout (heq ▸ hcell)
  have hside : c.neighbour side = some cell := by
    have hne' : cell.x ≠ c.x ∨ cell.y ≠ c.y := by
      by_contra hsame
      push Not at hsame
      exact hne (CellPtr.ext hsame.1 hsame.2)
    rw [getCell_eq_some_iff hmaze.cellSize_eq] at hcell hcenter
    rw [CellPtr.neighbour_eq_some_iff]
    cases side <;>
      simp only [extremity, CellPtr.columnAcross, CellPtr.rowAcross] at hcell ⊢ <;> omega
  refine ⟨cell, hside, (hmaze.walls.adj_iff hside).mpr ?_⟩
  have hfacing := hmaze.walls.facing c side cell hside
  rcases hopen with heq | hopen | hopen
  · exact (hne heq).elim
  · rw [hfacing, hopen]
  · exact hopen

/-- The second cell lies one column or one row further across a side. -/
def LiesAcross (before after : CellPtr W H) : Side → Prop
  | .left => (after.x : Int) = before.x - 1
  | .right => (after.x : Int) = before.x + 1
  | .top => (after.y : Int) = before.y - 1
  | .bottom => (after.y : Int) = before.y + 1

/-- Two cells on different sides of a border both have a passage through a border
of that direction. -/
structure Crossing (maze : Maze W H) (before after : CellPtr W H) (side : Side) : Prop where
  across : LiesAcross before after side
  leaves : ∃ cell, before.neighbour side = some cell ∧
    (passageGraph maze.cells).Adj before cell
  enters : ∃ cell, after.neighbour side.opposite = some cell ∧
    (passageGraph maze.cells).Adj after cell

section TwoPositions

variable {x y x' y' : Int} {before after : CellPtr W H}

/-- A step of ten pixels across a border starts with an extremity beyond it and
ends with an extremity behind it. -/
theorem crossing_of_liesAcross (hmaze : PassageMaze maze)
    (h : checkCollision maze x y 25 = false) (h' : checkCollision maze x' y' 25 = false)
    (hx : |x' - x| ≤ 10) (hy : |y' - y| ≤ 10)
    (hbefore : getCell maze x y = some before) (hafter : getCell maze x' y' = some after)
    {side : Side} (hacross : LiesAcross before after side) :
    Crossing maze before after side := by
  have hb := (getCell_eq_some_iff hmaze.cellSize_eq).mp hbefore
  have ha := (getCell_eq_some_iff hmaze.cellSize_eq).mp hafter
  rw [abs_le] at hx hy
  refine ⟨hacross, ?_, ?_⟩
  · apply exists_passage_of_extremity hmaze h hbefore
    rw [Ne, getCell_eq_some_iff hmaze.cellSize_eq]
    cases side <;> simp only [LiesAcross, extremity] at hacross ⊢ <;> omega
  · apply exists_passage_of_extremity hmaze h' hafter
    rw [Ne, getCell_eq_some_iff hmaze.cellSize_eq]
    cases side <;> simp only [LiesAcross, extremity, Side.opposite] at hacross ⊢ <;> omega

/-- Cells of positions ten pixels apart differ by at most one column and one row. -/
theorem liesAcross_of_near (hmaze : PassageMaze maze)
    (hx : |x' - x| ≤ 10) (hy : |y' - y| ≤ 10)
    (hbefore : getCell maze x y = some before) (hafter : getCell maze x' y' = some after) :
    (before.x = after.x ∨ ∃ s, (s = .left ∨ s = .right) ∧ LiesAcross before after s) ∧
      (before.y = after.y ∨ ∃ t, (t = .top ∨ t = .bottom) ∧ LiesAcross before after t) := by
  have hb := (getCell_eq_some_iff hmaze.cellSize_eq).mp hbefore
  have ha := (getCell_eq_some_iff hmaze.cellSize_eq).mp hafter
  rw [abs_le] at hx hy
  constructor
  · by_cases heq : before.x = after.x
    · exact Or.inl heq
    · have hcases : (after.x : Int) = before.x - 1 ∨ (after.x : Int) = before.x + 1 := by omega
      rcases hcases with hleft | hright
      · exact Or.inr ⟨.left, Or.inl rfl, hleft⟩
      · exact Or.inr ⟨.right, Or.inr rfl, hright⟩
  · by_cases heq : before.y = after.y
    · exact Or.inl heq
    · have hcases : (after.y : Int) = before.y - 1 ∨ (after.y : Int) = before.y + 1 := by omega
      rcases hcases with htop | hbottom
      · exact Or.inr ⟨.top, Or.inl rfl, htop⟩
      · exact Or.inr ⟨.bottom, Or.inr rfl, hbottom⟩

/-- A crossing along one axis only leads to the neighbour on that side. -/
theorem Crossing.adj {side : Side} (hcross : Crossing maze before after side)
    (hother : (side = .left ∨ side = .right) ∧ before.y = after.y ∨
      (side = .top ∨ side = .bottom) ∧ before.x = after.x) :
    (passageGraph maze.cells).Adj before after := by
  rcases hcross with ⟨hacross, ⟨cell, hcell, hadj⟩, -⟩
  have heq : cell = after := by
    rw [CellPtr.neighbour_eq_some_iff] at hcell
    rw [CellPtr.ext_iff, Fin.ext_iff, Fin.ext_iff]
    rcases hother with ⟨rfl | rfl, hsame⟩ | ⟨rfl | rfl, hsame⟩ <;>
      simp only [LiesAcross, CellPtr.columnAcross, CellPtr.rowAcross] at hacross hcell <;>
      omega
  exact heq ▸ hadj

/-- The centre cannot change column and row at once: the four borders around the
corner would form a cycle of passages. -/
theorem not_diagonal (hmaze : PassageMaze maze) {s t : Side}
    (hs : s = .left ∨ s = .right) (ht : t = .top ∨ t = .bottom)
    (hcross : Crossing maze before after s) (hcross' : Crossing maze before after t) : False := by
  rcases hcross with ⟨hcolumn, ⟨b, hb, hab⟩, ⟨d', hd', hcd'⟩⟩
  rcases hcross' with ⟨hrow, ⟨d, hd, had⟩, ⟨b', hb', hcb'⟩⟩
  rw [CellPtr.neighbour_eq_some_iff] at hb hd hb' hd'
  have hcorner : (b' = b ∧ d' = d) ∧ b ≠ d ∧ before ≠ after := by
    simp only [CellPtr.ext_iff, Fin.ext_iff, Ne]
    rcases hs with rfl | rfl <;> rcases ht with rfl | rfl <;>
      simp only [LiesAcross, CellPtr.columnAcross, CellPtr.rowAcross, Side.opposite] at * <;>
      omega
  rcases hcorner with ⟨⟨rfl, rfl⟩, hbd, hne⟩
  exact hbd (common_neighbour_unique hmaze.acyclic hne hab hcb'.symm had hcd'.symm)

/-- Two accepted positions at most ten pixels apart on each axis have their
centres in one cell or in two cells joined by a passage. -/
theorem eq_or_adj_of_accepted (hmaze : PassageMaze maze)
    (h : checkCollision maze x y 25 = false) (h' : checkCollision maze x' y' 25 = false)
    (hx : |x' - x| ≤ 10) (hy : |y' - y| ≤ 10)
    (hbefore : getCell maze x y = some before) (hafter : getCell maze x' y' = some after) :
    before = after ∨ (passageGraph maze.cells).Adj before after := by
  have hcross : ∀ side, LiesAcross before after side → Crossing maze before after side :=
    fun side => crossing_of_liesAcross hmaze h h' hx hy hbefore hafter
  rcases liesAcross_of_near hmaze hx hy hbefore hafter with
    ⟨hcolumn | ⟨s, hs, hcolumn⟩, hrow | ⟨t, ht, hrow⟩⟩
  · exact Or.inl (CellPtr.ext hcolumn hrow)
  · exact Or.inr ((hcross t hrow).adj (Or.inr ⟨ht, hcolumn⟩))
  · exact Or.inr ((hcross s hcolumn).adj (Or.inl ⟨hs, hrow⟩))
  · exact (not_diagonal hmaze hs ht (hcross s hcolumn) (hcross t hrow)).elim

end TwoPositions

/-! ## Runs of key events -/

/-- The centre of the player as {lit}`check_collision` receives it is accepted. -/
def PlayerAccepted (maze : Maze W H) (player : Player) : Prop :=
  checkCollision maze (truncToInt player.x) (truncToInt player.y) 25 = false

/-- The cell that contains the centre of the player. -/
def centreCell (maze : Maze W H) (player : Player) : Option (CellPtr W H) :=
  getCell maze (truncToInt player.x) (truncToInt player.y)

/-- One key event: the key and what the mathematical functions return for it. -/
structure KeyEvent where
  lib : MathLib
  kbdValue : UInt8

/-- The displacement that a key event asks for. -/
def KeyEvent.displacement (event : KeyEvent) (player : Player) : ℚ × ℚ :=
  let changer := keyChanger event.lib event.kbdValue player.delta
  (changer.1 * 10, changer.2 * 10)

/-- The players before the first, between and after the last of some key events. -/
def keyRun (maze : Maze W H) (player : Player) : List KeyEvent → List Player
  | [] => [player]
  | event :: events =>
      player :: keyRun maze (gameKeyboardHandler event.lib maze event.kbdValue player) events

/-- Every displacement of at most ten pixels on each axis is that of some event. -/
theorem KeyEvent.exists_displacement {dx dy : ℚ} (hdx : |dx| ≤ 10) (hdy : |dy| ≤ 10) :
    ∃ event : KeyEvent, ∀ player, event.displacement player = (dx, dy) := by
  have hten : |(10 : ℚ)| = 10 := by norm_num
  let lib : MathLib :=
    { cos := fun _ => dx / 10
      sin := fun _ => dy / 10
      atan2 := fun _ _ => 0
      pi := 3
      abs_cos_le := fun _ => by rw [abs_div, hten, div_le_one (by norm_num)]; exact hdx
      abs_sin_le := fun _ => by rw [abs_div, hten, div_le_one (by norm_num)]; exact hdy }
  refine ⟨⟨lib, 0x11⟩, fun player => ?_⟩
  simp [KeyEvent.displacement, keyChanger, lib]

/-- A coordinate whose two extremities lie in the maze is 25 pixels inside it. -/
theorem inside_of_extremities {q : ℚ} {n : Nat} (hlow : 0 ≤ truncToInt q - 25)
    (hhigh : truncToInt q + 25 < 100 * n) : 25 ≤ q ∧ q + 25 < 100 * n := by
  have hle : ((25 : Int) : ℚ) ≤ q := le_of_le_truncToInt (by norm_num) (by omega)
  have hpos : 0 ≤ q := le_trans (by norm_num) hle
  have hhigh' : (truncToInt q : ℚ) + 26 ≤ 100 * n := by
    exact_mod_cast (by omega : truncToInt q + 26 ≤ 100 * n)
  have htrunc := (truncToInt_of_nonneg hpos).2
  exact ⟨by exact_mod_cast hle, by linarith⟩

/-- The centre of an accepted player stays 25 pixels inside the maze. -/
theorem PlayerAccepted.inside (hmaze : PassageMaze maze) {player : Player}
    (h : PlayerAccepted maze player) :
    (25 ≤ player.x ∧ player.x + 25 < 100 * W) ∧ (25 ≤ player.y ∧ player.y + 25 < 100 * H) := by
  rcases checkCollision_eq_false_iff.mp h with ⟨center, -, hsides⟩
  have hinside : ∀ side,
      let point := extremity (truncToInt player.x) (truncToInt player.y) 25 side
      0 ≤ point.1 ∧ point.1 < 100 * W ∧ 0 ≤ point.2 ∧ point.2 < 100 * H := by
    intro side
    rcases hsides side with ⟨cell, hcell, -⟩
    exact (getCell_isSome_iff hmaze.cellSize_eq).mp ⟨cell, hcell⟩
  exact ⟨inside_of_extremities (hinside .left).1 (hinside .right).2.1,
    inside_of_extremities (hinside .top).2.2.1 (hinside .bottom).2.2.2⟩

/-- One key event keeps the player accepted and moves its centre at most through
one passage. -/
theorem key_step (hmaze : PassageMaze maze) {player : Player} {before : CellPtr W H}
    (haccepted : PlayerAccepted maze player) (hbefore : centreCell maze player = some before)
    (event : KeyEvent) :
    let moved := gameKeyboardHandler event.lib maze event.kbdValue player
    PlayerAccepted maze moved ∧ ∃ after, centreCell maze moved = some after ∧
      (before = after ∨ (passageGraph maze.cells).Adj before after) := by
  intro moved
  have hinside := haccepted.inside hmaze
  have hbound := abs_keyChanger_le event.lib event.kbdValue player.delta
  rw [abs_le, abs_le] at hbound
  rcases gameKeyboardHandler_cases event.lib maze event.kbdValue player with
    ⟨hx, hy⟩ | ⟨hx, hy, hnew⟩
  · -- the key was refused or moves nothing
    have hsame : centreCell maze moved = centreCell maze player := by
      simp only [centreCell, moved, hx, hy]
    refine ⟨?_, before, hsame.trans hbefore, Or.inl rfl⟩
    simpa only [PlayerAccepted, moved, hx, hy] using haccepted
  · have haccepted' : PlayerAccepted maze moved := hnew
    have hinside' := haccepted'.inside hmaze
    rcases checkCollision_eq_false_iff.mp hnew with ⟨after, hafter, -⟩
    refine ⟨hnew, after, hafter, ?_⟩
    have hnear_x : |moved.x - player.x| ≤ 10 := by
      rw [abs_le, hx]
      constructor <;> linarith
    have hnear_y : |moved.y - player.y| ≤ 10 := by
      rw [abs_le, hy]
      constructor <;> linarith
    have htrunc_x := truncToInt_near (by linarith) (by linarith) hnear_x
    have htrunc_y := truncToInt_near (by linarith) (by linarith) hnear_y
    exact eq_or_adj_of_accepted hmaze haccepted hnew htrunc_x htrunc_y hbefore hafter

/-- Over a whole run every position stays accepted, and the cells of the centre
form a walk of the passage graph that may pause. -/
theorem keyRun_walk (hmaze : PassageMaze maze) (events : List KeyEvent) {player : Player}
    {start : CellPtr W H} (haccepted : PlayerAccepted maze player)
    (hstart : centreCell maze player = some start) :
    (∀ p ∈ keyRun maze player events, PlayerAccepted maze p) ∧
      ∃ walk : List (CellPtr W H),
        (keyRun maze player events).map (centreCell maze) = walk.map some ∧
        walk.head? = some start ∧
        walk.IsChain (fun p q => p = q ∨ (passageGraph maze.cells).Adj p q) := by
  induction events generalizing player start with
  | nil =>
      refine ⟨by simpa [keyRun] using haccepted, [start], ?_, rfl, .singleton start⟩
      simp [keyRun, hstart]
  | cons event events ih =>
      rcases key_step hmaze haccepted hstart event with ⟨haccepted', next, hnext, hstep⟩
      rcases ih haccepted' hnext with ⟨hall, walk, hwalk, hhead, hchain⟩
      refine ⟨?_, start :: walk, ?_, rfl, ?_⟩
      · intro p hp
        rcases List.mem_cons.mp hp with rfl | hp
        · exact haccepted
        · exact hall p hp
      · rw [keyRun, List.map_cons, List.map_cons, hwalk, hstart]
      · rw [List.isChain_cons]
        refine ⟨fun q hq => ?_, hchain⟩
        have hqn : q = next := by simpa [hhead] using hq.symm
        exact hqn ▸ hstep

/-- A generated maze satisfies what the collision test relies on. -/
theorem generateMaze_passageMaze [NeZero W] [NeZero H] (mem : Cells W H) (rand : Nat → Nat) :
    ∃ maze, generateMaze mem rand = some maze ∧ PassageMaze maze := by
  rcases generateMaze_spec mem rand with ⟨maze, hrun, hsize, hwalls, -, htree⟩
  exact ⟨maze, hrun, hsize, hwalls, htree.isAcyclic⟩

/-- The start position is accepted and lies in the corner cell. -/
theorem start_accepted [NeZero W] [NeZero H] (hmaze : PassageMaze maze) {player : Player}
    (hx : player.x = 50) (hy : player.y = 50) :
    PlayerAccepted maze player ∧ centreCell maze player = some CellPtr.origin := by
  have htrunc : truncToInt 50 = 50 := by
    rw [truncToInt, if_pos (by norm_num)]
    exact Int.floor_natCast 50
  have hcell : ∀ x y : Int, 25 ≤ x → x ≤ 75 → 25 ≤ y → y ≤ 75 →
      getCell maze x y = some CellPtr.origin := by
    intro x y hx1 hx2 hy1 hy2
    rw [getCell_eq_some_iff hmaze.cellSize_eq]
    simp only [CellPtr.origin, Fin.val_zero]
    omega
  have hcentre : centreCell maze player = some CellPtr.origin := by
    rw [centreCell, hx, hy, htrunc]
    exact hcell 50 50 (by norm_num) (by norm_num) (by norm_num) (by norm_num)
  refine ⟨?_, hcentre⟩
  rw [PlayerAccepted, hx, hy, htrunc, checkCollision_eq_false_iff]
  refine ⟨CellPtr.origin, hcell 50 50 (by norm_num) (by norm_num) (by norm_num) (by norm_num),
    fun side => ⟨CellPtr.origin, ?_, Or.inl rfl⟩⟩
  cases side <;> apply hcell <;> norm_num [extremity]

/-- The player never phases through a wall: in every generated maze and for every
sequence of key events from the start position, every position reached is accepted
by {lit}`check_collision` and stays 25 pixels inside the maze, and the cells of the
centre are a walk from the corner that only uses open passages. -/
theorem player_never_phases [NeZero W] [NeZero H] (mem : Cells W H) (rand : Nat → Nat)
    (player : Player) (hx : player.x = 50) (hy : player.y = 50) (events : List KeyEvent) :
    ∃ maze, generateMaze mem rand = some maze ∧
      (∀ p ∈ keyRun maze player events,
        checkCollision maze (truncToInt p.x) (truncToInt p.y) 25 = false ∧
        (25 ≤ p.x ∧ p.x + 25 < 100 * W) ∧ (25 ≤ p.y ∧ p.y + 25 < 100 * H)) ∧
      ∃ walk : List (CellPtr W H),
        (keyRun maze player events).map (centreCell maze) = walk.map some ∧
        walk.head? = some CellPtr.origin ∧
        walk.IsChain (fun p q => p = q ∨ (passageGraph maze.cells).Adj p q) := by
  rcases generateMaze_passageMaze mem rand with ⟨maze, hrun, hmaze⟩
  rcases start_accepted hmaze hx hy with ⟨haccepted, hstart⟩
  rcases keyRun_walk hmaze events haccepted hstart with ⟨hall, hwalk⟩
  exact ⟨maze, hrun, fun p hp => ⟨hall p hp, (hall p hp).inside hmaze⟩, hwalk⟩

/-- Two W keys, heading to the right, in a maze of two by one cells. -/
theorem player_never_phases_two_keys :
    let events : List KeyEvent := [⟨MathLib.headingZero, 0x11⟩, ⟨MathLib.headingZero, 0x11⟩]
    let player : Player := ⟨50, 50, 0, 0, 0, 0, false, false⟩
    ∃ maze : Maze 2 1,
      generateMaze (fun _ => ⟨false, true, true, true, true, 0, none⟩) (fun n => n) = some maze ∧
      (∀ p ∈ keyRun maze player events,
        checkCollision maze (truncToInt p.x) (truncToInt p.y) 25 = false ∧
        (25 ≤ p.x ∧ p.x + 25 < 100 * (2 : Nat)) ∧ (25 ≤ p.y ∧ p.y + 25 < 100 * (1 : Nat))) ∧
      ∃ walk : List (CellPtr 2 1),
        (keyRun maze player events).map (centreCell maze) = walk.map some ∧
        walk.head? = some CellPtr.origin ∧
        walk.IsChain (fun p q => p = q ∨ (passageGraph maze.cells).Adj p q) :=
  player_never_phases _ _ _ rfl rfl _

end LCOMaze
