import Mathlib.Combinatorics.SimpleGraph.Acyclic
import Mathlib.Data.Fintype.Prod
import Mathlib.Data.Fintype.EquivFin

/-!
# Cells, walls and passages

The maze is a two-dimensional array of pointers to {lit}`struct Cell`.  Every
pointer is identified with the coordinates it is stored at, which the
initialization also writes to the fields {lit}`x` and {lit}`y` of the cell and
which nothing changes afterwards.

Main results:

- Theorem {lit}`CellPtr.neighbour_eq_some_iff`: moving across a side is
  symmetric.
- Theorem {lit}`gridGraph_preconnected`: the grid of cells is connected.
- Theorem {lit}`passageGraph_clearFacing`: clearing the two facing flags of a
  border opens exactly one passage.
-/

namespace LCOMaze

/-! ## Cell pointers -/

/-- The four sides of a cell, in the order in which the source visits them. -/
inductive Side where
  | left | right | top | bottom
deriving DecidableEq, Repr

instance : Fintype Side where
  elems := {.left, .right, .top, .bottom}
  complete side := by cases side <;> decide

/-- The side on which the neighbouring cell sees the common border. -/
def Side.opposite : Side → Side
  | .left => .right
  | .right => .left
  | .top => .bottom
  | .bottom => .top

@[simp]
theorem Side.opposite_opposite (side : Side) : side.opposite.opposite = side := by
  cases side <;> rfl

/-- A pointer {lit}`cells[y][x]` into a maze of {lit}`W` by {lit}`H` cells. -/
@[ext]
structure CellPtr (W H : Nat) where
  x : Fin W
  y : Fin H
deriving DecidableEq, Repr

namespace CellPtr

variable {W H : Nat}

/-- The pointer {lit}`cells[0][0]`. -/
def origin [NeZero W] [NeZero H] : CellPtr W H := ⟨0, 0⟩

/-- The pointer {lit}`cells[H - 1][W - 1]`. -/
def goal [NeZero W] [NeZero H] : CellPtr W H :=
  ⟨⟨W - 1, Nat.sub_one_lt (NeZero.ne W)⟩, ⟨H - 1, Nat.sub_one_lt (NeZero.ne H)⟩⟩

theorem eq_goal_iff [NeZero W] [NeZero H] {p : CellPtr W H} :
    p = goal ↔ p.x.val = W - 1 ∧ p.y.val = H - 1 := by
  rcases p with ⟨⟨x, hx⟩, ⟨y, hy⟩⟩
  simp [goal]

/-- Pointers are pairs of coordinates. -/
def equivProd : CellPtr W H ≃ Fin W × Fin H where
  toFun p := (p.x, p.y)
  invFun c := ⟨c.1, c.2⟩
  left_inv _ := rfl
  right_inv _ := rfl

instance : Fintype (CellPtr W H) := Fintype.ofEquiv _ equivProd.symm

/-- A maze of {lit}`W` by {lit}`H` cells has that many pointers. -/
theorem card_eq : Fintype.card (CellPtr W H) = W * H := by
  rw [Fintype.card_congr equivProd, Fintype.card_prod, Fintype.card_fin, Fintype.card_fin]

/-- The pointer across one side of a cell, when the maze goes on there: the
tests {lit}`x > 0`, {lit}`x < width - 1`, {lit}`y > 0` and
{lit}`y < height - 1` with the pointers they protect. -/
def neighbour (p : CellPtr W H) : Side → Option (CellPtr W H)
  | .left => if 0 < p.x.val then some ⟨⟨p.x - 1, by omega⟩, p.y⟩ else none
  | .right => if h : p.x.val + 1 < W then some ⟨⟨p.x + 1, h⟩, p.y⟩ else none
  | .top => if 0 < p.y.val then some ⟨p.x, ⟨p.y - 1, by omega⟩⟩ else none
  | .bottom => if h : p.y.val + 1 < H then some ⟨p.x, ⟨p.y + 1, h⟩⟩ else none

/-- The column reached from column {lit}`x` across a side. -/
def columnAcross (x : Int) : Side → Int
  | .left => x - 1
  | .right => x + 1
  | .top | .bottom => x

/-- The row reached from row {lit}`y` across a side. -/
def rowAcross (y : Int) : Side → Int
  | .left | .right => y
  | .top => y - 1
  | .bottom => y + 1

/-- A neighbour is the cell whose coordinates differ by one across the side. -/
theorem neighbour_eq_some_iff {p q : CellPtr W H} {side : Side} :
    p.neighbour side = some q ↔
      (q.x : Int) = columnAcross p.x side ∧ (q.y : Int) = rowAcross p.y side := by
  obtain ⟨⟨px, hpx⟩, ⟨py, hpy⟩⟩ := p
  obtain ⟨⟨qx, hqx⟩, ⟨qy, hqy⟩⟩ := q
  cases side <;> simp only [neighbour, columnAcross, rowAcross] <;> split_ifs <;>
    simp only [Option.some.injEq, mk.injEq, Fin.mk.injEq, false_iff] <;> omega

/-- Being neighbours is symmetric, with the sides exchanged. -/
theorem neighbour_comm {p q : CellPtr W H} {side : Side} :
    p.neighbour side = some q ↔ q.neighbour side.opposite = some p := by
  rw [neighbour_eq_some_iff, neighbour_eq_some_iff]
  cases side <;> simp only [columnAcross, rowAcross, Side.opposite] <;> omega

/-- A cell is not its own neighbour. -/
theorem neighbour_ne {p q : CellPtr W H} {side : Side} (h : p.neighbour side = some q) :
    p ≠ q := by
  rintro rfl
  rw [neighbour_eq_some_iff] at h
  cases side <;> simp only [columnAcross, rowAcross] at h <;> omega

/-- Two cells are neighbours across at most one side. -/
theorem neighbour_side_unique {p q : CellPtr W H} {s t : Side}
    (hs : p.neighbour s = some q) (ht : p.neighbour t = some q) : s = t := by
  rw [neighbour_eq_some_iff] at hs ht
  cases s <;> cases t <;> simp only [columnAcross, rowAcross] at hs ht <;>
    first | rfl | omega

end CellPtr

/-! ## The grid of cells -/

variable {W H : Nat}

/-- Two cells are adjacent in the grid when they share a border. -/
def gridGraph (W H : Nat) : SimpleGraph (CellPtr W H) where
  Adj p q := ∃ side, p.neighbour side = some q
  symm := ⟨fun _ _ ⟨side, h⟩ => ⟨side.opposite, CellPtr.neighbour_comm.mp h⟩⟩
  loopless := ⟨fun _ ⟨_, h⟩ => CellPtr.neighbour_ne h rfl⟩

/-- Every cell reaches the first cell of its row. -/
theorem gridGraph_reachable_row (x : Nat) (hx : x < W) (hW : 0 < W) (y : Fin H) :
    (gridGraph W H).Reachable ⟨⟨x, hx⟩, y⟩ ⟨⟨0, hW⟩, y⟩ := by
  induction x with
  | zero => rfl
  | succ x ih =>
      have hadj : (gridGraph W H).Adj ⟨⟨x + 1, hx⟩, y⟩ ⟨⟨x, by omega⟩, y⟩ :=
        ⟨.left, by simp [CellPtr.neighbour]⟩
      exact hadj.reachable.trans (ih (by omega))

/-- Every first cell of a row reaches the corner of the maze. -/
theorem gridGraph_reachable_column (y : Nat) (hy : y < H) (hH : 0 < H) (x : Fin W) :
    (gridGraph W H).Reachable ⟨x, ⟨y, hy⟩⟩ ⟨x, ⟨0, hH⟩⟩ := by
  induction y with
  | zero => rfl
  | succ y ih =>
      have hadj : (gridGraph W H).Adj ⟨x, ⟨y + 1, hy⟩⟩ ⟨x, ⟨y, by omega⟩⟩ :=
        ⟨.top, by simp [CellPtr.neighbour]⟩
      exact hadj.reachable.trans (ih (by omega))

/-- The grid of cells is connected. -/
theorem gridGraph_preconnected (W H : Nat) : (gridGraph W H).Preconnected := by
  intro p q
  have hW : 0 < W := p.x.pos
  have hH : 0 < H := p.y.pos
  have hcorner : ∀ r : CellPtr W H, (gridGraph W H).Reachable r ⟨⟨0, hW⟩, ⟨0, hH⟩⟩ :=
    fun r => (gridGraph_reachable_row r.x r.x.isLt hW r.y).trans
      (gridGraph_reachable_column r.y r.y.isLt hH _)
  exact (hcorner p).trans (hcorner q).symm

/-! ## Cells in memory -/

/-- {lit}`struct Cell` without the coordinates, which are those of its pointer. -/
structure Cell (W H : Nat) where
  visited : Bool
  topWall : Bool
  bottomWall : Bool
  leftWall : Bool
  rightWall : Bool
  dist : Int
  prev : Option (CellPtr W H)
deriving DecidableEq, Repr

/-- The wall flag of one side. -/
def Cell.wall (cell : Cell W H) : Side → Bool
  | .left => cell.leftWall
  | .right => cell.rightWall
  | .top => cell.topWall
  | .bottom => cell.bottomWall

/-- The assignment {lit}`cell->..._wall = 0` for one side. -/
def Cell.clearWall (cell : Cell W H) : Side → Cell W H
  | .left => { cell with leftWall := false }
  | .right => { cell with rightWall := false }
  | .top => { cell with topWall := false }
  | .bottom => { cell with bottomWall := false }

@[simp]
theorem Cell.clearWall_wall (cell : Cell W H) (side t : Side) :
    (cell.clearWall side).wall t = if t = side then false else cell.wall t := by
  cases side <;> cases t <;> rfl

@[simp]
theorem Cell.clearWall_visited (cell : Cell W H) (side : Side) :
    (cell.clearWall side).visited = cell.visited := by
  cases side <;> rfl

/-- The memory of all cells. -/
abbrev Cells (W H : Nat) := CellPtr W H → Cell W H

/-- Write through one pointer. -/
def Cells.modify (cells : Cells W H) (p : CellPtr W H) (f : Cell W H → Cell W H) :
    Cells W H :=
  Function.update cells p (f (cells p))

theorem Cells.modify_apply (cells : Cells W H) (p q : CellPtr W H)
    (f : Cell W H → Cell W H) :
    cells.modify p f q = if q = p then f (cells p) else cells q := by
  simp [Cells.modify, Function.update_apply]

/-- {lit}`struct Maze`; the fields {lit}`width` and {lit}`height` are the
parameters of its type. -/
structure Maze (W H : Nat) where
  cellSize : Int
  cells : Cells W H

/-! ## Open passages -/

/-- Two adjacent cells are joined by a passage when both facing flags are cleared. -/
def passageGraph (cells : Cells W H) : SimpleGraph (CellPtr W H) where
  Adj p q := ∃ side, p.neighbour side = some q ∧
    (cells p).wall side = false ∧ (cells q).wall side.opposite = false
  symm := ⟨by
    rintro p q ⟨side, hside, hp, hq⟩
    exact ⟨side.opposite, CellPtr.neighbour_comm.mp hside, hq, by simpa using hp⟩⟩
  loopless := ⟨fun _ ⟨_, h, _⟩ => CellPtr.neighbour_ne h rfl⟩

instance (cells : Cells W H) : DecidableRel (passageGraph cells).Adj := fun p q =>
  inferInstanceAs (Decidable (∃ side, p.neighbour side = some q ∧
    (cells p).wall side = false ∧ (cells q).wall side.opposite = false))

/-- Between neighbours, being joined is a matter of the two facing flags. -/
theorem passageGraph_adj_iff {cells : Cells W H} {p q : CellPtr W H} {side : Side}
    (h : p.neighbour side = some q) :
    (passageGraph cells).Adj p q ↔
      (cells p).wall side = false ∧ (cells q).wall side.opposite = false := by
  constructor
  · rintro ⟨t, ht, hp, hq⟩
    obtain rfl := CellPtr.neighbour_side_unique h ht
    exact ⟨hp, hq⟩
  · rintro ⟨hp, hq⟩
    exact ⟨side, h, hp, hq⟩

/-- Clear the flag of {lit}`current` on one side and the facing flag of
{lit}`neighbour`: one branch of the wall removal. -/
def Cells.clearFacing (cells : Cells W H) (current neighbour : CellPtr W H)
    (side : Side) : Cells W H :=
  (cells.modify current (·.clearWall side)).modify neighbour (·.clearWall side.opposite)

theorem Cells.clearFacing_visited (cells : Cells W H) (p q r : CellPtr W H) (side : Side) :
    (cells.clearFacing p q side r).visited = (cells r).visited := by
  simp only [Cells.clearFacing, Cells.modify_apply]
  split_ifs <;> simp_all

/-- The flags after clearing the border between two neighbours. -/
theorem Cells.clearFacing_wall (cells : Cells W H) {p q : CellPtr W H} {side : Side}
    (h : p.neighbour side = some q) (r : CellPtr W H) (t : Side) :
    (cells.clearFacing p q side r).wall t =
      if (r = p ∧ t = side) ∨ (r = q ∧ t = side.opposite) then false
      else (cells r).wall t := by
  have hne : p ≠ q := CellPtr.neighbour_ne h
  simp only [Cells.clearFacing, Cells.modify_apply]
  by_cases hrq : r = q
  · subst hrq
    simp [hne.symm]
  · by_cases hrp : r = p
    · subst hrp
      simp [hrq]
    · simp [hrq, hrp]

/-- Clearing the two facing flags of a border opens exactly that passage. -/
theorem passageGraph_clearFacing (cells : Cells W H) {p q : CellPtr W H} {side : Side}
    (h : p.neighbour side = some q) :
    passageGraph (cells.clearFacing p q side) =
      passageGraph cells ⊔ SimpleGraph.edge p q := by
  have hne : p ≠ q := CellPtr.neighbour_ne h
  ext a b
  rw [SimpleGraph.sup_adj, SimpleGraph.edge_adj]
  constructor
  · rintro ⟨t, hab, ha, hb⟩
    rw [Cells.clearFacing_wall cells h] at ha hb
    by_cases hforward : a = p ∧ t = side
    · -- the border itself, seen from `p`
      obtain ⟨rfl, rfl⟩ := hforward
      have hbq : b = q := Option.some.inj (hab.symm.trans h)
      exact Or.inr ⟨Or.inl ⟨rfl, hbq⟩, hbq ▸ hne⟩
    by_cases hbackward : a = q ∧ t = side.opposite
    · -- the border itself, seen from `q`
      obtain ⟨rfl, rfl⟩ := hbackward
      have hbp : b = p := Option.some.inj (hab.symm.trans (CellPtr.neighbour_comm.mp h))
      exact Or.inr ⟨Or.inr ⟨rfl, hbp⟩, hbp ▸ hne.symm⟩
    · -- any other border keeps its two flags
      have hba := CellPtr.neighbour_comm.mp hab
      rw [if_neg (by tauto)] at ha
      rw [if_neg] at hb
      · exact Or.inl ⟨t, hab, ha, hb⟩
      · rintro (⟨rfl, ht⟩ | ⟨rfl, ht⟩)
        · have hat : a = q := Option.some.inj ((ht ▸ hba).symm.trans h)
          exact hbackward ⟨hat, by simp [← ht]⟩
        · have hat : a = p :=
            Option.some.inj ((ht ▸ hba).symm.trans (CellPtr.neighbour_comm.mp h))
          exact hforward ⟨hat, by simpa using congrArg Side.opposite ht⟩
  · rintro (⟨t, hab, ha, hb⟩ | ⟨⟨rfl, rfl⟩ | ⟨rfl, rfl⟩, -⟩)
    · refine ⟨t, hab, ?_, ?_⟩ <;> rw [Cells.clearFacing_wall cells h] <;> split_ifs <;>
        first | rfl | assumption
    · rw [passageGraph_adj_iff h, Cells.clearFacing_wall cells h, Cells.clearFacing_wall cells h]
      simp
    · rw [SimpleGraph.adj_comm, passageGraph_adj_iff h, Cells.clearFacing_wall cells h,
        Cells.clearFacing_wall cells h]
      simp

end LCOMaze
