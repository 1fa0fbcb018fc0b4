import LCOMaze.Controllers.Graphics

/-!
# Scaled sprites

{lit}`draw_xpm_x_times_bigger` draws every pixel of a sprite as a square.  The coordinates are
converted to 16 bits, so a sprite may begin at a negative one, and those beyond the screen are
skipped.

Main results:

- Theorem {lit}`drawXpmXTimesBigger_paints`: the four loops are a series of single pixels.
- Theorem {lit}`drawXpmXTimesBigger_exact`: if the squares do not overlap modulo 65536, every pixel
  of the screen that lies in one has the colour of the sprite there, and the others are
  unchanged.
-/

namespace LCOMaze

open Foundations

/-! ## The translated drawing -/

/-- What {lit}`xpm_load` returns: the size of the sprite and its colours. -/
structure XpmImage where
  width : UInt16
  height : UInt16
  map : Fin (width.toNat * height.toNat) → UInt32

/-- A position in a row-major arrangement is less than the size of the whole. -/
theorem mul_add_lt_mul {size t k : Nat} (j : Fin size) (hk : k < t) : j * t + k < size * t := by
  rw [Nat.mul_comm j.val]
  exact Nat.mul_add_lt_mul_of_lt_of_lt j.isLt hk

/-- The colour {lit}`map[i * img.width + j]`. -/
def XpmImage.colorAt (img : XpmImage) (i : Fin img.height.toNat) (j : Fin img.width.toNat) :
    UInt32 :=
  img.map ⟨i * img.width.toNat + j,
    (mul_add_lt_mul i j.isLt).trans_eq (Nat.mul_comm _ _)⟩

/-- The colour that is drawn for one of the sprite: the same, or one of two. -/
def drawnColor (color mapColor : UInt32) : UInt32 :=
  if color = 0xFFFFFFFF then mapColor
  else if mapColor = 0xFF0000 then color
  else 0xFF0000

variable {n : Nat}

/-- {lit}`draw_xpm_x_times_bigger` on {lit}`back_buffer`. -/
def drawXpmXTimesBigger (mode : ModeInfo) (img : XpmImage) (x y times : UInt16)
    (color : UInt32) (memory : Memory n) : Memory n :=
  (List.finRange img.height.toNat).foldl (fun memory (i : Fin img.height.toNat) =>
    (List.finRange img.width.toNat).foldl (fun memory (j : Fin img.width.toNat) =>
      (List.range times.toNat).foldl (fun memory k =>
        (List.range times.toNat).foldl (fun memory l =>
          (vgDrawPixel mode (UInt16.ofNat (x.toNat + j * times.toNat + k))
            (UInt16.ofNat (y.toNat + i * times.toNat + l)) (drawnColor color (img.colorAt i j))
            memory).1) memory) memory) memory) memory

/-! ## A series of pixels -/

/-- What a step of a loop does to a frame. -/
def Paints (screen : Screen) (step : Memory screen.raster.size → Memory screen.raster.size)
    (strokes : List (Set screen.raster.Pixel × (Fin screen.raster.depth → UInt8))) : Prop :=
  ∀ frame : screen.Frame, step (some frame) = some (Raster.paint frame strokes)

/-- A loop paints what its iterations paint, one after the other. -/
theorem Paints.foldl {α : Type} {screen : Screen}
    {step : α → Memory screen.raster.size → Memory screen.raster.size}
    {strokes : α → List (Set screen.raster.Pixel × (Fin screen.raster.depth → UInt8))}
    (h : ∀ a, Paints screen (step a) (strokes a)) (l : List α) :
    Paints screen (fun memory => l.foldl (fun memory a => step a memory) memory)
      (l.flatMap strokes) := by
  intro frame
  induction l generalizing frame with
  | nil => rfl
  | cons a l ih =>
      rw [List.flatMap_cons, Raster.paint_append, ← ih]
      exact congrArg (l.foldl fun memory a => step a memory) (h a frame)

/-- The pixels drawn, in the order of the loops. -/
noncomputable def spriteStrokes (screen : Screen) (img : XpmImage) (x y times : UInt16)
    (color : UInt32) : List (Set screen.raster.Pixel × (Fin screen.raster.depth → UInt8)) :=
  (List.finRange img.height.toNat).flatMap fun (i : Fin img.height.toNat) =>
    (List.finRange img.width.toNat).flatMap fun (j : Fin img.width.toNat) =>
      (List.range times.toNat).flatMap fun k =>
        (List.range times.toNat).flatMap fun l =>
          [(pixelAt screen.raster (UInt16.ofNat (x.toNat + j * times.toNat + k)).toNat
            (UInt16.ofNat (y.toNat + i * times.toNat + l)).toNat,
            screen.color (drawnColor color (img.colorAt i j)))]

/-- The four loops draw single pixels and write no byte outside the frame. -/
theorem drawXpmXTimesBigger_paints (screen : Screen) (img : XpmImage) (x y times : UInt16)
    (color : UInt32) :
    Paints screen (drawXpmXTimesBigger screen.toModeInfo img x y times color)
      (spriteStrokes screen img x y times color) :=
  Paints.foldl (fun _ => Paints.foldl (fun _ => Paints.foldl (fun _ => Paints.foldl (fun _ frame =>
    vgDrawPixel_screen screen _ _ _ frame) _) _) _) _

/-! ## Exactness -/

/-- A 16-bit coordinate is reached from another one by exactly one distance. -/
theorem ofNat_add_eq_iff (x : UInt16) {a p : Nat} (ha : a < 65536) (hp : p < 65536) :
    p = (UInt16.ofNat (x.toNat + a)).toNat ↔ (UInt16.ofNat p - x).toNat = a := by
  have hx := x.toNat_lt
  rw [UInt16.toNat_ofNat', UInt16.toNat_sub, UInt16.toNat_ofNat']
  omega

/-- A distance within a sprite is that of one pixel of it and one within its square. -/
theorem div_eq_of_eq_mul_add {u t j k : Nat} (hk : k < t) (hu : u = j * t + k) : u / t = j := by
  rw [hu, Nat.mul_comm, Nat.mul_add_div (Nat.zero_lt_of_lt hk), Nat.div_eq_of_lt hk,
    Nat.add_zero]

/-- The distances of a pixel of the screen from the corner of the sprite, modulo 65536. -/
def distance (origin : UInt16) (p : Nat) : Nat := (UInt16.ofNat p - origin).toNat

/-- A frame shows the sprite: the pixels of the screen that lie in one of its squares have the
colour of the sprite there, and the others are those of the frame before. -/
def ShowsSprite (screen : Screen) (img : XpmImage) (x y times : UInt16)
    (frame frame' : screen.Frame) : Prop :=
  ∀ p : screen.raster.Pixel,
    (∀ (hu : distance x p.1 < img.width.toNat * times.toNat)
        (hv : distance y p.2 < img.height.toNat * times.toNat),
      Raster.pixel frame' p = screen.color (img.colorAt
        ⟨distance y p.2 / times.toNat, Nat.div_lt_of_lt_mul (Nat.mul_comm _ times.toNat ▸ hv)⟩
        ⟨distance x p.1 / times.toNat, Nat.div_lt_of_lt_mul (Nat.mul_comm _ times.toNat ▸ hu)⟩)) ∧
    (¬(distance x p.1 < img.width.toNat * times.toNat ∧
        distance y p.2 < img.height.toNat * times.toNat) →
      Raster.pixel frame' p = Raster.pixel frame p)

/-- A pixel drawn by the loops is reached exactly from its distances. -/
theorem mem_pixelAt_iff (screen : Screen) (x y : UInt16) {a b : Nat} (ha : a < 65536)
    (hb : b < 65536) (p : screen.raster.Pixel) :
    p ∈ pixelAt screen.raster (UInt16.ofNat (x.toNat + a)).toNat
        (UInt16.ofNat (y.toNat + b)).toNat ↔ distance x p.1 = a ∧ distance y p.2 = b := by
  have hcolumn : p.1.val < 65536 := Nat.lt_trans p.1.isLt screen.xResolution.toNat_lt
  have hrow : p.2.val < 65536 := Nat.lt_trans p.2.isLt screen.yResolution.toNat_lt
  exact and_congr (ofNat_add_eq_iff x ha hcolumn) (ofNat_add_eq_iff y hb hrow)

/-- The pixels drawn of a sprite in its own colours. -/
theorem mem_spriteStrokes_iff (screen : Screen) (img : XpmImage) (x y times : UInt16)
    (stroke : Set screen.raster.Pixel × (Fin screen.raster.depth → UInt8)) :
    stroke ∈ spriteStrokes screen img x y times 0xFFFFFFFF ↔
      ∃ (i : Fin img.height.toNat) (j : Fin img.width.toNat), ∃ k < times.toNat,
        ∃ l < times.toNat, stroke = (pixelAt screen.raster
            (UInt16.ofNat (x.toNat + (j * times.toNat + k))).toNat
            (UInt16.ofNat (y.toNat + (i * times.toNat + l))).toNat,
          screen.color (img.colorAt i j)) := by
  simp only [spriteStrokes, List.mem_flatMap, List.mem_finRange, true_and, List.mem_range,
    List.mem_singleton, Nat.add_assoc, drawnColor, if_true]

/-- For every screen, every sprite, every factor and every origin such that the scaled sprite is
at most 65536 pixels wide and high, and for every frame, {lit}`draw_xpm_x_times_bigger` writes no
byte outside the frame and draws the sprite, clipped to the screen, and nothing else. -/
theorem drawXpmXTimesBigger_exact (screen : Screen) (img : XpmImage) (x y times : UInt16)
    (frame : screen.Frame) (htimes : 1 ≤ times.toNat)
    (hwidth : img.width.toNat * times.toNat ≤ 65536)
    (hheight : img.height.toNat * times.toNat ≤ 65536) :
    ∃ frame', drawXpmXTimesBigger screen.toModeInfo img x y times 0xFFFFFFFF (some frame) =
      some frame' ∧ ShowsSprite screen img x y times frame frame' := by
  refine ⟨_, drawXpmXTimesBigger_paints screen img x y times 0xFFFFFFFF frame, fun p => ?_⟩
  have hreach : ∀ (i : Fin img.height.toNat) (j : Fin img.width.toNat) {k l : Nat},
      k < times.toNat → l < times.toNat →
      (p ∈ pixelAt screen.raster (UInt16.ofNat (x.toNat + (j * times.toNat + k))).toNat
          (UInt16.ofNat (y.toNat + (i * times.toNat + l))).toNat ↔
        distance x p.1 = j * times.toNat + k ∧ distance y p.2 = i * times.toNat + l) :=
    fun i j _ _ hk hl => mem_pixelAt_iff screen x y ((mul_add_lt_mul j hk).trans_le hwidth)
      ((mul_add_lt_mul i hl).trans_le hheight) p
  constructor
  · intro hu hv
    apply Raster.pixel_paint_of_mem
    · -- the quotients give the pixel of the sprite, the remainders the one of its square
      have hk := Nat.mod_lt (distance x p.1) htimes
      have hl := Nat.mod_lt (distance y p.2) htimes
      refine ⟨_, (mem_spriteStrokes_iff screen img x y times _).mpr
        ⟨⟨_, Nat.div_lt_of_lt_mul (Nat.mul_comm _ times.toNat ▸ hv)⟩,
          ⟨_, Nat.div_lt_of_lt_mul (Nat.mul_comm _ times.toNat ▸ hu)⟩, _, hk, _, hl, rfl⟩, ?_⟩
      rw [hreach _ _ hk hl]
      exact ⟨(Nat.div_add_mod' _ _).symm, (Nat.div_add_mod' _ _).symm⟩
    · intro stroke hstroke hp
      rcases (mem_spriteStrokes_iff screen img x y times stroke).mp hstroke with
        ⟨i, j, k, hk, l, hl, rfl⟩
      rcases (hreach i j hk hl).mp hp with ⟨hcolumn, hrow⟩
      have hi := div_eq_of_eq_mul_add hl hrow
      have hj := div_eq_of_eq_mul_add hk hcolumn
      exact congrArg screen.color (congrArg₂ img.colorAt (Fin.ext hi.symm) (Fin.ext hj.symm))
  · intro hnot
    apply Raster.pixel_paint_of_not_mem
    intro stroke hstroke hp
    rcases (mem_spriteStrokes_iff screen img x y times stroke).mp hstroke with
      ⟨i, j, k, hk, l, hl, rfl⟩
    rcases (hreach i j hk hl).mp hp with ⟨hcolumn, hrow⟩
    refine hnot ⟨?_, ?_⟩
    · rw [hcolumn]
      exact mul_add_lt_mul j hk
    · rw [hrow]
      exact mul_add_lt_mul i hl

/-- A sprite of two pixels, doubled, that begins one column left of the screen. -/
theorem drawXpmXTimesBigger_left_edge :
    ∃ frame', drawXpmXTimesBigger gameScreen.toModeInfo
        ⟨2, 1, fun i => if i.val = 0 then 0xFF0000 else 0x00FF00⟩ 65535 3 2 0xFFFFFFFF
        (some fun _ => 0) = some frame' ∧
      ShowsSprite gameScreen ⟨2, 1, fun i => if i.val = 0 then 0xFF0000 else 0x00FF00⟩ 65535 3 2
        (fun _ => 0) frame' :=
  drawXpmXTimesBigger_exact gameScreen _ 65535 3 2 (fun _ => 0) (by decide) (by decide) (by decide)

end LCOMaze
