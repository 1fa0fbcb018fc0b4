import LCOMaze.Controllers.Sprites
import LCOMaze.Game.Player
import Mathlib.Tactic.FieldSimp

/-!
# Rotated sprites

{lit}`draw_xpm_at_pos_at_delta` runs over the bounding box of the rotated sprite and looks up for
every pixel of it which pixel of the sprite is rotated there.  The box and both positions are
computed with doubles, and every operation is rounded.

Main results:

- Theorem {lit}`rotatedSize_eq`: the bounding box of a rotated sprite.
- Theorem {lit}`drawXpmAtPosAtDelta_paints`: the loops draw single pixels.
- Theorem {lit}`drawXpmAtPosAtDelta_pixels`: every pixel shows the last visible sample of the sprite
  that is drawn there, and all else is unchanged.
- Theorem {lit}`drawXpmAtPosAtDelta_upright`: without a rotation this is {lit}`draw_xpm_at_pos`
  around the centre.
-/

namespace LCOMaze

open Foundations

variable {n : Nat}

/-! ## The translated rotation -/

/-- The variables of the loop of {lit}`calculate_rotated_bounds`. -/
structure RotatedBounds where
  minX : ℚ
  maxX : ℚ
  minY : ℚ
  maxY : ℚ

/-- Its body. -/
def extendBounds (fp : Doubles) (cosTheta sinTheta : ℚ) (bounds : RotatedBounds)
    (corner : ℚ × ℚ) : RotatedBounds :=
  let x := fp.sub (fp.mul corner.1 cosTheta) (fp.mul corner.2 sinTheta)
  let y := fp.add (fp.mul corner.1 sinTheta) (fp.mul corner.2 cosTheta)
  { minX := if x < bounds.minX then x else bounds.minX
    maxX := if bounds.maxX < x then x else bounds.maxX
    minY := if y < bounds.minY then y else bounds.minY
    maxY := if bounds.maxY < y then y else bounds.maxY }

/-- {lit}`calculate_rotated_bounds`: the width and the height. -/
def calculateRotatedBounds (fp : Doubles) (lib : MathLib) (width height theta : ℚ) : ℚ × ℚ :=
  let corners := [(fp.div (-width) 2, fp.div (-height) 2), (fp.div width 2, fp.div (-height) 2),
    (fp.div width 2, fp.div height 2), (fp.div (-width) 2, fp.div height 2)]
  let bounds := corners.foldl (extendBounds fp (lib.cos theta) (lib.sin theta))
    ⟨1000000000, -1000000000, 1000000000, -1000000000⟩
  (fp.sub bounds.maxX bounds.minX, fp.sub bounds.maxY bounds.minY)

/-- The conversion of a {lit}`double` to {lit}`uint16_t`: it truncates a value in range, and is not
defined on others. -/
structure DoubleToUInt16 where
  convert : ℚ → UInt16
  truncates : ∀ q, -1 < q → q < 65536 → ((convert q).toNat : Int) = truncToInt q

/-- Truncation of a value in range does not wrap around. -/
theorem toNat_ofInt_truncToInt {q : ℚ} (hlow : -1 < q) (hhigh : q < 65536) :
    ((UInt16.ofInt (truncToInt q)).toNat : Int) = truncToInt q := by
  have hrange : 0 ≤ truncToInt q ∧ truncToInt q < 65536 := by
    rw [truncToInt]
    split_ifs with hq
    · exact ⟨Int.floor_nonneg.mpr hq, Int.floor_lt.mpr (by push_cast; exact hhigh)⟩
    · have hceil : -1 < ⌈q⌉ := Int.lt_ceil.mpr (by push_cast; exact hlow)
      have hceil' : ⌈q⌉ ≤ 0 := Int.ceil_le.mpr (by push_cast; exact (not_le.mp hq).le)
      omega
  rw [UInt16.ofInt, UInt16.toNat_ofNat']
  omega

/-- The conversion that wraps around where it need not be defined. -/
def DoubleToUInt16.wrapping : DoubleToUInt16 where
  convert := fun q => UInt16.ofInt (truncToInt q)
  truncates := fun _ hlow hhigh => toNat_ofInt_truncToInt hlow hhigh

/-- {lit}`rotated_width` and {lit}`rotated_height`. -/
def XpmImage.rotatedSize (fp : Doubles) (lib : MathLib) (img : XpmImage) (theta : ℚ) : ℚ × ℚ :=
  calculateRotatedBounds fp lib img.width.toNat img.height.toNat theta

/-- {lit}`source_x` and {lit}`source_y` for the pixel in column {lit}`j` and row {lit}`i` of the
box. -/
def rotatedSource (fp : Doubles) (lib : MathLib) (img : XpmImage) (theta : ℚ) (i j : Nat) : ℚ × ℚ :=
  let rotated := img.rotatedSize fp lib theta
  let translatedX := fp.sub j (fp.div rotated.1 2)
  let translatedY := fp.sub i (fp.div rotated.2 2)
  (fp.add (fp.sub (fp.mul (lib.cos theta) translatedX) (fp.mul (lib.sin theta) translatedY))
      (fp.div img.width.toNat 2),
    fp.add (fp.add (fp.mul (lib.sin theta) translatedX) (fp.mul (lib.cos theta) translatedY))
      (fp.div img.height.toNat 2))

/-- The colour of the sprite at {lit}`source_x` and {lit}`source_y`, if it is drawn. -/
def XpmImage.sample (img : XpmImage) (source : ℚ × ℚ) : Option UInt32 :=
  if 0 ≤ source.1 ∧ source.1 < img.width.toNat ∧ 0 ≤ source.2 ∧ source.2 < img.height.toNat then
    img.visibleAt (truncToInt source.1).toNat (truncToInt source.2).toNat
  else none

/-- A coordinate at which a pixel is drawn, in column or row {lit}`k` of a box with this side. -/
def rotatedTarget (fp : Doubles) (conversion : DoubleToUInt16) (coordinate : UInt16) (side : ℚ)
    (k : Nat) : UInt16 :=
  conversion.convert (fp.sub (coordinate.toNat + k) (fp.div side 2))

/-- {lit}`draw_xpm_at_pos_at_delta`, of a sprite that {lit}`xpm_load` finds. -/
def drawXpmAtPosAtDelta (fp : Doubles) (lib : MathLib) (conversion : DoubleToUInt16)
    (mode : ModeInfo) (img : XpmImage) (x y : UInt16) (theta : ℚ) (memory : Memory n) : Memory n :=
  let rotated := img.rotatedSize fp lib theta
  (List.range (truncToInt rotated.2).toNat).foldl (fun memory i =>
    (List.range (truncToInt rotated.1).toNat).foldl (fun memory j =>
      match img.sample (rotatedSource fp lib img theta i j) with
      | some color =>
          (vgDrawPixel mode (rotatedTarget fp conversion x rotated.1 j)
            (rotatedTarget fp conversion y rotated.2 i) color memory).1
      | none => memory) memory) memory

/-! ## The bounding box -/

/-- The largest of four values and a smaller one. -/
theorem max_of_signs {a b low : ℚ} (hlow : low ≤ |a| + |b|) :
    max (max (max (max low (-a + b)) (a + b)) (a - b)) (-a - b) = |a| + |b| := by
  have ha := abs_le.mp (le_refl |a|)
  have hb := abs_le.mp (le_refl |b|)
  apply le_antisymm
  · simp only [max_le_iff]
    exact ⟨⟨⟨⟨hlow, by linarith⟩, by linarith⟩, by linarith⟩, by linarith⟩
  · simp only [le_max_iff]
    rcases abs_choice a with h | h <;> rcases abs_choice b with h' | h' <;> rw [h, h']
    · exact Or.inl (Or.inl (Or.inr le_rfl))
    · exact Or.inl (Or.inr (sub_eq_add_neg a b).ge)
    · exact Or.inl (Or.inl (Or.inl (Or.inr le_rfl)))
    · exact Or.inr (sub_eq_add_neg (-a) b).ge

/-- The smallest of them and a larger one. -/
theorem min_of_signs {a b high : ℚ} (hhigh : -(|a| + |b|) ≤ high) :
    min (-a - b) (min (a - b) (min (a + b) (min (-a + b) high))) = -(|a| + |b|) := by
  have ha := abs_le.mp (le_refl |a|)
  have hb := abs_le.mp (le_refl |b|)
  apply le_antisymm
  · simp only [min_le_iff]
    rcases abs_choice a with h | h <;> rcases abs_choice b with h' | h' <;> rw [h, h']
    · exact Or.inl (by linarith)
    · exact Or.inr (Or.inr (Or.inr (Or.inl (by linarith))))
    · exact Or.inr (Or.inl (by linarith))
    · exact Or.inr (Or.inr (Or.inl (by linarith)))
  · simp only [le_min_iff]
    exact ⟨by linarith, by linarith, by linarith, by linarith, hhigh⟩

section

variable (fp : Doubles)

/-- The coordinates that the loop starts with are numbers. -/
theorem round_billion : fp.round 1000000000 = 1000000000 :=
  fp.round_of_isFloat (isFloat_natCast (by decide : 1000000000 ≤ 2 ^ 53))

/-- The largest of the rounded coordinates of the corners. -/
theorem max_rounded (a b : ℚ) :
    max (max (max (max (-1000000000) (fp.round (-a + b))) (fp.round (a + b))) (fp.round (a - b)))
      (fp.round (-a - b)) = fp.round (|a| + |b|) := by
  have hlow : fp.round (-1000000000) = -1000000000 := by
    rw [fp.round_neg, round_billion fp]
  have hle : -1000000000 ≤ |a| + |b| := by linarith [abs_nonneg a, abs_nonneg b]
  rw [← hlow, ← fp.round_mono.map_max, ← fp.round_mono.map_max, ← fp.round_mono.map_max,
    ← fp.round_mono.map_max, max_of_signs hle]

/-- The smallest of them. -/
theorem min_rounded (a b : ℚ) :
    min (fp.round (-a - b)) (min (fp.round (a - b)) (min (fp.round (a + b))
      (min (fp.round (-a + b)) 1000000000))) = -fp.round (|a| + |b|) := by
  have hle : -(|a| + |b|) ≤ 1000000000 := by linarith [abs_nonneg a, abs_nonneg b]
  rw [← round_billion fp, ← fp.round_mono.map_min, ← fp.round_mono.map_min,
    ← fp.round_mono.map_min, ← fp.round_mono.map_min, min_of_signs hle, fp.round_neg]

/-- Half of a side has a last digit after the point. -/
theorem div_two_natCast {side : Nat} (h : side < 65536) : fp.div side 2 = (side : ℚ) / 2 :=
  fp.round_of_isFloat (isFloat_natCast (h.le.trans (by decide))).half

/-- The projection of half of a side on an axis. -/
theorem abs_mul_half (side : Nat) (factor : ℚ) :
    |fp.mul ((side : ℚ) / 2) factor| = fp.mul ((side : ℚ) / 2) |factor| := by
  have hside : (0 : ℚ) ≤ (side : ℚ) / 2 := div_nonneg (Nat.cast_nonneg _) two_pos.le
  rw [FloatArith.mul, fp.abs_round, abs_mul, abs_of_nonneg hside]
  rfl

/-- The bounding box of a rotated rectangle. -/
theorem calculateRotatedBounds_eq (lib : MathLib) {width height : Nat} (theta : ℚ)
    (hwidth : width < 65536) (hheight : height < 65536) :
    calculateRotatedBounds fp lib width height theta =
      (2 * fp.add (fp.mul ((width : ℚ) / 2) |lib.cos theta|)
          (fp.mul ((height : ℚ) / 2) |lib.sin theta|),
        2 * fp.add (fp.mul ((width : ℚ) / 2) |lib.sin theta|)
          (fp.mul ((height : ℚ) / 2) |lib.cos theta|)) := by
  have hneg : ∀ side : Nat, side < 65536 → fp.div (-(side : ℚ)) 2 = -((side : ℚ) / 2) := by
    intro side hside
    rw [FloatArith.div, neg_div, fp.round_neg]
    exact congrArg Neg.neg (div_two_natCast fp hside)
  have hmul : ∀ a b : ℚ, fp.mul (-a) b = -fp.mul a b := by
    intro a b
    rw [FloatArith.mul, neg_mul, fp.round_neg]
    rfl
  have hwhole : ∀ q : ℚ, fp.round (fp.round q + fp.round q) = 2 * fp.round q := by
    intro q
    rw [← two_mul, fp.round_of_isFloat (fp.isFloat_round q).two_mul]
  simp only [calculateRotatedBounds, List.foldl_cons, List.foldl_nil, extendBounds, ← min_def_lt,
    ← max_def_lt, hneg width hwidth, hneg height hheight, div_two_natCast fp hwidth,
    div_two_natCast fp hheight, hmul]
  rw [← abs_mul_half, ← abs_mul_half, ← abs_mul_half, ← abs_mul_half]
  generalize fp.mul ((width : ℚ) / 2) (lib.cos theta) = a
  generalize fp.mul ((height : ℚ) / 2) (lib.sin theta) = b
  generalize fp.mul ((width : ℚ) / 2) (lib.sin theta) = c
  generalize fp.mul ((height : ℚ) / 2) (lib.cos theta) = d
  -- the corners in the order of the loop, with both signs of both halves
  have hy := max_rounded fp c (-d)
  have hy' := min_rounded fp c (-d)
  simp only [sub_neg_eq_add, abs_neg] at hy hy'
  simp only [FloatArith.sub, FloatArith.add, sub_neg_eq_add]
  rw [max_rounded, min_rounded, hy, hy', sub_neg_eq_add, sub_neg_eq_add, hwhole, hwhole]

/-- The bounding box of a rotated sprite. -/
theorem rotatedSize_eq (lib : MathLib) (img : XpmImage) (theta : ℚ) :
    img.rotatedSize fp lib theta =
      (2 * fp.add (fp.mul ((img.width.toNat : ℚ) / 2) |lib.cos theta|)
          (fp.mul ((img.height.toNat : ℚ) / 2) |lib.sin theta|),
        2 * fp.add (fp.mul ((img.width.toNat : ℚ) / 2) |lib.sin theta|)
          (fp.mul ((img.height.toNat : ℚ) / 2) |lib.cos theta|)) :=
  calculateRotatedBounds_eq fp lib theta img.width.toNat_lt img.height.toNat_lt

end

/-! ## Exactness -/

section

variable (fp : Doubles) (lib : MathLib) (conversion : DoubleToUInt16) (screen : Screen)
  (img : XpmImage) (x y : UInt16) (theta : ℚ)

/-- The pixels drawn in column {lit}`j` and row {lit}`i` of the box: one, if the sample is
visible. -/
noncomputable def rotatedStroke (i j : Nat) :
    List (Set screen.raster.Pixel × (Fin screen.raster.depth → UInt8)) :=
  let rotated := img.rotatedSize fp lib theta
  ((img.sample (rotatedSource fp lib img theta i j)).map fun color =>
    (pixelAt screen.raster (rotatedTarget fp conversion x rotated.1 j).toNat
      (rotatedTarget fp conversion y rotated.2 i).toNat, screen.color color)).toList

/-- The pixels drawn, in the order of the loops. -/
noncomputable def rotatedStrokes :
    List (Set screen.raster.Pixel × (Fin screen.raster.depth → UInt8)) :=
  let rotated := img.rotatedSize fp lib theta
  (List.range (truncToInt rotated.2).toNat).flatMap fun i =>
    (List.range (truncToInt rotated.1).toNat).flatMap fun j =>
      rotatedStroke fp lib conversion screen img x y theta i j

/-- At every position and every angle, the two loops draw single pixels and write no byte outside
the frame. -/
theorem drawXpmAtPosAtDelta_paints :
    Paints screen (drawXpmAtPosAtDelta fp lib conversion screen.toModeInfo img x y theta)
      (rotatedStrokes fp lib conversion screen img x y theta) :=
  Paints.foldl (fun i => Paints.foldl (fun j frame => by
    unfold rotatedStroke
    cases img.sample (rotatedSource fp lib img theta i j) with
    | some color => exact vgDrawPixel_screen screen _ _ color frame
    | none => rfl) _) _

/-- A pixel in a column and a row of the box that shows a visible sample. -/
theorem mem_rotatedStroke_iff (i j : Nat)
    (stroke : Set screen.raster.Pixel × (Fin screen.raster.depth → UInt8)) :
    stroke ∈ rotatedStroke fp lib conversion screen img x y theta i j ↔
      ∃ color, img.sample (rotatedSource fp lib img theta i j) = some color ∧
        stroke = (pixelAt screen.raster
          (rotatedTarget fp conversion x (img.rotatedSize fp lib theta).1 j).toNat
          (rotatedTarget fp conversion y (img.rotatedSize fp lib theta).2 i).toNat,
            screen.color color) := by
  simp only [rotatedStroke, Option.mem_toList, Option.map_eq_some_iff, eq_comm (b := stroke)]

/-- The sample in column {lit}`j` and row {lit}`i` of the box is visible and drawn on the pixel. -/
def DrawsSample (p : screen.raster.Pixel) (i j : Nat) (color : UInt32) : Prop :=
  let rotated := img.rotatedSize fp lib theta
  (i : Int) < truncToInt rotated.2 ∧ (j : Int) < truncToInt rotated.1 ∧
    img.sample (rotatedSource fp lib img theta i j) = some color ∧
    (rotatedTarget fp conversion x rotated.1 j).toNat = p.1 ∧
    (rotatedTarget fp conversion y rotated.2 i).toNat = p.2

/-- For every way to round, every screen, every sprite, every angle and every position, also one
from which the box leaves the screen or the range of the coordinates,
{lit}`draw_xpm_at_pos_at_delta` writes no byte outside the frame, gives every pixel the colour of
the last sample in the bounding box that is visible and drawn there, and changes nothing else. -/
theorem drawXpmAtPosAtDelta_pixels (frame : screen.Frame) :
    img.rotatedSize fp lib theta =
      (2 * fp.add (fp.mul ((img.width.toNat : ℚ) / 2) |lib.cos theta|)
          (fp.mul ((img.height.toNat : ℚ) / 2) |lib.sin theta|),
        2 * fp.add (fp.mul ((img.width.toNat : ℚ) / 2) |lib.sin theta|)
          (fp.mul ((img.height.toNat : ℚ) / 2) |lib.cos theta|)) ∧
    ∃ frame' : screen.Frame,
      drawXpmAtPosAtDelta fp lib conversion screen.toModeInfo img x y theta (some frame) =
        some frame' ∧
      ∀ p : screen.raster.Pixel,
        (∀ i j color, DrawsSample fp lib conversion screen img x y theta p i j color →
          (∀ i' j' color', i < i' ∨ i = i' ∧ j < j' →
            ¬DrawsSample fp lib conversion screen img x y theta p i' j' color') →
            Raster.pixel frame' p = screen.color color) ∧
        ((∀ i j color, ¬DrawsSample fp lib conversion screen img x y theta p i j color) →
            Raster.pixel frame' p = Raster.pixel frame p) := by
  refine ⟨rotatedSize_eq fp lib img theta, _,
    drawXpmAtPosAtDelta_paints fp lib conversion screen img x y theta frame,
    fun p => ⟨fun i j color hdraws hlast => ?_, fun hnone => ?_⟩⟩
  · rcases hdraws with ⟨hi, hj, hsample, hcolumn, hrow⟩
    rcases flatMap_flatMap_range_split (Int.lt_toNat.mpr hi) (Int.lt_toNat.mpr hj)
      (rotatedStroke fp lib conversion screen img x y theta) with ⟨before, after, hsplit, hafter⟩
    rw [rotatedStrokes, hsplit, rotatedStroke, hsample, Option.map_some, Option.toList_some,
      List.append_assoc]
    refine Raster.pixel_paint_of_last frame before ⟨hcolumn.symm, hrow.symm⟩ ?_
    intro stroke hmem hp
    rcases hafter stroke hmem with ⟨i', j', hi', hj', hlater, hstroke⟩
    rcases (mem_rotatedStroke_iff fp lib conversion screen img x y theta i' j' stroke).mp hstroke
      with ⟨color', hsample', rfl⟩
    exact hlast i' j' color' hlater ⟨Int.lt_toNat.mp hi', Int.lt_toNat.mp hj', hsample',
      hp.1.symm, hp.2.symm⟩
  · refine Raster.pixel_paint_of_not_mem frame fun stroke hmem hp => ?_
    rcases List.mem_flatMap.mp hmem with ⟨i, hi, hmem⟩
    rcases List.mem_flatMap.mp hmem with ⟨j, hj, hstroke⟩
    rw [List.mem_range] at hi hj
    rcases (mem_rotatedStroke_iff fp lib conversion screen img x y theta i j stroke).mp hstroke
      with ⟨color, hsample, rfl⟩
    exact hnone i j color ⟨Int.lt_toNat.mp hi, Int.lt_toNat.mp hj, hsample, hp.1.symm, hp.2.symm⟩

end

/-- The functions of {lit}`math.h` at a quarter turn: the cosine of the nearest double is not 0. -/
def MathLib.quarterTurn : MathLib where
  cos := fun _ => 4967757600021511 / 2 ^ 106
  sin := fun _ => 1
  atan2 := fun _ _ => 0
  pi := 22 / 7
  abs_cos_le := fun _ => by norm_num [abs_le]
  abs_sin_le := MathLib.headingZero.abs_cos_le

/-- Of a sprite of three by two pixels, four are drawn then. -/
example :
    let img : XpmImage := ⟨3, 2, fun _ => 0xFF0000⟩
    ((List.range 3).flatMap fun i => (List.range 2).filterMap fun j =>
      img.sample (rotatedSource binary64 .quarterTurn img 0 i j)).length = 4 := by
  decide +kernel

/-! ## Without a rotation -/

/-- The first column or row of the box around a coordinate. -/
def boxStart (coordinate : UInt16) (side : ℚ) : Nat := (⌊coordinate.toNat - side / 2⌋).toNat

section

variable (fp : Doubles) {lib : MathLib} {theta : ℚ}

/-- Truncation leaves natural numbers alone. -/
theorem truncToInt_natCast (k : Nat) : truncToInt (k : ℚ) = k := by
  rw [truncToInt, if_pos (Nat.cast_nonneg k), Int.floor_natCast]

/-- Halves of integers are exact. -/
theorem round_half {q : ℚ} {k : ℤ} (hk : |k| ≤ 2 ^ 53) (h : q = k / 2) : fp.round q = q := by
  rw [h]
  exact fp.round_of_isFloat (isFloat_intCast hk).half

/-- Without a rotation the box has the size of the sprite. -/
theorem rotatedSize_upright (img : XpmImage) (hcos : lib.cos theta = 1)
    (hsin : lib.sin theta = 0) :
    img.rotatedSize fp lib theta = ((img.width.toNat : ℚ), (img.height.toNat : ℚ)) := by
  have hexact : ∀ side : Nat, side < 65536 → fp.round ((side : ℚ) / 2) = (side : ℚ) / 2 :=
    fun side hside => div_two_natCast fp hside
  rw [rotatedSize_eq, hcos, hsin]
  simp only [abs_one, abs_zero, FloatArith.mul, FloatArith.add, mul_one, mul_zero, fp.round_zero,
    hexact _ img.width.toNat_lt, hexact _ img.height.toNat_lt, add_zero, zero_add]
  refine Prod.ext ?_ ?_ <;> dsimp only <;> ring

/-- Without a rotation the source of a pixel is the pixel. -/
theorem sample_upright (img : XpmImage) (hcos : lib.cos theta = 1) (hsin : lib.sin theta = 0)
    {i j : Nat} (hi : i < 65536) (hj : j < 65536) :
    img.sample (rotatedSource fp lib img theta i j) = img.visibleAt j i := by
  have hsub : ∀ k side : Nat, k < 65536 → side < 65536 →
      fp.round ((k : ℚ) - (side : ℚ) / 2) = (k : ℚ) - (side : ℚ) / 2 := by
    intro k side hk hside
    refine round_half fp (k := 2 * k - side) ?_ ?_
    · rw [abs_le]
      constructor <;> omega
    · push_cast
      ring
  have hnat : ∀ k : Nat, k < 65536 → fp.round (k : ℚ) = k := fun k hk =>
    fp.round_of_isFloat (isFloat_natCast (hk.le.trans (by decide)))
  have hsource : rotatedSource fp lib img theta i j = ((j : ℚ), (i : ℚ)) := by
    have hwidth := div_two_natCast fp img.width.toNat_lt
    have hheight := div_two_natCast fp img.height.toNat_lt
    rw [rotatedSource, rotatedSize_upright fp img hcos hsin, hcos, hsin]
    simp only [hwidth, hheight, FloatArith.sub, FloatArith.add, FloatArith.mul, one_mul, zero_mul,
      fp.round_zero, hsub _ _ hi img.height.toNat_lt, hsub _ _ hj img.width.toNat_lt, sub_zero,
      zero_add, sub_add_cancel, hnat i hi, hnat j hj]
  rw [hsource, XpmImage.sample]
  dsimp only
  rw [truncToInt_natCast, truncToInt_natCast, Int.toNat_natCast, Int.toNat_natCast]
  by_cases hin : i < img.height.toNat ∧ j < img.width.toNat
  · rw [if_pos ⟨Nat.cast_nonneg _, Nat.cast_lt.mpr hin.2, Nat.cast_nonneg _,
      Nat.cast_lt.mpr hin.1⟩]
  · rw [XpmImage.visibleAt, dif_neg hin, ite_self]

/-- From a position at which the box does not leave the range of a coordinate, the pixels of the
box are consecutive. -/
theorem rotatedTarget_upright (conversion : DoubleToUInt16) {coordinate : UInt16} {side k : Nat}
    (hside : side < 65536) (hk : k < side) (hstart : (side : ℚ) / 2 ≤ coordinate.toNat)
    (hend : coordinate.toNat + (side : ℚ) / 2 ≤ 65536) :
    rotatedTarget fp conversion coordinate side k =
      UInt16.ofNat ((UInt16.ofNat (boxStart coordinate side)).toNat + k) := by
  have hcoordinate := coordinate.toNat_lt
  have hexact : fp.sub (coordinate.toNat + k) (fp.div side 2) =
      coordinate.toNat + k - (side : ℚ) / 2 := by
    rw [div_two_natCast fp hside]
    refine round_half fp (k := 2 * (coordinate.toNat + k) - side) ?_ ?_
    · rw [abs_le]
      constructor <;> omega
    · push_cast
      ring
  have hlast : ((k + 1 : Nat) : ℚ) ≤ side := by exact_mod_cast hk
  push_cast at hlast
  have hnonneg : 0 ≤ (coordinate.toNat : ℚ) + k - (side : ℚ) / 2 := by
    linarith [Nat.cast_nonneg (α := ℚ) k]
  have htruncates := conversion.truncates (coordinate.toNat + k - (side : ℚ) / 2) (by linarith)
    (by linarith)
  have hcorner : 0 ≤ ⌊(coordinate.toNat : ℚ) - (side : ℚ) / 2⌋ :=
    Int.floor_nonneg.mpr (by linarith)
  have hfloor : ⌊(coordinate.toNat : ℚ) + k - (side : ℚ) / 2⌋ =
      ⌊(coordinate.toNat : ℚ) - (side : ℚ) / 2⌋ + k := by
    rw [← Int.floor_add_natCast]
    congr 1
    ring
  rw [truncToInt, if_pos hnonneg, hfloor] at htruncates
  have htarget := (conversion.convert (coordinate.toNat + k - (side : ℚ) / 2)).toNat_lt
  rw [rotatedTarget, hexact, ← UInt16.toNat_inj, UInt16.toNat_ofNat', UInt16.toNat_ofNat',
    boxStart]
  omega

/-- At an angle without a rotation, a sprite whose box does not leave the range of the coordinates
is drawn as {lit}`draw_xpm_at_pos` draws it from the corner of the box. -/
theorem drawXpmAtPosAtDelta_upright (screen : Screen) (conversion : DoubleToUInt16)
    (img : XpmImage) (x y : UInt16) (frame : screen.Frame) (hcos : lib.cos theta = 1)
    (hsin : lib.sin theta = 0) (hx : (img.width.toNat : ℚ) / 2 ≤ x.toNat)
    (hx' : x.toNat + (img.width.toNat : ℚ) / 2 ≤ 65536)
    (hy : (img.height.toNat : ℚ) / 2 ≤ y.toNat)
    (hy' : y.toNat + (img.height.toNat : ℚ) / 2 ≤ 65536) :
    drawXpmAtPosAtDelta fp lib conversion screen.toModeInfo img x y theta (some frame) =
      drawXpmAtPos screen.toModeInfo img (UInt16.ofNat (boxStart x img.width.toNat))
        (UInt16.ofNat (boxStart y img.height.toNat)) (some frame) := by
  have hwidth := img.width.toNat_lt
  have hheight := img.height.toNat_lt
  rw [drawXpmAtPosAtDelta, drawXpmAtPos, rotatedSize_upright fp img hcos hsin]
  dsimp only
  rw [truncToInt_natCast, truncToInt_natCast, Int.toNat_natCast, Int.toNat_natCast,
    ← List.map_coe_finRange_eq_range, ← List.map_coe_finRange_eq_range]
  simp only [List.foldl_map]
  congr 1
  funext memory i
  congr 1
  funext memory j
  rw [sample_upright fp img hcos hsin (i.isLt.trans hheight) (j.isLt.trans hwidth),
    XpmImage.visibleAt, dif_pos ⟨i.isLt, j.isLt⟩, rotatedTarget_upright fp conversion hwidth
      j.isLt hx hx', rotatedTarget_upright fp conversion hheight i.isLt hy hy']
  dsimp only
  split_ifs <;> rfl

end

/-- A sprite of two pixels of which one is visible. -/
def twoPixels : XpmImage := ⟨2, 1, fun i => if i.val = 0 then 0xFF0000 else 0x00FF00⟩

/-- Its corner is one column to the left of the position and one row above it. -/
theorem drawXpmAtPosAtDelta_twoPixels_upright :
    drawXpmAtPosAtDelta binary64 .headingZero .wrapping gameScreen.toModeInfo twoPixels 100 100 0
        (some fun _ => 0 : Memory gameScreen.raster.size) =
      drawXpmAtPos gameScreen.toModeInfo twoPixels
        (UInt16.ofNat (boxStart 100 twoPixels.width.toNat))
        (UInt16.ofNat (boxStart 100 twoPixels.height.toNat)) (some fun _ => 0) := by
  refine drawXpmAtPosAtDelta_upright binary64 gameScreen .wrapping twoPixels 100 100 (fun _ => 0)
    rfl rfl ?_ ?_ ?_ ?_ <;> simp [twoPixels] <;> norm_num

end LCOMaze
