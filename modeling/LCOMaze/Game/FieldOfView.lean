import LCOMaze.Controllers.Buffers
import LCOMaze.Controllers.Sprites
import LCOMaze.Game.Player
import Mathlib.Analysis.Real.Sqrt

/-!
# The field of view

{lit}`game_draw_fov_circle` copies the pixels of the maze that are at most two hundred pixels away
from the player, without the one on which the player stands.  The distance is one of doubles, and
every operation of it is rounded.

Main results:

- Theorem {lit}`inFov_of_near`, {lit}`near_of_inFov`: the rounding misplaces the circle by less
  than {lit}`2 ^ (-43)` pixels.
- Theorem {lit}`inFov_iff_of_wholePixel`: between whole pixels there is no error.
- Theorem {lit}`gameDrawFovCircle_pixels`: exactly the pixels within the radius are copied.
- Theorem {lit}`fovOverlay_congr`: the rest of the maze does not matter.
-/

namespace LCOMaze

open Foundations

variable {n : Nat}

/-! ## The translated loops -/

/-- {lit}`FOV_RADIUS`. -/
def fovRadius : ℚ := 200

/-- The variable {lit}`distance`. -/
def fovDistance (fp : Doubles) (player : Player) (xPixel yPixel : Nat) : ℚ :=
  let dx := fp.sub xPixel player.x
  let dy := fp.sub yPixel player.y
  fp.sqrt (fp.add (fp.mul dx dx) (fp.mul dy dy))

/-- The player stands on the pixel. -/
def StandsOn (player : Player) (xPixel yPixel : Nat) : Prop :=
  (xPixel : ℚ) = player.x ∧ (yPixel : ℚ) = player.y

instance (player : Player) (xPixel yPixel : Nat) : Decidable (StandsOn player xPixel yPixel) :=
  inferInstanceAs (Decidable (_ ∧ _))

/-- The pixels for which the body does not {lit}`continue` and finds the distance small enough. -/
def InFov (fp : Doubles) (player : Player) (xPixel yPixel : Nat) : Prop :=
  ¬StandsOn player xPixel yPixel ∧ fovDistance fp player xPixel yPixel ≤ fovRadius

instance (fp : Doubles) (player : Player) (xPixel yPixel : Nat) :
    Decidable (InFov fp player xPixel yPixel) :=
  inferInstanceAs (Decidable (_ ∧ _))

/-- {lit}`game_draw_fov_circle` on {lit}`back_buffer`. -/
def gameDrawFovCircle (fp : Doubles) (mode : ModeInfo) (player : Player) (mazeBuffer : Memory n)
    (memory : Memory n) : Memory n :=
  (List.finRange mode.yResolution.toNat).foldl (fun memory (yPixel : Fin mode.yResolution.toNat) =>
    (List.finRange mode.xResolution.toNat).foldl
      (fun memory (xPixel : Fin mode.xResolution.toNat) =>
        if InFov fp player xPixel yPixel then copyPixel mode mazeBuffer xPixel yPixel memory
        else memory) memory) memory

/-! ## The circle -/

/-- The square of the distance without a rounding. -/
def squaredDistance (player : Player) (xPixel yPixel : Nat) : ℚ :=
  (xPixel - player.x) ^ 2 + (yPixel - player.y) ^ 2

/-- The distance without a rounding. -/
noncomputable def euclideanDistance (player : Player) (xPixel yPixel : Nat) : ℝ :=
  Real.sqrt (squaredDistance player xPixel yPixel : ℚ)

/-- Comparing the root is comparing its argument. -/
theorem euclideanDistance_le_iff (player : Player) (xPixel yPixel : Nat) {r : ℚ} (hr : 0 ≤ r) :
    euclideanDistance player xPixel yPixel ≤ r ↔
      squaredDistance player xPixel yPixel ≤ r ^ 2 := by
  rw [euclideanDistance, Real.sqrt_le_left (by exact_mod_cast hr)]
  exact_mod_cast Iff.rfl

section

variable (fp : Doubles) {player : Player} {xPixel yPixel : Nat}

/-- A pixel clearly within the radius is in view. -/
theorem inFov_of_near (hapart : ¬StandsOn player xPixel yPixel)
    (h : euclideanDistance player xPixel yPixel ≤ (200 - 1 / 2 ^ 43 : ℚ)) :
    InFov fp player xPixel yPixel := by
  rw [euclideanDistance_le_iff _ _ _ (by norm_num)] at h
  refine ⟨hapart, fp.sqrt_le_of_le (by decide) (isFloat_natCast (by decide : 200 ≤ 2 ^ 53)) ?_⟩
  have hsum := (fp.sumSq_bounds (by decide) (xPixel - player.x) (yPixel - player.y)).2
  refine hsum.trans ?_
  refine (mul_le_mul_of_nonneg_left h (by positivity)).trans ?_
  norm_num [fovRadius]

/-- A pixel in view is not clearly outside of the radius. -/
theorem near_of_inFov (h : InFov fp player xPixel yPixel) :
    euclideanDistance player xPixel yPixel ≤ (200 + 1 / 2 ^ 43 : ℚ) := by
  rw [euclideanDistance_le_iff _ _ _ (by norm_num)]
  have hsum := (fp.sumSq_bounds (by decide) (xPixel - player.x) (yPixel - player.y)).1
  have hroot := fp.le_of_sqrt_le (by decide) (by decide) h.2
  have hsquare : (1 - 1 / 2 ^ 53 : ℚ) ^ 6 * squaredDistance player xPixel yPixel ≤ 200 ^ 2 := by
    refine le_trans (le_of_eq ?_) ((mul_le_mul_of_nonneg_left hsum (sq_nonneg _)).trans hroot)
    rw [squaredDistance]
    ring
  by_contra hfar
  rw [not_le] at hfar
  have hmore := mul_lt_mul_of_pos_left hfar (by norm_num : (0 : ℚ) < (1 - 1 / 2 ^ 53) ^ 6)
  have hconstant : (200 : ℚ) ^ 2 < (1 - 1 / 2 ^ 53) ^ 6 * (200 + 1 / 2 ^ 43) ^ 2 := by norm_num
  linarith

/-- The position is one of whole pixels. -/
def Player.WholePixel (player : Player) : Prop :=
  ∃ x y : ℤ, player.x = x ∧ player.y = y ∧ |x| ≤ 2 ^ 25 ∧ |y| ≤ 2 ^ 25

/-- From whole pixel to whole pixel there is no error. -/
theorem inFov_iff_of_wholePixel (hapart : ¬StandsOn player xPixel yPixel)
    (hwhole : player.WholePixel) (hx : xPixel < 2 ^ 16) (hy : yPixel < 2 ^ 16) :
    InFov fp player xPixel yPixel ↔ euclideanDistance player xPixel yPixel ≤ (200 : ℚ) := by
  rcases hwhole with ⟨x, y, hplayerx, hplayery, hxbound, hybound⟩
  rw [euclideanDistance_le_iff _ _ _ (by norm_num)]
  rw [abs_le] at hxbound hybound
  have hsquares : ((xPixel : ℤ) - x) ^ 2 + ((yPixel : ℤ) - y) ^ 2 ≤ 2 ^ 53 := by
    nlinarith
  have hsum := fp.sumSq_intCast hsquares
  have hdistance : fovDistance fp player xPixel yPixel =
      fp.sqrt ((((xPixel : ℤ) - x) ^ 2 + ((yPixel : ℤ) - y) ^ 2 : ℤ) : ℚ) := by
    rw [← hsum, fovDistance, hplayerx, hplayery]
    push_cast
    rfl
  have hsquared : squaredDistance player xPixel yPixel =
      ((((xPixel : ℤ) - x) ^ 2 + ((yPixel : ℤ) - y) ^ 2 : ℤ) : ℚ) := by
    rw [squaredDistance, hplayerx, hplayery]
    push_cast
    rfl
  rw [InFov, and_iff_right hapart, hdistance, hsquared]
  generalize ((xPixel : ℤ) - x) ^ 2 + ((yPixel : ℤ) - y) ^ 2 = square
  constructor
  · intro h
    have hroot := fp.le_of_sqrt_le (by decide) (by decide) h
    by_contra hfar
    have hmore : ((200 ^ 2 + 1 : ℤ) : ℚ) ≤ square := by
      have hlt : (200 ^ 2 : ℤ) < square := by
        rw [not_le] at hfar
        exact_mod_cast hfar
      exact_mod_cast hlt
    have hscaled := mul_le_mul_of_nonneg_left hmore
      (by norm_num : (0 : ℚ) ≤ (1 - 1 / 2 ^ 53) ^ 2)
    have hconstant : (200 : ℚ) ^ 2 < (1 - 1 / 2 ^ 53) ^ 2 * ((200 ^ 2 + 1 : ℤ) : ℚ) := by norm_num
    have hradius : fovRadius = 200 := rfl
    rw [hradius] at hroot
    linarith
  · intro h
    refine fp.sqrt_le_of_le (by decide) (isFloat_natCast (by decide : 200 ≤ 2 ^ 53)) ?_
    rw [sq] at h
    exact h

end

/-! ## Exactness -/

/-- The pixels copied, in the order of the loops. -/
noncomputable def fovStrokes (fp : Doubles) (screen : Screen) (player : Player)
    (mazeBuffer : screen.Frame) :
    List (Set screen.raster.Pixel × (Fin screen.raster.depth → UInt8)) :=
  (List.finRange screen.raster.height).flatMap fun (yPixel : Fin screen.raster.height) =>
    (List.finRange screen.raster.width).flatMap fun (xPixel : Fin screen.raster.width) =>
      if InFov fp player xPixel yPixel then
        [(pixelAt screen.raster xPixel yPixel, Raster.pixel mazeBuffer (xPixel, yPixel))]
      else []

/-- The loops fill single pixels and read and write no byte outside the frames. -/
theorem gameDrawFovCircle_paints (fp : Doubles) (screen : Screen) (player : Player)
    (mazeBuffer : screen.Frame) :
    Paints screen (gameDrawFovCircle fp screen.toModeInfo player (some mazeBuffer))
      (fovStrokes fp screen player mazeBuffer) :=
  Paints.foldl (fun (yPixel : Fin screen.raster.height) =>
    Paints.foldl (fun (xPixel : Fin screen.raster.width) => Paints.ite fun frame =>
      copyPixel_screen screen mazeBuffer frame (xPixel, yPixel)) _) _

/-- What the player sees of the maze. -/
def fovOverlay (fp : Doubles) (screen : Screen) (player : Player) (mazeBuffer : screen.Frame)
    (p : screen.raster.Pixel) : Option (Fin screen.raster.depth → UInt8) :=
  if InFov fp player p.1 p.2 then some (Raster.pixel mazeBuffer p) else none

/-- Every pixel in view is filled with what it is in the maze, and no other pixel. -/
theorem mem_fovStrokes_iff (fp : Doubles) (screen : Screen) (player : Player)
    (mazeBuffer : screen.Frame)
    (stroke : Set screen.raster.Pixel × (Fin screen.raster.depth → UInt8)) :
    stroke ∈ fovStrokes fp screen player mazeBuffer ↔
      ∃ p, InFov fp player p.1 p.2 ∧
        stroke = (pixelAt screen.raster p.1 p.2, Raster.pixel mazeBuffer p) := by
  simp only [fovStrokes, List.mem_flatMap, List.mem_finRange, true_and]
  constructor
  · rintro ⟨yPixel, xPixel, hmem⟩
    by_cases hin : InFov fp player xPixel yPixel
    · rw [if_pos hin] at hmem
      exact ⟨(xPixel, yPixel), hin, List.mem_singleton.mp hmem⟩
    · rw [if_neg hin] at hmem
      exact absurd hmem List.not_mem_nil
  · rintro ⟨⟨xPixel, yPixel⟩, hin, rfl⟩
    refine ⟨yPixel, xPixel, ?_⟩
    rw [if_pos hin]
    exact List.mem_singleton_self _

/-- What is in view is left on top of the frame. -/
theorem gameDrawFovCircle_draws (fp : Doubles) (screen : Screen) (player : Player)
    (mazeBuffer : screen.Frame) :
    Draws screen (gameDrawFovCircle fp screen.toModeInfo player (some mazeBuffer))
      (fovOverlay fp screen player mazeBuffer) := by
  apply (gameDrawFovCircle_paints fp screen player mazeBuffer).draws_overlay
  · intro p stroke hstroke hp
    rcases (mem_fovStrokes_iff fp screen player mazeBuffer stroke).mp hstroke with ⟨q, hin, rfl⟩
    have hq : p = q := Prod.ext (Fin.ext hp.1) (Fin.ext hp.2)
    rw [hq]
    exact if_pos hin
  · intro p hsome
    unfold fovOverlay at hsome
    split_ifs at hsome with hin
    · exact ⟨_, (mem_fovStrokes_iff fp screen player mazeBuffer _).mpr ⟨p, hin, rfl⟩, rfl, rfl⟩
    · exact absurd rfl hsome

/-- For every way to round, every screen, every position of the player, also one between pixels or
off the screen, every picture of the maze and every frame, {lit}`game_draw_fov_circle` touches no
byte outside the buffers, copies exactly the pixels of the maze whose {lit}`distance` is at most the
radius, but not the one at the position itself, and changes nothing else.  This distance decides as
the Euclidean one does, up to an error of less than {lit}`2 ^ (-43)` pixels, and without one if the
position is one of whole pixels. -/
theorem gameDrawFovCircle_pixels (fp : Doubles) (screen : Screen) (player : Player)
    (mazeBuffer frame : screen.Frame) :
    ∃ frame' : screen.Frame,
      gameDrawFovCircle fp screen.toModeInfo player (some mazeBuffer) (some frame) = some frame' ∧
      ∀ p : screen.raster.Pixel,
        (InFov fp player p.1 p.2 → Raster.pixel frame' p = Raster.pixel mazeBuffer p) ∧
        (¬InFov fp player p.1 p.2 → Raster.pixel frame' p = Raster.pixel frame p) ∧
        (StandsOn player p.1 p.2 → ¬InFov fp player p.1 p.2) ∧
        (¬StandsOn player p.1 p.2 →
          (euclideanDistance player p.1 p.2 ≤ (200 - 1 / 2 ^ 43 : ℚ) → InFov fp player p.1 p.2) ∧
          ((200 + 1 / 2 ^ 43 : ℚ) < euclideanDistance player p.1 p.2 →
            ¬InFov fp player p.1 p.2) ∧
          (player.WholePixel →
            (InFov fp player p.1 p.2 ↔ euclideanDistance player p.1 p.2 ≤ (200 : ℚ)))) := by
  rcases gameDrawFovCircle_draws fp screen player mazeBuffer frame with ⟨frame', hrun, hpixel⟩
  refine ⟨frame', hrun, fun p => ⟨fun hin => ?_, fun hout => ?_, fun hstands hin => hin.1 hstands,
    fun hapart => ⟨inFov_of_near fp hapart, fun hfar hin => ?_, fun hwhole => ?_⟩⟩⟩
  · rw [hpixel p, fovOverlay, if_pos hin]
    rfl
  · rw [hpixel p, fovOverlay, if_neg hout]
    rfl
  · exact absurd (near_of_inFov fp hin) (not_le.mpr hfar)
  · exact inFov_iff_of_wholePixel fp hapart hwhole
      (p.1.isLt.trans screen.xResolution.toNat_lt) (p.2.isLt.trans screen.yResolution.toNat_lt)

/-- A pixel further away than the radius whose distance is rounded to it. -/
example : InFov binary64 ⟨202, 3 + 1 / 2 ^ 20, 0, 0, 0, 0, false, false⟩ 2 3 := by decide +kernel

/-- Two pictures of the maze that agree in view leave the same on top, whatever else they hold. -/
theorem fovOverlay_congr (fp : Doubles) (screen : Screen) (player : Player)
    {mazeBuffer mazeBuffer' : screen.Frame}
    (h : ∀ p : screen.raster.Pixel, InFov fp player p.1 p.2 →
      Raster.pixel mazeBuffer p = Raster.pixel mazeBuffer' p) :
    fovOverlay fp screen player mazeBuffer = fovOverlay fp screen player mazeBuffer' := by
  funext p
  unfold fovOverlay
  by_cases hin : InFov fp player p.1 p.2
  · rw [if_pos hin, if_pos hin, h p hin]
  · rw [if_neg hin, if_neg hin]

end LCOMaze
