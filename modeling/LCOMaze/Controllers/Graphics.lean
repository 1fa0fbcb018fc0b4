import LCOMaze.Foundations.CountedLoop
import LCOMaze.Foundations.Raster
import Mathlib.Algebra.Group.Nat.Defs

/-!
# Drawing pixels and rectangles

{lit}`vg_draw_pixel` writes the bytes of one pixel of a buffer, {lit}`vg_draw_rectangle_to_buffer`
calls it column by column and returns at the first pixel that it rejects.

Main results:

- Theorem {lit}`vgDrawPixel_screen`: on a frame, {lit}`vg_draw_pixel` fills one pixel or none.
- Theorem {lit}`vgDrawRectangleToBuffer_screen`: what the loops paint.
- Theorem {lit}`vgDrawRectangleToBuffer_clips_iff`: the rectangle is clipped to the screen exactly
  if it does not cross the bottom edge, up to pixels that have its colour before.
- Theorem {lit}`vgDrawRectangleToBuffer_terminates_iff`: the loops end unless the columns are
  empty and the bound of the rows is out of reach.
-/

namespace LCOMaze

open Foundations

/-! ## The mode and the buffers -/

/-- The fields of {lit}`mode_info` that drawing reads. -/
structure ModeInfo where
  xResolution : UInt16
  yResolution : UInt16
  bitsPerPixel : UInt8

namespace ModeInfo

/-- {lit}`bytesPerPixel`. -/
def bytesPerPixel (mode : ModeInfo) : UInt32 := (mode.bitsPerPixel.toUInt32 + 7) / 8

/-- {lit}`frameSize`. -/
def frameSize (mode : ModeInfo) : UInt32 :=
  mode.xResolution.toUInt32 * mode.yResolution.toUInt32 * mode.bytesPerPixel

end ModeInfo

/-- A buffer of {lit}`n` bytes; {lit}`none` once a byte outside of it was written. -/
abbrev Memory (n : Nat) := Option (Fin n → UInt8)

variable {n : Nat}

/-- Write one byte. -/
def storeByte (address : Nat) (byte : UInt8) (memory : Memory n) : Memory n :=
  memory.bind fun buffer =>
    if h : address < n then some (Function.update buffer ⟨address, h⟩ byte) else none

/-- The bytes of a colour, the lowest first. -/
def colorByte (color : UInt32) (k : Nat) : UInt8 := UInt8.ofNat (color.toNat / 256 ^ k)

/-- {lit}`memcpy` of the first {lit}`count` bytes of a colour. -/
def memcpyColor (color : UInt32) (index count : Nat) (memory : Memory n) : Memory n :=
  (List.range count).foldl (fun memory k => storeByte (index + k) (colorByte color k) memory)
    memory

/-- {lit}`vg_draw_pixel`. -/
def vgDrawPixel (mode : ModeInfo) (x y : UInt16) (color : UInt32) (memory : Memory n) :
    Memory n × Int :=
  if x ≥ mode.xResolution ∨ y ≥ mode.yResolution then (memory, 1)
  else
    let index := (mode.xResolution.toUInt32 * y.toUInt32 + x.toUInt32) * mode.bytesPerPixel
    (memcpyColor color index.toNat mode.bytesPerPixel.toNat memory, 0)

/-- The body of the inner loop of {lit}`vg_draw_rectangle_to_buffer`. -/
def drawOrReturn (mode : ModeInfo) (color : UInt32) (i j : UInt16) (memory : Memory n) :
    Option (Memory n × Option Int) :=
  let (memory, result) := vgDrawPixel mode i j color memory
  if result ≠ 0 then some (memory, some 1) else some (memory, none)

/-- Its inner loop. -/
def drawColumn (mode : ModeInfo) (y height : UInt16) (color : UInt32) (fuel : Nat) (i : UInt16)
    (memory : Memory n) : Option (Memory n × Option Int) :=
  forUInt16 (height.toNat + y.toNat) (drawOrReturn mode color i) fuel y memory

/-- {lit}`vg_draw_rectangle_to_buffer`. -/
def vgDrawRectangleToBuffer (mode : ModeInfo) (x y width height : UInt16) (color : UInt32)
    (fuel : Nat) (memory : Memory n) : Option (Memory n × Int) :=
  (forUInt16 (width.toNat + x.toNat) (drawColumn mode y height color fuel) fuel x memory).map
    fun (memory, result) => (memory, result.getD 0)

/-! ## Termination -/

/-- The pixel in column {lit}`x` and row {lit}`y` is on the screen. -/
def ModeInfo.Shows (mode : ModeInfo) (x y : UInt16) : Prop :=
  x.toNat < mode.xResolution.toNat ∧ y.toNat < mode.yResolution.toNat

instance (mode : ModeInfo) (x y : UInt16) : Decidable (mode.Shows x y) :=
  inferInstanceAs (Decidable (_ ∧ _))

/-- The test with which {lit}`vg_draw_pixel` rejects the others. -/
theorem ModeInfo.shows_iff (mode : ModeInfo) {x y : UInt16} :
    mode.Shows x y ↔ ¬(x ≥ mode.xResolution ∨ y ≥ mode.yResolution) := by
  rw [ModeInfo.Shows, ge_iff_le, ge_iff_le, UInt16.le_iff_toNat_le, UInt16.le_iff_toNat_le]
  omega

/-- A pixel is rejected exactly if it is off the screen. -/
theorem vgDrawPixel_result (mode : ModeInfo) (x y : UInt16) (color : UInt32)
    (memory : Memory n) :
    (vgDrawPixel mode x y color memory).2 = if mode.Shows x y then 0 else 1 := by
  rw [vgDrawPixel]
  by_cases hshows : mode.Shows x y
  · rw [if_pos hshows, if_neg (mode.shows_iff.mp hshows)]
  · rw [if_neg hshows, if_pos (not_not.mp fun h => hshows (mode.shows_iff.mpr h))]

/-- One iteration of the inner loop. -/
theorem drawOrReturn_eq (mode : ModeInfo) (color : UInt32) (i j : UInt16) (memory : Memory n) :
    drawOrReturn mode color i j memory =
      some ((vgDrawPixel mode i j color memory).1,
        if mode.Shows i j then none else some 1) := by
  have hresult := vgDrawPixel_result mode i j color memory
  unfold drawOrReturn
  by_cases hshows : mode.Shows i j
  · rw [if_pos hshows] at hresult ⊢
    simp [hresult]
  · rw [if_neg hshows] at hresult ⊢
    simp [hresult]

/-- The inner loop ends.  If it goes on to the next column, its first pixel is on the screen. -/
theorem drawColumn_total (mode : ModeInfo) (y height : UInt16) (color : UInt32) (i : UInt16)
    {fuel : Nat} (hfuel : height.toNat ≤ fuel) (memory : Memory n) :
    ∃ memory' result, drawColumn mode y height color fuel i memory = some (memory', result) ∧
      (result = none → 0 < height.toNat → mode.Shows i y) := by
  have hstep : ∀ (j : UInt16) (memory : Memory n), y.toNat ≤ j.toNat →
      j.toNat < height.toNat + y.toNat → (y.toNat < j.toNat → mode.Shows i y) →
      (∃ t result, drawOrReturn mode color i j memory = some (t, some result) ∧ True) ∨
        ∃ t, drawOrReturn mode color i j memory = some (t, none) ∧ j.toNat + 1 < 65536 ∧
          (y.toNat < j.toNat + 1 → mode.Shows i y) := by
    intro j memory hj _ _
    rw [drawOrReturn_eq]
    by_cases hshows : mode.Shows i j
    · have hlast := mode.yResolution.toNat_lt
      rw [if_pos hshows]
      unfold ModeInfo.Shows at hshows
      refine Or.inr ⟨_, rfl, by omega, fun _ => ?_⟩
      unfold ModeInfo.Shows
      omega
    · rw [if_neg hshows]
      exact Or.inl ⟨_, 1, rfl, trivial⟩
  have hfirst : y.toNat < y.toNat → mode.Shows i y := fun h => absurd h (Nat.lt_irrefl _)
  rcases forUInt16_total (fun j (_ : Memory n) => y.toNat < j → mode.Shows i y)
    (fun _ _ => True) hstep (by omega : height.toNat + y.toNat - y.toNat ≤ fuel)
    (s := memory) hfirst with ⟨t, result, hrun, -⟩ | ⟨t, hrun, hlast⟩
  · exact ⟨t, some result, hrun, fun h => absurd h (Option.some_ne_none _)⟩
  · exact ⟨t, none, hrun, fun _ hpos => hlast (by omega)⟩

/-- The outer loop ends if the columns are not empty or its bound can be reached. -/
theorem vgDrawRectangleToBuffer_total (mode : ModeInfo) (x y width height : UInt16)
    (color : UInt32) (memory : Memory n)
    (h : x.toNat + width.toNat ≤ 65535 ∨ 0 < height.toNat) :
    ∃ fuel, (vgDrawRectangleToBuffer mode x y width height color fuel memory).isSome := by
  have hcolumn := fun i (memory : Memory n) => drawColumn_total mode y height color i
    (Nat.le_add_left height.toNat width.toNat) memory
  have hstep : ∀ (i : UInt16) (memory : Memory n), x.toNat ≤ i.toNat →
      i.toNat < width.toNat + x.toNat → True →
      (∃ t result, drawColumn mode y height color (width.toNat + height.toNat) i memory =
          some (t, some result) ∧ True) ∨
        ∃ t, drawColumn mode y height color (width.toNat + height.toNat) i memory =
          some (t, none) ∧ i.toNat + 1 < 65536 ∧ True := by
    intro i memory _ hlt _
    rcases hcolumn i memory with ⟨t, _ | result, hrun, hshows⟩
    · refine Or.inr ⟨t, hrun, ?_, trivial⟩
      rcases h with hbound | hpos
      · omega
      · have hlast := mode.xResolution.toNat_lt
        have hin := (hshows rfl hpos).1
        omega
    · exact Or.inl ⟨t, result, hrun, trivial⟩
  refine ⟨width.toNat + height.toNat, ?_⟩
  unfold vgDrawRectangleToBuffer
  rcases forUInt16_total (fun _ _ => True) (fun _ _ => True) hstep
    (by omega : _ ≤ width.toNat + height.toNat) (s := memory) trivial with
    ⟨t, result, hrun, -⟩ | ⟨t, hrun, -⟩
  · rw [hrun]
    rfl
  · rw [hrun]
    rfl

/-- Without rows, the outer loop does not end if its bound is out of reach. -/
theorem vgDrawRectangleToBuffer_diverges (mode : ModeInfo) (x y width : UInt16) (color : UInt32)
    (memory : Memory n) (h : 65535 < x.toNat + width.toNat) (fuel : Nat) :
    vgDrawRectangleToBuffer mode x y width 0 color fuel memory = none := by
  have hempty : ∀ (i : UInt16) (s t : Memory n) (result : Int),
      drawColumn mode y 0 color fuel i s ≠ some (t, some result) := by
    intro i s t result
    rw [drawColumn, forUInt16_of_le (by simp)]
    simp
  rw [vgDrawRectangleToBuffer, forUInt16_diverges (by omega) hempty]
  rfl

/-- For every mode, every rectangle and every buffer, the loops of
{lit}`vg_draw_rectangle_to_buffer` end exactly if the right edge is within the range of the
counter or the rectangle has a row. -/
theorem vgDrawRectangleToBuffer_terminates_iff (mode : ModeInfo) (x y width height : UInt16)
    (color : UInt32) (memory : Memory n) :
    (∃ fuel, (vgDrawRectangleToBuffer mode x y width height color fuel memory).isSome) ↔
      x.toNat + width.toNat ≤ 65535 ∨ 0 < height.toNat := by
  constructor
  · rintro ⟨fuel, hrun⟩
    by_contra hnot
    rw [not_or, Nat.not_le, Nat.not_lt, Nat.le_zero] at hnot
    have hzero : height = 0 := UInt16.toNat_inj.mp hnot.2
    subst hzero
    rw [vgDrawRectangleToBuffer_diverges mode x y width color memory hnot.1] at hrun
    exact Bool.false_ne_true hrun
  · exact vgDrawRectangleToBuffer_total mode x y width height color memory

/-- With nothing to draw in a column, 65535 columns from the second one on take forever. -/
theorem vgDrawRectangleToBuffer_empty_columns :
    ¬∃ fuel, (vgDrawRectangleToBuffer ⟨800, 600, 24⟩ 1 0 65535 0 0xFFFFFF fuel
      (some fun _ => 0 : Memory 1440000)).isSome := by
  rintro ⟨fuel, hrun⟩
  rw [vgDrawRectangleToBuffer_diverges ⟨800, 600, 24⟩ 1 0 65535 0xFFFFFF _ (by decide)] at hrun
  exact Bool.false_ne_true hrun

/-! ## The frame of a screen -/

/-- A mode whose pixels have no more bytes than a colour and whose frame fits the address space,
as the one that {lit}`vm_map_phys` maps does. -/
structure Screen extends ModeInfo where
  bytesPerPixel_le : toModeInfo.bytesPerPixel.toNat ≤ 4
  frame_lt : xResolution.toNat * yResolution.toNat * toModeInfo.bytesPerPixel.toNat < 2 ^ 32

namespace Screen

/-- The dimensions of the picture. -/
def raster (screen : Screen) : Raster where
  width := screen.xResolution.toNat
  height := screen.yResolution.toNat
  depth := screen.bytesPerPixel.toNat

/-- The contents of a buffer of {lit}`frameSize` bytes. -/
abbrev Frame (screen : Screen) := Fin screen.raster.size → UInt8

/-- The bytes of a pixel of a colour. -/
def color (screen : Screen) (color : UInt32) : Fin screen.raster.depth → UInt8 :=
  fun k => colorByte color k

/-- The number of pixels fits the address space too. -/
theorem area_lt (screen : Screen) :
    screen.xResolution.toNat * screen.yResolution.toNat < 2 ^ 32 := by
  have hx := screen.xResolution.toNat_lt
  have hy := screen.yResolution.toNat_lt
  calc screen.xResolution.toNat * screen.yResolution.toNat
      ≤ 65535 * 65535 := Nat.mul_le_mul (by omega) (by omega)
    _ < 2 ^ 32 := by decide

/-- {lit}`frameSize` is the number of bytes of the picture. -/
theorem frameSize_toNat (screen : Screen) : screen.frameSize.toNat = screen.raster.size := by
  rw [ModeInfo.frameSize, UInt32.toNat_mul, UInt32.toNat_mul, UInt16.toNat_toUInt32,
    UInt16.toNat_toUInt32, Nat.mod_eq_of_lt screen.area_lt, Nat.mod_eq_of_lt screen.frame_lt]
  rfl

end Screen

/-- The pixels in column {lit}`x` and row {lit}`y`: one or none. -/
def pixelAt (r : Raster) (x y : Nat) : Set r.Pixel := {p | p.1.val = x ∧ p.2.val = y}

/-- The first bytes of a pixel, after they were copied. -/
theorem memcpyColor_pixel (screen : Screen) (color : UInt32) (frame : screen.Frame)
    (p : screen.raster.Pixel) (index : Nat)
    (hindex : index = (screen.raster.width * p.2 + p.1) * screen.raster.depth) :
    ∀ count ≤ screen.raster.depth,
      memcpyColor color index count (some frame) = some fun i =>
        if (screen.raster.address.symm i).1 = p ∧ (screen.raster.address.symm i).2.val < count then
          colorByte color (screen.raster.address.symm i).2
        else frame i := by
  intro count
  induction count with
  | zero => simp [memcpyColor]
  | succ count ih =>
      intro hcount
      have hval : index + count = (screen.raster.address (p, ⟨count, hcount⟩)).val := by
        rw [screen.raster.address_val, hindex]
      have hlt : index + count < screen.raster.size :=
        hval ▸ (screen.raster.address (p, ⟨count, hcount⟩)).isLt
      have hbyte : (⟨index + count, hlt⟩ : Fin screen.raster.size) =
          screen.raster.address (p, ⟨count, hcount⟩) := Fin.ext hval
      unfold memcpyColor at ih ⊢
      rw [List.range_succ, List.foldl_append, ih (Nat.le_of_succ_le hcount)]
      simp only [List.foldl_cons, List.foldl_nil, storeByte, Option.bind_some, dif_pos hlt, hbyte]
      congr 1
      funext i
      obtain ⟨⟨q, k⟩, rfl⟩ := screen.raster.address.surjective i
      simp only [Function.update_apply, Equiv.symm_apply_apply, EmbeddingLike.apply_eq_iff_eq,
        Prod.mk.injEq, Fin.ext_iff]
      by_cases hp : q = p
      · rcases Nat.lt_trichotomy k.val count with hlt | heq | hgt
        · simp [hp, hlt, hlt.ne, Nat.lt_succ_of_lt hlt]
        · simp [hp, heq]
        · simp [hp, hgt.ne', Nat.not_lt.mpr hgt.le, Nat.not_lt.mpr hgt]
      · simp [hp]

/-- Copying all bytes of a pixel fills it. -/
theorem memcpyColor_fill (screen : Screen) (color : UInt32) (frame : screen.Frame)
    (p : screen.raster.Pixel) :
    memcpyColor color ((screen.raster.width * p.2 + p.1) * screen.raster.depth)
        screen.raster.depth (some frame) =
      some (Raster.fill frame (pixelAt screen.raster p.1 p.2) (screen.color color)) := by
  rw [memcpyColor_pixel screen color frame p _ rfl _ (Nat.le_refl _)]
  congr 1
  refine Raster.ext_pixel fun q => ?_
  by_cases hq : q = p
  · subst hq
    have hmem : q ∈ pixelAt screen.raster q.1 q.2 := ⟨rfl, rfl⟩
    rw [Raster.pixel_fill_of_mem hmem]
    funext k
    simp [Raster.pixel, Screen.color]
  · have hnot : q ∉ pixelAt screen.raster p.1 p.2 :=
      fun h => hq (Prod.ext (Fin.ext h.1) (Fin.ext h.2))
    rw [Raster.pixel_fill_of_not_mem hnot]
    funext k
    simp [Raster.pixel, hq]

/-- On the screen, the index does not wrap. -/
theorem Screen.index_toNat (screen : Screen) {x y : UInt16} (h : screen.Shows x y) :
    ((screen.xResolution.toUInt32 * y.toUInt32 + x.toUInt32) * screen.bytesPerPixel).toNat =
      (screen.raster.width * y.toNat + x.toNat) * screen.raster.depth := by
  have hrow : screen.xResolution.toNat * y.toNat + x.toNat <
      screen.xResolution.toNat * screen.yResolution.toNat := by
    calc screen.xResolution.toNat * y.toNat + x.toNat
        < screen.xResolution.toNat * (y.toNat + 1) := by
          rw [Nat.mul_succ]
          exact Nat.add_lt_add_left h.1 _
      _ ≤ screen.xResolution.toNat * screen.yResolution.toNat := Nat.mul_le_mul_left _ h.2
  have hindex := Nat.lt_of_le_of_lt
    (Nat.mul_le_mul_right screen.bytesPerPixel.toNat (Nat.le_of_lt hrow)) screen.frame_lt
  have hrows := screen.area_lt
  rw [UInt32.toNat_mul, UInt32.toNat_add, UInt32.toNat_mul, UInt16.toNat_toUInt32,
    UInt16.toNat_toUInt32, UInt16.toNat_toUInt32,
    Nat.mod_eq_of_lt (by omega : screen.xResolution.toNat * y.toNat < 2 ^ 32),
    Nat.mod_eq_of_lt (hrow.trans hrows), Nat.mod_eq_of_lt hindex]
  rfl

/-- On a frame, {lit}`vg_draw_pixel` fills the pixel if the screen has it, and writes no byte
outside the frame. -/
theorem vgDrawPixel_screen (screen : Screen) (x y : UInt16) (color : UInt32)
    (frame : screen.Frame) :
    (vgDrawPixel screen.toModeInfo x y color (some frame)).1 =
      some (Raster.fill frame (pixelAt screen.raster x.toNat y.toNat) (screen.color color)) := by
  rw [vgDrawPixel]
  by_cases hshows : screen.Shows x y
  · rw [if_neg (screen.shows_iff.mp hshows)]
    dsimp only
    rw [screen.index_toNat hshows]
    exact memcpyColor_fill screen color frame (⟨x.toNat, hshows.1⟩, ⟨y.toNat, hshows.2⟩)
  · rw [if_pos (not_not.mp fun h => hshows (screen.shows_iff.mpr h))]
    have hnone : pixelAt screen.raster x.toNat y.toNat = ∅ := by
      refine Set.eq_empty_of_forall_notMem fun p hp => hshows ?_
      exact ⟨hp.1 ▸ p.1.isLt, hp.2 ▸ p.2.isLt⟩
    rw [hnone, Raster.fill_empty]

/-! ## What a rectangle paints -/

/-- The pixels of a rectangle that are on the screen. -/
def pixelsOf (r : Raster) (x y width height : Nat) : Set r.Pixel :=
  {p | x ≤ p.1.val ∧ p.1.val < x + width ∧ y ≤ p.2.val ∧ p.2.val < y + height}

/-- The pixels that {lit}`vg_draw_rectangle_to_buffer` paints: of a rectangle that crosses the
bottom edge, the first column. -/
def painted (r : Raster) (x y width height : Nat) : Set r.Pixel :=
  {p ∈ pixelsOf r x y width height | y + height ≤ r.height ∨ p.1.val = x}

/-- A column with one more pixel. -/
theorem pixelsOf_union_pixelAt (r : Raster) (x y height : Nat) :
    pixelsOf r x y 1 height ∪ pixelAt r x (y + height) = pixelsOf r x y 1 (height + 1) := by
  ext p
  simp only [pixelsOf, pixelAt, Set.mem_union, Set.mem_ofPred_eq]
  omega

/-- A rectangle without columns or rows has no pixels. -/
theorem pixelsOf_of_empty (r : Raster) (x y : Nat) {width height : Nat}
    (h : width = 0 ∨ height = 0) : pixelsOf r x y width height = ∅ := by
  refine Set.eq_empty_of_forall_notMem fun p hp => ?_
  rcases hp with ⟨hleft, hright, htop, hbottom⟩
  omega

/-- Beyond the screen a column has no more pixels. -/
theorem pixelsOf_of_off (r : Raster) {x y height height' : Nat} (hle : height ≤ height')
    (hoff : ¬(x < r.width ∧ y + height < r.height)) :
    pixelsOf r x y 1 height = pixelsOf r x y 1 height' := by
  ext p
  have hcolumn := p.1.isLt
  have hrow := p.2.isLt
  simp only [pixelsOf, Set.mem_ofPred_eq]
  omega

/-- The buffer with the first {lit}`count` pixels of a column painted. -/
noncomputable def columnPainted (screen : Screen) (color : UInt32) (frame : screen.Frame)
    (i y count : Nat) : Memory screen.raster.size :=
  some (Raster.fill frame (pixelsOf screen.raster i y 1 count) (screen.color color))

/-- One iteration of the inner loop paints the next pixel of the column. -/
theorem drawOrReturn_screen (screen : Screen) (color : UInt32) (frame : screen.Frame)
    {i j : UInt16} {y k : Nat} (hj : j.toNat = y + k) :
    drawOrReturn screen.toModeInfo color i j (columnPainted screen color frame i.toNat y k) =
      some (columnPainted screen color frame i.toNat y (k + 1),
        if screen.Shows i j then none else some 1) := by
  rw [drawOrReturn_eq, columnPainted, vgDrawPixel_screen, Raster.fill_fill, hj,
    pixelsOf_union_pixelAt, columnPainted]

/-- The inner loop paints a column as far as the screen goes, and returns at its edge. -/
theorem drawColumn_screen (screen : Screen) {i y height : UInt16}
    (hy : y.toNat + height.toNat ≤ 65535) (color : UInt32) {fuel : Nat}
    (hfuel : height.toNat ≤ fuel) (frame : screen.Frame) :
    drawColumn screen.toModeInfo y height color fuel i (some frame) =
      some (columnPainted screen color frame i.toNat y.toNat height.toNat,
        if height.toNat = 0 ∨ (i.toNat < screen.raster.width ∧
          y.toNat + height.toNat ≤ screen.raster.height) then none else some 1) := by
  let Inv : Nat → Memory screen.raster.size → Prop := fun j memory =>
    memory = columnPainted screen color frame i.toNat y.toNat (j - y.toNat) ∧
      (j ≤ y.toNat ∨ (i.toNat < screen.raster.width ∧ j ≤ screen.raster.height))
  let Exit : Memory screen.raster.size → Int → Prop := fun memory result =>
    memory = columnPainted screen color frame i.toNat y.toNat height.toNat ∧ result = 1 ∧
      ¬(height.toNat = 0 ∨ (i.toNat < screen.raster.width ∧
        y.toNat + height.toNat ≤ screen.raster.height))
  have hstep : ∀ (j : UInt16) (memory : Memory screen.raster.size), y.toNat ≤ j.toNat →
      j.toNat < height.toNat + y.toNat → Inv j.toNat memory →
      (∃ t result, drawOrReturn screen.toModeInfo color i j memory = some (t, some result) ∧
        Exit t result) ∨
        ∃ t, drawOrReturn screen.toModeInfo color i j memory = some (t, none) ∧
          j.toNat + 1 < 65536 ∧ Inv (j.toNat + 1) t := by
    rintro j memory hj hlt ⟨rfl, -⟩
    rw [drawOrReturn_screen screen color frame (by omega)]
    by_cases hshows : screen.Shows i j
    · rw [if_pos hshows]
      refine Or.inr ⟨_, rfl, by omega, by rw [Nat.sub_add_comm hj], Or.inr ?_⟩
      exact hshows
    · have hoff : ¬(i.toNat < screen.raster.width ∧ j.toNat < screen.raster.height) := hshows
      rw [if_neg hshows]
      refine Or.inl ⟨_, 1, rfl, ?_, rfl, by omega⟩
      unfold columnPainted
      rw [pixelsOf_of_off screen.raster (by omega : j.toNat - y.toNat + 1 ≤ height.toNat)
        (by omega)]
  have hstart : Inv y.toNat (some frame) := by
    refine ⟨?_, Or.inl (Nat.le_refl _)⟩
    rw [Nat.sub_self, columnPainted, pixelsOf_of_empty _ _ _ (Or.inr rfl), Raster.fill_empty]
  rcases forUInt16_total Inv Exit hstep (by omega : _ ≤ fuel) hstart with
    ⟨t, result, hrun, ht, rfl, hoff⟩ | ⟨t, hrun, ht, hin⟩
  · rw [drawColumn, hrun, if_neg hoff, ht]
  · rw [drawColumn, hrun, ht, if_pos (by omega)]
    congr 3
    omega

/-- A rectangle with one more column, up to where the function returns. -/
theorem painted_union_column (r : Raster) {x y k height : Nat}
    (h : k = 0 ∨ height = 0 ∨ (x + k ≤ r.width ∧ y + height ≤ r.height)) :
    painted r x y k height ∪ pixelsOf r (x + k) y 1 height = painted r x y (k + 1) height := by
  ext p
  have hrow := p.2.isLt
  simp only [painted, pixelsOf, Set.mem_union, Set.mem_ofPred_eq]
  omega

/-- From the column on at whose edge the function returns, nothing more is painted. -/
theorem painted_of_off (r : Raster) {x y k width height : Nat} (hle : k < width)
    (hoff : ¬(x + k < r.width ∧ y + height ≤ r.height)) :
    painted r x y (k + 1) height = painted r x y width height := by
  ext p
  have hcolumn := p.1.isLt
  simp only [painted, pixelsOf, Set.mem_ofPred_eq]
  omega

/-- What {lit}`vg_draw_rectangle_to_buffer` does to a frame: it writes no byte outside of it,
paints the rectangle as far as the screen goes but no second column of one that crosses the bottom
edge, and returns 0 exactly if all of it is on the screen. -/
theorem vgDrawRectangleToBuffer_screen (screen : Screen) {x y width height : UInt16}
    (hx : x.toNat + width.toNat ≤ 65535) (hy : y.toNat + height.toNat ≤ 65535) (color : UInt32)
    {fuel : Nat} (hfuel : width.toNat + height.toNat ≤ fuel) (frame : screen.Frame) :
    vgDrawRectangleToBuffer screen.toModeInfo x y width height color fuel (some frame) =
      some (some (Raster.fill frame
          (painted screen.raster x.toNat y.toNat width.toNat height.toNat) (screen.color color)),
        if width.toNat = 0 ∨ height.toNat = 0 ∨ (x.toNat + width.toNat ≤ screen.raster.width ∧
          y.toNat + height.toNat ≤ screen.raster.height) then 0 else 1) := by
  let Inv : Nat → Memory screen.raster.size → Prop := fun i memory =>
    memory = some (Raster.fill frame
        (painted screen.raster x.toNat y.toNat (i - x.toNat) height.toNat) (screen.color color)) ∧
      (i ≤ x.toNat ∨ height.toNat = 0 ∨ (i ≤ screen.raster.width ∧
        y.toNat + height.toNat ≤ screen.raster.height))
  let Exit : Memory screen.raster.size → Int → Prop := fun memory result =>
    memory = some (Raster.fill frame
        (painted screen.raster x.toNat y.toNat width.toNat height.toNat) (screen.color color)) ∧
      result = 1 ∧ ¬(width.toNat = 0 ∨ height.toNat = 0 ∨
        (x.toNat + width.toNat ≤ screen.raster.width ∧
          y.toNat + height.toNat ≤ screen.raster.height))
  have hstep : ∀ (i : UInt16) (memory : Memory screen.raster.size), x.toNat ≤ i.toNat →
      i.toNat < width.toNat + x.toNat → Inv i.toNat memory →
      (∃ t result, drawColumn screen.toModeInfo y height color fuel i memory =
          some (t, some result) ∧ Exit t result) ∨
        ∃ t, drawColumn screen.toModeInfo y height color fuel i memory = some (t, none) ∧
          i.toNat + 1 < 65536 ∧ Inv (i.toNat + 1) t := by
    rintro i memory hi hlt ⟨rfl, hshown⟩
    obtain ⟨k, hk⟩ := Nat.exists_eq_add_of_le hi
    have hdiff : i.toNat - x.toNat = k := by omega
    have hsucc : i.toNat + 1 - x.toNat = k + 1 := by omega
    rw [drawColumn_screen screen hy color (by omega), columnPainted, Raster.fill_fill, hdiff, hk,
      painted_union_column screen.raster (by omega)]
    by_cases hcolumn : height.toNat = 0 ∨ (x.toNat + k < screen.raster.width ∧
        y.toNat + height.toNat ≤ screen.raster.height)
    · rw [if_pos hcolumn]
      refine Or.inr ⟨_, rfl, by omega, by rw [← hk, hsucc], by omega⟩
    · rw [if_neg hcolumn, painted_of_off screen.raster (by omega : k < width.toNat) (by omega)]
      exact Or.inl ⟨_, 1, rfl, rfl, rfl, by omega⟩
  have hstart : Inv x.toNat (some frame) := by
    refine ⟨?_, Or.inl (Nat.le_refl _)⟩
    have hnone : painted screen.raster x.toNat y.toNat 0 height.toNat = ∅ := by
      rw [painted, pixelsOf_of_empty _ _ _ (Or.inl rfl)]
      exact Set.sep_empty _
    rw [Nat.sub_self, hnone, Raster.fill_empty]
  rw [vgDrawRectangleToBuffer]
  rcases forUInt16_total Inv Exit hstep (by omega : _ ≤ fuel) hstart with
    ⟨t, result, hrun, rfl, rfl, hoff⟩ | ⟨t, hrun, rfl, hin⟩
  · rw [hrun, if_neg hoff]
    rfl
  · have hdiff : max x.toNat (width.toNat + x.toNat) - x.toNat = width.toNat := by omega
    rw [hrun, hdiff, if_pos (by omega)]
    rfl

/-! ## Clipping -/

/-- The rectangle is clipped to the screen: the function returns, and of the frame exactly the
pixels of the rectangle that are on the screen have the colour, and the others are unchanged. -/
def ClipsRectangle (screen : Screen) (x y width height : UInt16) (color : UInt32)
    (frame : screen.Frame) : Prop :=
  ∃ frame' result,
    Returns (fun fuel => vgDrawRectangleToBuffer screen.toModeInfo x y width height color fuel
      (some frame)) (some frame', result) ∧
    ∀ p : screen.raster.Pixel,
      (p ∈ pixelsOf screen.raster x.toNat y.toNat width.toNat height.toNat →
        Raster.pixel frame' p = screen.color color) ∧
      (p ∉ pixelsOf screen.raster x.toNat y.toNat width.toNat height.toNat →
        Raster.pixel frame' p = Raster.pixel frame p)

/-- A pixel that is skipped and has another colour before has it afterwards. -/
theorem not_clipsRectangle (screen : Screen) {x y width height : UInt16} {color : UInt32}
    {frame : screen.Frame} (hx : x.toNat + width.toNat ≤ 65535)
    (hy : y.toNat + height.toNat ≤ 65535)
    (hbottom : screen.yResolution.toNat < y.toNat + height.toNat) {p : screen.raster.Pixel}
    (hp : p ∈ pixelsOf screen.raster x.toNat y.toNat width.toNat height.toNat)
    (hcolumn : p.1.val ≠ x.toNat) (hpixel : Raster.pixel frame p ≠ screen.color color) :
    ¬ClipsRectangle screen x y width height color frame := by
  rintro ⟨frame', result, hframe', hpixels⟩
  have hreturns : Returns (fun fuel => vgDrawRectangleToBuffer screen.toModeInfo x y width height
      color fuel (some frame)) _ :=
    ⟨_, fun fuel hfuel => vgDrawRectangleToBuffer_screen screen hx hy color hfuel frame⟩
  have hsame := congrArg Prod.fst (hreturns.unique hframe')
  rw [Option.some.injEq] at hsame
  have hskipped : p ∉ painted screen.raster x.toNat y.toNat width.toNat height.toNat := by
    rintro ⟨-, hedge | hfirst⟩
    · exact absurd hedge (Nat.not_le.mpr hbottom)
    · exact hcolumn hfirst
  have hcolor := (hpixels p).1 hp
  rw [← hsame, Raster.pixel_fill_of_not_mem hskipped] at hcolor
  exact hpixel hcolor

/-- For every screen, every frame and every rectangle whose edges are within the range of the
counters, the rectangle is clipped to the screen exactly if it does not cross the bottom edge or
its pixels behind the first column have the colour before. -/
theorem vgDrawRectangleToBuffer_clips_iff (screen : Screen) (x y width height : UInt16)
    (color : UInt32) (frame : screen.Frame) (hx : x.toNat + width.toNat ≤ 65535)
    (hy : y.toNat + height.toNat ≤ 65535) :
    ClipsRectangle screen x y width height color frame ↔
      y.toNat + height.toNat ≤ screen.yResolution.toNat ∨
        ∀ p ∈ pixelsOf screen.raster x.toNat y.toNat width.toNat height.toNat,
          p.1.val ≠ x.toNat → Raster.pixel frame p = screen.color color := by
  constructor
  · intro hclips
    by_contra hnot
    push Not at hnot
    rcases hnot with ⟨hbottom, p, hp, hcolumn, hpixel⟩
    exact not_clipsRectangle screen hx hy hbottom hp hcolumn hpixel hclips
  · intro h
    refine ⟨_, _, ⟨_, fun fuel hfuel => vgDrawRectangleToBuffer_screen screen hx hy color hfuel
      frame⟩, fun p => ⟨fun hp => ?_, fun hp => ?_⟩⟩
    · by_cases hpainted : p ∈ painted screen.raster x.toNat y.toNat width.toNat height.toNat
      · exact Raster.pixel_fill_of_mem hpainted
      · rw [Raster.pixel_fill_of_not_mem hpainted]
        rcases h with hedge | hcolored
        · exact absurd ⟨hp, Or.inl hedge⟩ hpainted
        · exact hcolored p hp fun hfirst => hpainted ⟨hp, Or.inr hfirst⟩
    · exact Raster.pixel_fill_of_not_mem fun hpainted => hp hpainted.1

/-- The mode that the game sets. -/
def gameScreen : Screen where
  xResolution := 1152
  yResolution := 864
  bitsPerPixel := 32
  bytesPerPixel_le := by decide
  frame_lt := by decide

/-- A white square that crosses the right edge of a black screen. -/
theorem vgDrawRectangleToBuffer_clips_right_edge :
    ClipsRectangle gameScreen 1150 10 10 10 0xFFFFFF (fun _ => 0) ↔
      (10 : UInt16).toNat + (10 : UInt16).toNat ≤ gameScreen.yResolution.toNat ∨
        ∀ p ∈ pixelsOf gameScreen.raster (1150 : UInt16).toNat (10 : UInt16).toNat
            (10 : UInt16).toNat (10 : UInt16).toNat,
          p.1.val ≠ (1150 : UInt16).toNat →
            Raster.pixel (fun _ => 0) p = gameScreen.color 0xFFFFFF :=
  vgDrawRectangleToBuffer_clips_iff gameScreen 1150 10 10 10 0xFFFFFF (fun _ => 0) (by decide)
    (by decide)

/-- One that crosses the bottom edge is not painted behind its first column. -/
theorem vgDrawRectangleToBuffer_bottom_edge :
    ¬ClipsRectangle gameScreen 10 860 10 10 0xFFFFFF (fun _ => 0) := by
  have hin : ((⟨11, by decide⟩, ⟨860, by decide⟩) : gameScreen.raster.Pixel) ∈
      pixelsOf gameScreen.raster (10 : UInt16).toNat (860 : UInt16).toNat (10 : UInt16).toNat
        (10 : UInt16).toNat := ⟨by decide, by decide, by decide, by decide⟩
  refine not_clipsRectangle gameScreen (by decide) (by decide) (by decide) hin (by decide) ?_
  intro h
  have hbyte := congrFun h ⟨0, by decide⟩
  exact absurd hbyte (by decide)

end LCOMaze
