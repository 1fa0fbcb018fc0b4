import LCOMaze.Controllers.Graphics
import Mathlib.Data.List.Basic

/-!
# Whole buffers

{lit}`clear` and {lit}`swap` run over all bytes of a buffer, the loop of
{lit}`game_draw_fov_circle` copies single pixels from one buffer to another.

Main results:

- Theorem {lit}`storeBytes_eq`: what a series of bytes leaves in a buffer.
- Theorem {lit}`clear_screen`: {lit}`clear` leaves a black picture, whatever was there.
- Theorem {lit}`swap_screen`: {lit}`swap` leaves the picture of the back buffer.
- Theorem {lit}`copyPixel_screen`: copying a pixel fills it with what it is in the other buffer.
-/

namespace LCOMaze

open Foundations

variable {n : Nat}

/-! ## The translated operations -/

/-- Write bytes one after the other. -/
def storeBytes (byte : Nat → UInt8) (address count : Nat) (memory : Memory n) : Memory n :=
  (List.range count).foldl (fun memory k => storeByte (address + k) (byte k) memory) memory

/-- Read one byte. -/
def loadByte (address : Nat) (memory : Memory n) : Option UInt8 :=
  memory.bind fun buffer => if h : address < n then some (buffer ⟨address, h⟩) else none

/-- {lit}`clear`. -/
def clear (mode : ModeInfo) (memory : Memory n) : Memory n :=
  storeBytes (fun _ => 0) 0 mode.frameSize.toNat memory

/-- {lit}`memcpy` between buffers, at the same address. -/
def copyBytes (source : Memory n) (address count : Nat) (memory : Memory n) : Memory n :=
  (List.range count).foldl (fun memory k =>
    (loadByte (address + k) source).bind fun byte => storeByte (address + k) byte memory) memory

/-- {lit}`swap`: the contents of {lit}`frame_buffer` afterwards. -/
def swap (mode : ModeInfo) (backBuffer frameBuffer : Memory n) : Memory n :=
  copyBytes backBuffer 0 mode.frameSize.toNat frameBuffer

/-- The body of the loops of {lit}`game_draw_fov_circle`: copy one pixel. -/
def copyPixel (mode : ModeInfo) (source : Memory n) (x y : Nat) (memory : Memory n) : Memory n :=
  let index := (mode.xResolution.toUInt32 * UInt32.ofNat y + UInt32.ofNat x) * mode.bytesPerPixel
  if index < mode.frameSize then copyBytes source index.toNat mode.bytesPerPixel.toNat memory
  else memory

/-! ## Series of bytes -/

/-- What a series of bytes leaves in a buffer that has room for them. -/
theorem storeBytes_eq (byte : Nat → UInt8) (buffer : Fin n → UInt8) {address : Nat} :
    ∀ {count : Nat}, address + count ≤ n → storeBytes byte address count (some buffer) =
      some fun i => if address ≤ i.val ∧ i.val < address + count then byte (i.val - address)
        else buffer i := by
  intro count
  induction count with
  | zero =>
      intro _
      simp only [storeBytes, List.range_zero, List.foldl_nil, Option.some.injEq]
      funext i
      rw [if_neg (by omega)]
  | succ count ih =>
      intro hroom
      have hlt : address + count < n := by omega
      have hprefix := ih (by omega)
      unfold storeBytes at hprefix ⊢
      rw [List.range_succ, List.foldl_append, hprefix]
      simp only [List.foldl_cons, List.foldl_nil, storeByte, Option.bind_some, dif_pos hlt,
        Option.some.injEq]
      funext i
      by_cases hlast : i = ⟨address + count, hlt⟩
      · subst hlast
        have hval : (⟨address + count, hlt⟩ : Fin n).val = address + count := rfl
        rw [Function.update_self, hval, if_pos (by omega), Nat.add_sub_cancel_left]
      · have hne : i.val ≠ address + count := fun h => hlast (Fin.ext h)
        rw [Function.update_of_ne hlast]
        refine if_congr ?_ rfl rfl
        omega

/-- Copying bytes that the source has is writing them. -/
theorem copyBytes_eq (source : Fin n → UInt8) {address count : Nat} (hroom : address + count ≤ n)
    (memory : Memory n) :
    copyBytes (some source) address count memory =
      storeBytes (fun k => if h : address + k < n then source ⟨address + k, h⟩ else 0) address
        count memory := by
  refine List.foldl_ext _ _ _ fun memory k hk => ?_
  have hlt : address + k < n := by
    rw [List.mem_range] at hk
    omega
  rw [loadByte, Option.bind_some, dif_pos hlt, Option.bind_some]
  dsimp only
  rw [dif_pos hlt]

/-! ## Whole pictures -/

/-- The picture without any colour. -/
def Screen.black (screen : Screen) : screen.Frame := fun _ => 0

/-- Whatever a buffer holds, {lit}`clear` leaves a black picture. -/
theorem clear_screen (screen : Screen) (frame : screen.Frame) :
    clear screen.toModeInfo (some frame) = some screen.black := by
  rw [clear, screen.frameSize_toNat, storeBytes_eq _ _ (by omega), Option.some.injEq]
  funext i
  exact if_pos ⟨Nat.zero_le _, by rw [Nat.zero_add]; exact i.isLt⟩

/-- Whatever the frame buffer holds, {lit}`swap` leaves the picture of the back buffer in it. -/
theorem swap_screen (screen : Screen) (backBuffer frameBuffer : screen.Frame) :
    swap screen.toModeInfo (some backBuffer) (some frameBuffer) = some backBuffer := by
  rw [swap, screen.frameSize_toNat, copyBytes_eq _ (by omega), storeBytes_eq _ _ (by omega),
    Option.some.injEq]
  funext i
  have hi := i.isLt
  rw [if_pos ⟨Nat.zero_le _, by omega⟩, dif_pos (by omega)]
  congr 1
  exact Fin.ext (by dsimp only; omega)

/-! ## Single pixels -/

/-- Any four bytes are those of a colour. -/
theorem exists_colorByte (byte : Nat → UInt8) :
    ∃ color, ∀ k < 4, colorByte color k = byte k := by
  have h₀ := (byte 0).toNat_lt
  have h₁ := (byte 1).toNat_lt
  have h₂ := (byte 2).toNat_lt
  have h₃ := (byte 3).toNat_lt
  refine ⟨UInt32.ofNat ((byte 0).toNat + 256 * (byte 1).toNat + 65536 * (byte 2).toNat +
    16777216 * (byte 3).toNat), fun k hk => UInt8.toNat_inj.mp ?_⟩
  rw [colorByte, UInt8.toNat_ofNat', UInt32.toNat_ofNat']
  rcases (by omega : k = 0 ∨ k = 1 ∨ k = 2 ∨ k = 3) with rfl | rfl | rfl | rfl <;> omega

/-- A pixel lies in the buffer. -/
theorem Screen.index_add_le (screen : Screen) (p : screen.raster.Pixel) :
    (screen.raster.width * p.2 + p.1) * screen.raster.depth + screen.raster.depth ≤
      screen.raster.size := by
  have hrow : screen.raster.width * p.2 + p.1 + 1 ≤ screen.raster.width * screen.raster.height := by
    calc screen.raster.width * p.2 + p.1 + 1
        ≤ screen.raster.width * (p.2 + 1) := by
          rw [Nat.mul_succ]
          exact Nat.add_lt_add_left p.1.isLt _
      _ ≤ screen.raster.width * screen.raster.height := Nat.mul_le_mul_left _ p.2.isLt
  rw [← Nat.succ_mul]
  exact Nat.mul_le_mul_right _ hrow

/-- Copying the bytes of a pixel fills it with what it is in the other buffer. -/
theorem copyBytes_fill (screen : Screen) (source frame : screen.Frame)
    (p : screen.raster.Pixel) :
    copyBytes (some source) ((screen.raster.width * p.2 + p.1) * screen.raster.depth)
        screen.raster.depth (some frame) =
      some (Raster.fill frame (pixelAt screen.raster p.1 p.2) (Raster.pixel source p)) := by
  rcases exists_colorByte fun k =>
    if h : (screen.raster.width * p.2 + p.1) * screen.raster.depth + k < screen.raster.size then
      source ⟨_, h⟩ else 0 with ⟨color, hbytes⟩
  have hcolor : screen.color color = Raster.pixel source p := by
    funext k
    have haddress := screen.raster.address_val p k
    rw [Screen.color, hbytes k (k.isLt.trans_le screen.bytesPerPixel_le),
      dif_pos (haddress ▸ (screen.raster.address (p, k)).isLt), Raster.pixel]
    exact congrArg source (Fin.ext haddress.symm)
  rw [copyBytes_eq source (screen.index_add_le p), ← hcolor, ← memcpyColor_fill]
  refine List.foldl_ext _ _ _ fun memory k hk => ?_
  rw [hbytes k ((List.mem_range.mp hk).trans_le screen.bytesPerPixel_le)]

/-- On a frame, the body of the loops fills a pixel of the screen with what it is in the other
buffer. -/
theorem copyPixel_screen (screen : Screen) (source frame : screen.Frame)
    (p : screen.raster.Pixel) :
    copyPixel screen.toModeInfo (some source) p.1 p.2 (some frame) =
      some (Raster.fill frame (pixelAt screen.raster p.1 p.2) (Raster.pixel source p)) := by
  have hx : p.1.val < screen.xResolution.toNat := p.1.isLt
  have hy : p.2.val < screen.yResolution.toNat := p.2.isLt
  have hx' := screen.xResolution.toNat_lt
  have hy' := screen.yResolution.toNat_lt
  have hcolumn : (UInt16.ofNat p.1).toNat = p.1 := by
    rw [UInt16.toNat_ofNat']
    omega
  have hrow : (UInt16.ofNat p.2).toNat = p.2 := by
    rw [UInt16.toNat_ofNat']
    omega
  have hwiden : ∀ k < 65536, UInt32.ofNat k = (UInt16.ofNat k).toUInt32 := by
    intro k hk
    refine UInt32.toNat_inj.mp ?_
    rw [UInt32.toNat_ofNat', UInt16.toNat_toUInt32, UInt16.toNat_ofNat']
    omega
  have hshows : screen.Shows (UInt16.ofNat p.1) (UInt16.ofNat p.2) := by
    rw [ModeInfo.Shows, hcolumn, hrow]
    exact ⟨hx, hy⟩
  have hindex := screen.index_toNat hshows
  rw [hcolumn, hrow] at hindex
  have hroom := screen.index_add_le p
  have hframe := screen.frameSize_toNat
  rw [copyPixel, hwiden p.1 (by omega), hwiden p.2 (by omega)]
  split_ifs with hlt
  · rw [hindex]
    exact copyBytes_fill screen source frame p
  · -- only pixels without bytes are left out
    have hdepth : screen.raster.depth = 0 := by
      rw [UInt32.lt_iff_toNat_lt, hindex, hframe] at hlt
      omega
    rw [Option.some.injEq]
    refine Raster.ext_pixel fun q => funext fun k => ?_
    exact absurd k.isLt (by omega)

end LCOMaze
