import LCOMaze.Controllers.ScaledSprites

/-!
# Sprites with a transparent colour

{lit}`draw_xpm_at_pos` skips the pixels of a sprite that have the transparent colour and those
beyond the screen.

Main results:

- Definition {lit}`Draws`: a step leaves an overlay on the frame, whatever was there.
- Theorem {lit}`Draws.comp`: one drawing over another.
- Theorem {lit}`drawXpmAtPos_draws`: the drawing is one overlay.
- Theorem {lit}`drawXpmAtPos_pixels`: every pixel of the screen under a visible pixel of the sprite
  has its colour, and the others are unchanged.
-/

namespace LCOMaze

open Foundations

variable {n : Nat}

/-! ## The translated drawing -/

/-- The colour that is not drawn. -/
def transparentColor : UInt32 := 0x00ff00

/-- {lit}`draw_xpm_at_pos`. -/
def drawXpmAtPos (mode : ModeInfo) (img : XpmImage) (x y : UInt16) (memory : Memory n) :
    Memory n :=
  (List.finRange img.height.toNat).foldl (fun memory (i : Fin img.height.toNat) =>
    (List.finRange img.width.toNat).foldl (fun memory (j : Fin img.width.toNat) =>
      if img.colorAt i j ≠ transparentColor then
        (vgDrawPixel mode (UInt16.ofNat (x.toNat + j)) (UInt16.ofNat (y.toNat + i))
          (img.colorAt i j) memory).1
      else memory) memory) memory

/-! ## What is visible -/

/-- The colour of a sprite in column {lit}`u` and row {lit}`v`, if it has one there that is
drawn. -/
def XpmImage.visibleAt (img : XpmImage) (u v : Nat) : Option UInt32 :=
  if h : v < img.height.toNat ∧ u < img.width.toNat then
    let color := img.colorAt ⟨v, h.1⟩ ⟨u, h.2⟩
    if color ≠ transparentColor then some color else none
  else none

/-- The visible pixels of a sprite. -/
theorem XpmImage.visibleAt_eq_some_iff {img : XpmImage} {u v : Nat} {color : UInt32} :
    img.visibleAt u v = some color ↔
      ∃ (i : Fin img.height.toNat) (j : Fin img.width.toNat), i.val = v ∧ j.val = u ∧
        img.colorAt i j = color ∧ color ≠ transparentColor := by
  constructor
  · intro h
    unfold XpmImage.visibleAt at h
    split_ifs at h with hin
    dsimp only at h
    split_ifs at h with hvisible
    rw [Option.some.injEq] at h
    exact ⟨⟨v, hin.1⟩, ⟨u, hin.2⟩, rfl, rfl, h, h ▸ hvisible⟩
  · rintro ⟨i, j, rfl, rfl, hcolor, hvisible⟩
    rw [XpmImage.visibleAt, dif_pos ⟨i.isLt, j.isLt⟩]
    simp only [Fin.eta, hcolor]
    exact if_pos hvisible

/-! ## Exactness -/

/-- What is drawn does not depend on the frame: a step writes no byte outside of it and leaves an
overlay on top.  Where the overlay has a colour the pixels have it, elsewhere they are as before. -/
def Draws (screen : Screen) (step : Memory screen.raster.size → Memory screen.raster.size)
    (overlay : screen.raster.Pixel → Option (Fin screen.raster.depth → UInt8)) : Prop :=
  ∀ frame : screen.Frame, ∃ frame' : screen.Frame, step (some frame) = some frame' ∧
    ∀ p, Raster.pixel frame' p = (overlay p).getD (Raster.pixel frame p)

section

variable {screen : Screen} {step step' : Memory screen.raster.size → Memory screen.raster.size}
  {overlay overlay' : screen.raster.Pixel → Option (Fin screen.raster.depth → UInt8)}
  {strokes : List (Set screen.raster.Pixel × (Fin screen.raster.depth → UInt8))}

/-- An iteration that is skipped under a condition. -/
theorem Paints.ite {c : Prop} [Decidable c] (h : Paints screen step strokes) :
    Paints screen (fun memory => if c then step memory else memory)
      (if c then strokes else []) := by
  intro frame
  by_cases hc : c
  · simp only [if_pos hc]
    exact h frame
  · simp only [if_neg hc]
    rfl

/-- A series of single pixels leaves the last ones on top. -/
theorem Paints.draws (h : Paints screen step strokes) :
    Draws screen step (Raster.overlay strokes) :=
  fun frame => ⟨_, h frame, fun p => Raster.pixel_paint frame strokes p⟩

/-- A series of single pixels that all have the colour of an overlay and cover it. -/
theorem Paints.draws_overlay (h : Paints screen step strokes)
    (hcolor : ∀ p, ∀ stroke ∈ strokes, p ∈ stroke.1 → overlay p = some stroke.2)
    (hreach : ∀ p, overlay p ≠ none → ∃ stroke ∈ strokes, p ∈ stroke.1) :
    Draws screen step overlay :=
  fun frame => ⟨_, h frame, fun p => Raster.pixel_paint_eq_getD frame (hcolor p) (hreach p)⟩

/-- Nothing is drawn. -/
theorem Draws.id : Draws screen (fun memory => memory) fun _ => none :=
  fun frame => ⟨frame, rfl, fun _ => rfl⟩

/-- One drawing over another. -/
theorem Draws.comp (h' : Draws screen step' overlay') (h : Draws screen step overlay) :
    Draws screen (fun memory => step' (step memory)) fun p => (overlay' p).or (overlay p) := by
  intro frame
  rcases h frame with ⟨frame₁, hrun₁, hpixel₁⟩
  rcases h' frame₁ with ⟨frame₂, hrun₂, hpixel₂⟩
  refine ⟨frame₂, (congrArg step' hrun₁).trans hrun₂, fun p => ?_⟩
  rw [hpixel₂ p, hpixel₁ p, Option.getD_or]

/-- Steps that leave the same overlay leave the same frame. -/
theorem Draws.unique (h : Draws screen step overlay) (h' : Draws screen step' overlay)
    (frame : screen.Frame) : step (some frame) = step' (some frame) := by
  rcases h frame with ⟨frame₁, hrun₁, hpixel₁⟩
  rcases h' frame with ⟨frame₂, hrun₂, hpixel₂⟩
  rw [hrun₁, hrun₂, Option.some.injEq]
  exact Raster.ext_pixel fun p => by rw [hpixel₁ p, hpixel₂ p]

end

/-- The pixels drawn, in the order of the loops. -/
noncomputable def visibleStrokes (screen : Screen) (img : XpmImage) (x y : UInt16) :
    List (Set screen.raster.Pixel × (Fin screen.raster.depth → UInt8)) :=
  (List.finRange img.height.toNat).flatMap fun (i : Fin img.height.toNat) =>
    (List.finRange img.width.toNat).flatMap fun (j : Fin img.width.toNat) =>
      if img.colorAt i j ≠ transparentColor then
        [(pixelAt screen.raster (UInt16.ofNat (x.toNat + j)).toNat
          (UInt16.ofNat (y.toNat + i)).toNat, screen.color (img.colorAt i j))]
      else []

/-- The two loops draw single pixels and write no byte outside the frame. -/
theorem drawXpmAtPos_paints (screen : Screen) (img : XpmImage) (x y : UInt16) :
    Paints screen (drawXpmAtPos screen.toModeInfo img x y) (visibleStrokes screen img x y) :=
  Paints.foldl (fun _ => Paints.foldl (fun _ => Paints.ite fun frame =>
    vgDrawPixel_screen screen _ _ _ frame) _) _

/-- The pixels drawn are the visible ones. -/
theorem mem_visibleStrokes_iff (screen : Screen) (img : XpmImage) (x y : UInt16)
    (stroke : Set screen.raster.Pixel × (Fin screen.raster.depth → UInt8)) :
    stroke ∈ visibleStrokes screen img x y ↔
      ∃ u v color, img.visibleAt u v = some color ∧
        stroke = (pixelAt screen.raster (UInt16.ofNat (x.toNat + u)).toNat
          (UInt16.ofNat (y.toNat + v)).toNat, screen.color color) := by
  simp only [visibleStrokes, List.mem_flatMap, List.mem_finRange, true_and,
    XpmImage.visibleAt_eq_some_iff]
  constructor
  · rintro ⟨i, j, hmem⟩
    by_cases hvisible : img.colorAt i j ≠ transparentColor
    · rw [if_pos hvisible] at hmem
      exact ⟨j, i, _, ⟨i, j, rfl, rfl, rfl, hvisible⟩, List.mem_singleton.mp hmem⟩
    · rw [if_neg hvisible] at hmem
      exact absurd hmem List.not_mem_nil
  · rintro ⟨u, v, color, ⟨i, j, rfl, rfl, rfl, hvisible⟩, rfl⟩
    refine ⟨i, j, ?_⟩
    rw [if_pos hvisible]
    exact List.mem_singleton_self _

/-- The visible pixels of a sprite whose corner is at a position, modulo 65536. -/
def spriteOverlay (screen : Screen) (img : XpmImage) (x y : UInt16) (p : screen.raster.Pixel) :
    Option (Fin screen.raster.depth → UInt8) :=
  (img.visibleAt (distance x p.1) (distance y p.2)).map screen.color

/-- The sprite is left on top of the frame. -/
theorem drawXpmAtPos_draws (screen : Screen) (img : XpmImage) (x y : UInt16) :
    Draws screen (drawXpmAtPos screen.toModeInfo img x y) (spriteOverlay screen img x y) := by
  have hreach : ∀ (p : screen.raster.Pixel) {u v : Nat} {color : UInt32},
      img.visibleAt u v = some color →
      (p ∈ pixelAt screen.raster (UInt16.ofNat (x.toNat + u)).toNat
          (UInt16.ofNat (y.toNat + v)).toNat ↔ distance x p.1 = u ∧ distance y p.2 = v) := by
    intro p u v color hvisible
    rcases XpmImage.visibleAt_eq_some_iff.mp hvisible with ⟨i, j, rfl, rfl, -⟩
    exact mem_pixelAt_iff screen x y (j.isLt.trans img.width.toNat_lt)
      (i.isLt.trans img.height.toNat_lt) p
  apply (drawXpmAtPos_paints screen img x y).draws_overlay
  · intro p stroke hstroke hp
    rcases (mem_visibleStrokes_iff screen img x y stroke).mp hstroke with
      ⟨u, v, color, hvisible, rfl⟩
    rcases (hreach p hvisible).mp hp with ⟨rfl, rfl⟩
    exact congrArg (Option.map screen.color) hvisible
  · intro p hsome
    cases hcolor : img.visibleAt (distance x p.1) (distance y p.2) with
    | none =>
        exact absurd (congrArg (Option.map screen.color) hcolor) hsome
    | some color =>
        exact ⟨_, (mem_visibleStrokes_iff screen img x y _).mpr ⟨_, _, _, hcolor, rfl⟩,
          (hreach p hcolor).mpr ⟨rfl, rfl⟩⟩

/-- For every screen, every sprite and every position, also one from which the sprite leaves the
screen or wraps around the 16 bits, and for every frame, {lit}`draw_xpm_at_pos` writes no byte
outside the frame, gives every pixel of the screen on which a visible pixel of the sprite lies its
colour, and leaves all others as they were. -/
theorem drawXpmAtPos_pixels (screen : Screen) (img : XpmImage) (x y : UInt16)
    (frame : screen.Frame) :
    ∃ frame' : screen.Frame,
      drawXpmAtPos screen.toModeInfo img x y (some frame) = some frame' ∧
      ∀ p : screen.raster.Pixel,
        (∀ (i : Fin img.height.toNat) (j : Fin img.width.toNat),
          (x.toNat + j) % 65536 = p.1 → (y.toNat + i) % 65536 = p.2 →
          img.colorAt i j ≠ transparentColor →
            Raster.pixel frame' p = screen.color (img.colorAt i j)) ∧
        ((∀ (i : Fin img.height.toNat) (j : Fin img.width.toNat),
          (x.toNat + j) % 65536 = p.1 → (y.toNat + i) % 65536 = p.2 →
          img.colorAt i j = transparentColor) →
            Raster.pixel frame' p = Raster.pixel frame p) := by
  rcases drawXpmAtPos_draws screen img x y frame with ⟨frame', hrun, hpixel⟩
  have hdistance : ∀ (p : screen.raster.Pixel) (i : Fin img.height.toNat)
      (j : Fin img.width.toNat), ((x.toNat + j) % 65536 = p.1 ∧ (y.toNat + i) % 65536 = p.2) ↔
        distance x p.1 = j ∧ distance y p.2 = i := by
    intro p i j
    rw [← mem_pixelAt_iff screen x y (j.isLt.trans img.width.toNat_lt)
      (i.isLt.trans img.height.toNat_lt) p, UInt16.toNat_ofNat', UInt16.toNat_ofNat']
    exact and_congr eq_comm eq_comm
  refine ⟨frame', hrun, fun p => ⟨fun i j hx hy hvisible => ?_, fun hnone => ?_⟩⟩
  · rcases (hdistance p i j).mp ⟨hx, hy⟩ with ⟨hcolumn, hrow⟩
    have hcolor : img.visibleAt j i = some (img.colorAt i j) :=
      XpmImage.visibleAt_eq_some_iff.mpr ⟨i, j, rfl, rfl, rfl, hvisible⟩
    rw [hpixel, spriteOverlay, hcolumn, hrow, hcolor]
    rfl
  · have hinvisible : img.visibleAt (distance x p.1) (distance y p.2) = none := by
      rw [Option.eq_none_iff_forall_ne_some]
      intro color hcolor
      rcases XpmImage.visibleAt_eq_some_iff.mp hcolor with ⟨i, j, hi, hj, rfl, hvisible⟩
      rcases (hdistance p i j).mpr ⟨hj.symm, hi.symm⟩ with ⟨hx, hy⟩
      exact hvisible (hnone i j hx hy)
    rw [hpixel, spriteOverlay, hinvisible]
    rfl

end LCOMaze
