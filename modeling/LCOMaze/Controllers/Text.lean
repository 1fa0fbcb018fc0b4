import LCOMaze.Controllers.Sprites
import Mathlib.Data.List.Basic

/-!
# Texts

{lit}`draw_text` and {lit}`draw_title` draw one scaled letter after the other.  {lit}`get_xpm` has
sprites for letters, digits and the hyphen only; for any other character it returns {lit}`NULL`.
What {lit}`xpm_load`, which is not part of the program, makes of it is a parameter.

Main results:

- Theorem {lit}`drawXpmXTimesBigger_draws`: a scaled sprite in any colour.
- Theorem {lit}`drawLetters_draws`: a text of such characters is drawn, each letter over the one
  before it.
- Theorem {lit}`drawLetters_isSome_iff`: all other texts fault, if {lit}`xpm_load` does on
  {lit}`NULL`.
- Theorem {lit}`writable_snprintfDecimal`: every number can be drawn.
-/

namespace LCOMaze

open Foundations

variable {n : Nat}

/-! ## The translated drawing -/

/-- A sprite of the font. -/
inductive Glyph where
  | letter (k : Fin 26)
  | number (k : Fin 10)
  | rightArrow
deriving DecidableEq, Repr

/-- {lit}`get_xpm`. -/
def getXpm (letter : Char) : Option Glyph :=
  if letter.isLower then some (.letter (Fin.ofNat 26 (letter.toNat - 97)))
  else if letter.isDigit then some (.number (Fin.ofNat 10 (letter.toNat - 48)))
  else if letter = '-' then some .rightArrow
  else none

/-- What {lit}`xpm_load` makes of the sprites of the font and of {lit}`NULL`; {lean}`none` if it
reads through the pointer. -/
structure Font where
  sprite : Glyph → XpmImage
  null : Option XpmImage

/-- {lit}`xpm_load` on what {lit}`get_xpm` returns. -/
def Font.xpmLoad (font : Font) : Option Glyph → Option XpmImage
  | some glyph => some (font.sprite glyph)
  | none => font.null

/-- The loop of {lit}`draw_title` and of {lit}`draw_text`. -/
def drawLetters (mode : ModeInfo) (font : Font) (times letterWidth gap : UInt16)
    (color : UInt32) : List Char → UInt16 → UInt16 → Memory n → Memory n
  | [], _, _, memory => memory
  | letter :: text, x, y, memory =>
      let lowercaseLetter := letter.toLower
      let memory :=
        if lowercaseLetter = ' ' then memory
        else
          match font.xpmLoad (getXpm lowercaseLetter) with
          | some img => drawXpmXTimesBigger mode img x y times color memory
          | none => none
      drawLetters mode font times letterWidth gap color text (x + letterWidth + gap) y memory

/-- {lit}`draw_title`. -/
def drawTitle (mode : ModeInfo) (font : Font) (text : List Char) (x y : UInt16) :
    Memory n → Memory n :=
  drawLetters mode font 4 20 40 0xFFFFFFFF text x y

/-- {lit}`draw_text`. -/
def drawText (mode : ModeInfo) (font : Font) (text : List Char) (x y : UInt16)
    (color : UInt32) : Memory n → Memory n :=
  drawLetters mode font 2 10 20 color text x y

/-- What {lit}`snprintf` writes for {lit}`"%d"`. -/
def snprintfDecimal (k : Int) : List Char :=
  if k < 0 then '-' :: Nat.toDigits 10 k.natAbs else Nat.toDigits 10 k.natAbs

/-! ## One letter -/

/-- The pixels of a scaled sprite whose corner is at a position, modulo 65536. -/
def scaledOverlay (screen : Screen) (img : XpmImage) (x y times : UInt16) (color : UInt32)
    (p : screen.raster.Pixel) : Option (Fin screen.raster.depth → UInt8) :=
  if h : distance x p.1 < img.width.toNat * times.toNat ∧
      distance y p.2 < img.height.toNat * times.toNat then
    some (screen.color (drawnColor color (img.colorAt
      ⟨distance y p.2 / times.toNat, Nat.div_lt_of_lt_mul (Nat.mul_comm _ times.toNat ▸ h.2)⟩
      ⟨distance x p.1 / times.toNat, Nat.div_lt_of_lt_mul (Nat.mul_comm _ times.toNat ▸ h.1)⟩)))
  else none

/-- The pixels drawn of a sprite in any colour. -/
theorem mem_spriteStrokes_color_iff (screen : Screen) (img : XpmImage) (x y times : UInt16)
    (color : UInt32) (stroke : Set screen.raster.Pixel × (Fin screen.raster.depth → UInt8)) :
    stroke ∈ spriteStrokes screen img x y times color ↔
      ∃ (i : Fin img.height.toNat) (j : Fin img.width.toNat), ∃ k < times.toNat,
        ∃ l < times.toNat, stroke = (pixelAt screen.raster
            (UInt16.ofNat (x.toNat + (j * times.toNat + k))).toNat
            (UInt16.ofNat (y.toNat + (i * times.toNat + l))).toNat,
          screen.color (drawnColor color (img.colorAt i j))) := by
  simp only [spriteStrokes, List.mem_flatMap, List.mem_finRange, true_and, List.mem_range,
    List.mem_singleton, Nat.add_assoc]

/-- For every screen, every sprite, every colour, every factor and every origin such that the
scaled sprite is at most 65536 pixels wide and high, {lit}`draw_xpm_x_times_bigger` leaves the
sprite in that colour on top. -/
theorem drawXpmXTimesBigger_draws (screen : Screen) (img : XpmImage) (x y times : UInt16)
    (color : UInt32) (htimes : 1 ≤ times.toNat)
    (hwidth : img.width.toNat * times.toNat ≤ 65536)
    (hheight : img.height.toNat * times.toNat ≤ 65536) :
    Draws screen (drawXpmXTimesBigger screen.toModeInfo img x y times color)
      (scaledOverlay screen img x y times color) := by
  have hreach : ∀ (p : screen.raster.Pixel) (i : Fin img.height.toNat) (j : Fin img.width.toNat)
      {k l : Nat}, k < times.toNat → l < times.toNat →
      (p ∈ pixelAt screen.raster (UInt16.ofNat (x.toNat + (j * times.toNat + k))).toNat
          (UInt16.ofNat (y.toNat + (i * times.toNat + l))).toNat ↔
        distance x p.1 = j * times.toNat + k ∧ distance y p.2 = i * times.toNat + l) :=
    fun p i j _ _ hk hl => mem_pixelAt_iff screen x y ((mul_add_lt_mul j hk).trans_le hwidth)
      ((mul_add_lt_mul i hl).trans_le hheight) p
  apply (drawXpmXTimesBigger_paints screen img x y times color).draws_overlay
  · intro p stroke hstroke hp
    rcases (mem_spriteStrokes_color_iff screen img x y times color stroke).mp hstroke with
      ⟨i, j, k, hk, l, hl, rfl⟩
    rcases (hreach p i j hk hl).mp hp with ⟨hcolumn, hrow⟩
    rw [scaledOverlay, dif_pos ⟨hcolumn ▸ mul_add_lt_mul j hk, hrow ▸ mul_add_lt_mul i hl⟩]
    exact congrArg (some ∘ screen.color ∘ drawnColor color) (congrArg₂ img.colorAt
      (Fin.ext (div_eq_of_eq_mul_add hl hrow)) (Fin.ext (div_eq_of_eq_mul_add hk hcolumn)))
  · intro p hsome
    unfold scaledOverlay at hsome
    split_ifs at hsome with hin
    · have hk := Nat.mod_lt (distance x p.1) htimes
      have hl := Nat.mod_lt (distance y p.2) htimes
      refine ⟨_, (mem_spriteStrokes_color_iff screen img x y times color _).mpr
        ⟨⟨_, Nat.div_lt_of_lt_mul (Nat.mul_comm _ times.toNat ▸ hin.2)⟩,
          ⟨_, Nat.div_lt_of_lt_mul (Nat.mul_comm _ times.toNat ▸ hin.1)⟩, _, hk, _, hl, rfl⟩, ?_⟩
      rw [hreach p _ _ hk hl]
      exact ⟨(Nat.div_add_mod' _ _).symm, (Nat.div_add_mod' _ _).symm⟩
    · exact absurd rfl hsome

/-! ## Texts -/

/-- {lit}`get_xpm` has sprites for all characters but the spaces. -/
def Writable (text : List Char) : Prop :=
  ∀ letter ∈ text, letter.toLower = ' ' ∨ (getXpm letter.toLower).isSome

instance (text : List Char) : Decidable (Writable text) :=
  List.decidableBAll (fun letter : Char => letter.toLower = ' ' ∨ (getXpm letter.toLower).isSome)
    text

/-- The letters of a text, each over the one before it. -/
def textOverlay (screen : Screen) (font : Font) (times letterWidth gap : UInt16)
    (color : UInt32) : List Char → UInt16 → UInt16 → screen.raster.Pixel →
    Option (Fin screen.raster.depth → UInt8)
  | [], _, _, _ => none
  | letter :: text, x, y, p =>
      (textOverlay screen font times letterWidth gap color text (x + letterWidth + gap) y p).or
        (if letter.toLower = ' ' then none
        else (getXpm letter.toLower).bind fun glyph =>
          scaledOverlay screen (font.sprite glyph) x y times color p)

/-- The sprites of a font are small enough for a factor. -/
def FontFits (font : Font) (times : UInt16) : Prop :=
  ∀ glyph, (font.sprite glyph).width.toNat * times.toNat ≤ 65536 ∧
    (font.sprite glyph).height.toNat * times.toNat ≤ 65536

/-- For every screen, every font that fits, every colour, every position and every text whose
characters have sprites, the text is drawn: no byte outside the frame is written, and of the frame
exactly the pixels of the letters are changed, each letter over the one before it. -/
theorem drawLetters_draws (screen : Screen) {font : Font} {times : UInt16}
    (letterWidth gap : UInt16) (color : UInt32) {text : List Char} (x y : UInt16)
    (htimes : 1 ≤ times.toNat) (hfont : FontFits font times) (htext : Writable text) :
    Draws screen (drawLetters screen.toModeInfo font times letterWidth gap color text x y)
      (textOverlay screen font times letterWidth gap color text x y) := by
  induction text generalizing x with
  | nil => exact Draws.id
  | cons letter text ih =>
      have hrest := ih (x + letterWidth + gap) fun c hc => htext c (List.mem_cons_of_mem _ hc)
      refine hrest.comp ?_
      rcases htext letter List.mem_cons_self with hspace | hglyph
      · simp only [if_pos hspace]
        exact Draws.id
      · rcases Option.isSome_iff_exists.mp hglyph with ⟨glyph, hglyph⟩
        by_cases hspace : letter.toLower = ' '
        · simp only [if_pos hspace]
          exact Draws.id
        · simp only [if_neg hspace, hglyph, Font.xpmLoad]
          exact drawXpmXTimesBigger_draws screen (font.sprite glyph) x y times color htimes
            (hfont glyph).1 (hfont glyph).2

/-- After a fault nothing is defined any more. -/
theorem drawXpmXTimesBigger_none (mode : ModeInfo) (img : XpmImage) (x y times : UInt16)
    (color : UInt32) :
    drawXpmXTimesBigger mode img x y times color (none : Memory n) = none := by
  have hpixel : ∀ (x y : UInt16) (color : UInt32),
      (vgDrawPixel mode x y color (none : Memory n)).1 = none := by
    intro x y color
    unfold vgDrawPixel
    split_ifs
    · rfl
    · exact List.foldl_fixed' (fun _ => rfl) _
  refine List.foldl_fixed' (fun i => ?_) _
  refine List.foldl_fixed' (fun j => ?_) _
  refine List.foldl_fixed' (fun k => ?_) _
  refine List.foldl_fixed' (fun l => ?_) _
  exact hpixel _ _ _

theorem drawLetters_none (mode : ModeInfo) (font : Font)
    (times letterWidth gap : UInt16) (color : UInt32) (text : List Char) (x y : UInt16) :
    drawLetters mode font times letterWidth gap color text x y (none : Memory n) = none := by
  induction text generalizing x with
  | nil => rfl
  | cons letter text ih =>
      have hletter : (if letter.toLower = ' ' then (none : Memory n)
          else match font.xpmLoad (getXpm letter.toLower) with
            | some img => drawXpmXTimesBigger mode img x y times color none
            | none => none) = none := by
        split_ifs
        · rfl
        · cases font.xpmLoad (getXpm letter.toLower) with
          | none => rfl
          | some img => exact drawXpmXTimesBigger_none mode _ _ _ _ _
      rw [drawLetters, hletter]
      exact ih _

/-- If {lit}`xpm_load` reads through {lit}`NULL`, a text is drawn exactly if all of its characters
have sprites. -/
theorem drawLetters_isSome_iff (screen : Screen) {font : Font} {times : UInt16}
    (letterWidth gap : UInt16) (color : UInt32) (text : List Char) (x y : UInt16)
    (htimes : 1 ≤ times.toNat) (hfont : FontFits font times) (hnull : font.null = none)
    (frame : screen.Frame) :
    (drawLetters screen.toModeInfo font times letterWidth gap color text x y
      (some frame)).isSome ↔ Writable text := by
  constructor
  · intro hsome letter hletter
    induction text generalizing x frame with
    | nil => exact absurd hletter List.not_mem_nil
    | cons first text ih =>
        by_cases hspace : first.toLower = ' '
        · rw [drawLetters, if_pos hspace] at hsome
          rcases List.mem_cons.mp hletter with rfl | hmem
          · exact Or.inl hspace
          · exact ih _ frame hsome hmem
        · cases hglyph : getXpm first.toLower with
          | none =>
              rw [drawLetters, if_neg hspace, hglyph, Font.xpmLoad, hnull, drawLetters_none]
                at hsome
              exact absurd hsome Bool.false_ne_true
          | some glyph =>
              rcases drawXpmXTimesBigger_draws screen (font.sprite glyph) x y times color htimes
                (hfont glyph).1 (hfont glyph).2 frame with ⟨frame', hrun, -⟩
              rw [drawLetters, if_neg hspace, hglyph, Font.xpmLoad] at hsome
              simp only [hrun] at hsome
              rcases List.mem_cons.mp hletter with rfl | hmem
              · exact Or.inr (by rw [hglyph]; rfl)
              · exact ih _ frame' hsome hmem
  · intro htext
    rcases drawLetters_draws screen letterWidth gap color x y htimes hfont htext frame with
      ⟨frame', hrun, -⟩
    rw [hrun]
    rfl

/-- A font of two pixels. -/
def pixelFont : Font := ⟨fun _ => ⟨2, 1, fun _ => 0xFFFFFF⟩, none⟩

/-- It fits for titles and texts. -/
theorem pixelFont_fits {times : UInt16} (h : times.toNat ≤ 4) : FontFits pixelFont times := by
  intro glyph
  have hwidth : (pixelFont.sprite glyph).width.toNat = 2 := rfl
  have hheight : (pixelFont.sprite glyph).height.toNat = 1 := rfl
  rw [hwidth, hheight]
  omega

/-- There is no exclamation mark in it. -/
theorem drawLetters_isSome_iff_greeting :
    (drawLetters gameScreen.toModeInfo pixelFont 2 10 20 0xFFFFFFFF "Hi!".toList 65530 10
        (some fun _ => 0 : Memory gameScreen.raster.size)).isSome ↔
      Writable "Hi!".toList :=
  drawLetters_isSome_iff gameScreen 10 20 0xFFFFFFFF _ 65530 10 (by decide)
    (pixelFont_fits (by decide)) rfl _

/-! ## Numbers -/

/-- A digit has a sprite. -/
theorem getXpm_digit {c : Char} (h : c.isDigit = true) : (getXpm c.toLower).isSome := by
  have hlower : c.toLower = c := by
    rw [Char.isDigit, Bool.and_eq_true, decide_eq_true_eq, decide_eq_true_eq] at h
    refine dif_neg fun hupper => ?_
    have hlow : 65 ≤ c.val.toNat := UInt32.le_iff_toNat_le.mp hupper.1
    have hhigh : c.val.toNat ≤ 57 := UInt32.le_iff_toNat_le.mp h.2
    omega
  rw [hlower, getXpm, if_pos h]
  split_ifs <;> rfl

/-- Every number can be drawn, with the hyphen as its sign. -/
theorem writable_snprintfDecimal (k : Int) : Writable (snprintfDecimal k) := by
  have hdigits : ∀ c ∈ Nat.toDigits 10 k.natAbs, c.toLower = ' ' ∨ (getXpm c.toLower).isSome :=
    fun c hc => Or.inr (getXpm_digit (Nat.isDigit_of_mem_toDigits (by decide) (by decide) hc))
  unfold snprintfDecimal
  split_ifs
  · intro c hc
    rcases List.mem_cons.mp hc with rfl | hmem
    · exact Or.inr (by decide)
    · exact hdigits c hmem
  · exact hdigits

example : Writable "Waiting for Player 2".toList := by decide

end LCOMaze
