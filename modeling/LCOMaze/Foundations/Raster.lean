import Mathlib.Data.Set.Insert
import Mathlib.Logic.Equiv.Fin.Basic

/-!
# Pixels in a linear buffer

A picture of {lit}`width` by {lit}`height` pixels of {lit}`depth` bytes each is stored row after
row.  The bytes of the pixels partition the buffer, so a buffer is given by its pixels, and
filling a set of pixels changes no other pixel.

Main results:

- Theorem {lit}`Raster.ext_pixel`: a buffer is given by its pixels.
- Theorem {lit}`Raster.pixel_fill_of_mem`: the pixels filled have the colour.
- Theorem {lit}`Raster.pixel_paint_of_mem`: after a series of fills, a pixel that fills of one
  colour reach has that colour.
- Theorem {lit}`Raster.pixel_paint_of_last`: a pixel has the colour of the last fill that reaches
  it.
-/

namespace Foundations

/-- The dimensions of a picture. -/
structure Raster where
  width : Nat
  height : Nat
  depth : Nat

namespace Raster

variable {r : Raster} {β : Type}

/-- The bytes of the picture. -/
def size (r : Raster) : Nat := r.width * r.height * r.depth

/-- A pixel by its column and its row. -/
abbrev Pixel (r : Raster) := Fin r.width × Fin r.height

/-- The bytes of all pixels, row after row. -/
def address (r : Raster) : r.Pixel × Fin r.depth ≃ Fin r.size :=
  (((Equiv.prodComm _ _).trans finProdFinEquiv).prodCongr (Equiv.refl _)).trans
    (finProdFinEquiv.trans (finCongr (by rw [size, Nat.mul_comm r.height])))

/-- The position of a byte in the buffer. -/
theorem address_val (p : r.Pixel) (k : Fin r.depth) :
    (r.address (p, k)).val = (r.width * p.2 + p.1) * r.depth + k := by
  simp only [address, Equiv.trans_apply, Equiv.prodCongr_apply, Prod.map, Equiv.prodComm_apply,
    finProdFinEquiv_apply_val, finCongr_apply, Fin.val_cast, Equiv.refl_apply, Prod.fst_swap,
    Prod.snd_swap]
  rw [Nat.mul_comm r.depth, Nat.add_comm k.val, Nat.add_comm p.1.val]

/-- The bytes of one pixel. -/
def pixel (buffer : Fin r.size → β) (p : r.Pixel) : Fin r.depth → β :=
  fun k => buffer (r.address (p, k))

/-- A buffer is given by its pixels. -/
theorem ext_pixel {a b : Fin r.size → β} (h : ∀ p, pixel a p = pixel b p) : a = b := by
  funext i
  rw [← r.address.apply_symm_apply i]
  exact congrFun (h _) _

open Classical in
/-- The buffer after a set of pixels was given a colour. -/
noncomputable def fill (buffer : Fin r.size → β) (S : Set r.Pixel) (color : Fin r.depth → β) :
    Fin r.size → β :=
  fun i =>
    let (p, k) := r.address.symm i
    if p ∈ S then color k else buffer i

/-- The pixels filled have the colour, the others are unchanged. -/
theorem pixel_fill_of_mem {buffer : Fin r.size → β} {S : Set r.Pixel} {color : Fin r.depth → β}
    {p : r.Pixel} (h : p ∈ S) : pixel (fill buffer S color) p = color := by
  funext k
  simp [pixel, fill, h]

theorem pixel_fill_of_not_mem {buffer : Fin r.size → β} {S : Set r.Pixel}
    {color : Fin r.depth → β} {p : r.Pixel} (h : p ∉ S) :
    pixel (fill buffer S color) p = pixel buffer p := by
  funext k
  simp [pixel, fill, h]

/-- Filling nothing changes nothing. -/
@[simp]
theorem fill_empty (buffer : Fin r.size → β) (color : Fin r.depth → β) :
    fill buffer ∅ color = buffer :=
  ext_pixel fun _ => pixel_fill_of_not_mem (Set.notMem_empty _)

/-- Filling one set after another with one colour. -/
theorem fill_fill (buffer : Fin r.size → β) (S T : Set r.Pixel) (color : Fin r.depth → β) :
    fill (fill buffer S color) T color = fill buffer (S ∪ T) color := by
  refine ext_pixel fun p => ?_
  by_cases hT : p ∈ T
  · rw [pixel_fill_of_mem hT, pixel_fill_of_mem (Or.inr hT)]
  · rw [pixel_fill_of_not_mem hT]
    by_cases hS : p ∈ S
    · rw [pixel_fill_of_mem hS, pixel_fill_of_mem (Or.inl hS)]
    · rw [pixel_fill_of_not_mem hS, pixel_fill_of_not_mem (not_or.mpr ⟨hS, hT⟩)]

/-! ## Series of fills -/

/-- A series of fills, each of a set with its colour. -/
noncomputable def paint (buffer : Fin r.size → β)
    (strokes : List (Set r.Pixel × (Fin r.depth → β))) : Fin r.size → β :=
  strokes.foldl (fun buffer stroke => fill buffer stroke.1 stroke.2) buffer

/-- One series after another. -/
theorem paint_append (buffer : Fin r.size → β)
    (strokes strokes' : List (Set r.Pixel × (Fin r.depth → β))) :
    paint buffer (strokes ++ strokes') = paint (paint buffer strokes) strokes' :=
  List.foldl_append

/-- A pixel that no stroke reaches is unchanged. -/
theorem pixel_paint_of_not_mem (buffer : Fin r.size → β)
    {strokes : List (Set r.Pixel × (Fin r.depth → β))} {p : r.Pixel}
    (h : ∀ stroke ∈ strokes, p ∉ stroke.1) :
    pixel (paint buffer strokes) p = pixel buffer p := by
  induction strokes generalizing buffer with
  | nil => rfl
  | cons stroke strokes ih =>
      have hrest := ih (fill buffer stroke.1 stroke.2)
        fun stroke' hmem => h stroke' (List.mem_cons_of_mem _ hmem)
      exact hrest.trans (pixel_fill_of_not_mem (h stroke List.mem_cons_self))

/-- A pixel that some stroke reaches, all with one colour, has that colour. -/
theorem pixel_paint_of_mem (buffer : Fin r.size → β)
    {strokes : List (Set r.Pixel × (Fin r.depth → β))} {p : r.Pixel} {color : Fin r.depth → β}
    (h : ∃ stroke ∈ strokes, p ∈ stroke.1)
    (hcolor : ∀ stroke ∈ strokes, p ∈ stroke.1 → stroke.2 = color) :
    pixel (paint buffer strokes) p = color := by
  induction strokes generalizing buffer with
  | nil => exact absurd h (by simp)
  | cons stroke strokes ih =>
      by_cases hrest : ∃ stroke ∈ strokes, p ∈ stroke.1
      · exact ih _ hrest fun stroke' hmem => hcolor stroke' (List.mem_cons_of_mem _ hmem)
      · push Not at hrest
        have hfirst : p ∈ stroke.1 := by
          rcases h with ⟨stroke', hmem, hp⟩
          rcases List.mem_cons.mp hmem with rfl | hmem
          · exact hp
          · exact absurd hp (hrest stroke' hmem)
        have hlast := pixel_paint_of_not_mem (fill buffer stroke.1 stroke.2) hrest
        exact hlast.trans ((pixel_fill_of_mem hfirst).trans
          (hcolor stroke List.mem_cons_self hfirst))

/-- If every stroke that reaches a pixel has the colour of an overlay there, and some stroke does
where the overlay has one, the pixel shows the overlay. -/
theorem pixel_paint_eq_getD (buffer : Fin r.size → β)
    {strokes : List (Set r.Pixel × (Fin r.depth → β))} {p : r.Pixel}
    {overlay : Option (Fin r.depth → β)}
    (hcolor : ∀ stroke ∈ strokes, p ∈ stroke.1 → overlay = some stroke.2)
    (hreach : overlay ≠ none → ∃ stroke ∈ strokes, p ∈ stroke.1) :
    pixel (paint buffer strokes) p = overlay.getD (pixel buffer p) := by
  cases overlay with
  | none =>
      refine pixel_paint_of_not_mem buffer fun stroke hmem hp => ?_
      exact absurd (hcolor stroke hmem hp).symm (Option.some_ne_none _)
  | some color =>
      refine pixel_paint_of_mem buffer (hreach (Option.some_ne_none _)) fun stroke hmem hp => ?_
      exact (Option.some.inj (hcolor stroke hmem hp)).symm

/-- A pixel has the colour of the last stroke that reaches it. -/
theorem pixel_paint_of_last (buffer : Fin r.size → β)
    (before : List (Set r.Pixel × (Fin r.depth → β))) {stroke : Set r.Pixel × (Fin r.depth → β)}
    {after : List (Set r.Pixel × (Fin r.depth → β))} {p : r.Pixel} (h : p ∈ stroke.1)
    (hafter : ∀ stroke' ∈ after, p ∉ stroke'.1) :
    pixel (paint buffer (before ++ stroke :: after)) p = stroke.2 := by
  rw [paint_append]
  exact (pixel_paint_of_not_mem _ hafter).trans (pixel_fill_of_mem h)

open Classical in
/-- What a series of fills leaves on top: the colour of the last stroke that reaches a pixel. -/
noncomputable def overlay : List (Set r.Pixel × (Fin r.depth → β)) → r.Pixel →
    Option (Fin r.depth → β)
  | [], _ => none
  | stroke :: strokes, p => (overlay strokes p).or (if p ∈ stroke.1 then some stroke.2 else none)

/-- After a series of fills, a pixel shows what they leave on top, and else what it was. -/
theorem pixel_paint (buffer : Fin r.size → β) (strokes : List (Set r.Pixel × (Fin r.depth → β)))
    (p : r.Pixel) :
    pixel (paint buffer strokes) p = (overlay strokes p).getD (pixel buffer p) := by
  induction strokes generalizing buffer with
  | nil => rfl
  | cons stroke strokes ih =>
      have hrest := ih (fill buffer stroke.1 stroke.2)
      rw [overlay]
      refine hrest.trans ?_
      cases overlay strokes p with
      | some color => rfl
      | none =>
          by_cases hp : p ∈ stroke.1
          · rw [if_pos hp]
            exact pixel_fill_of_mem hp
          · rw [if_neg hp]
            exact pixel_fill_of_not_mem hp

end Raster

/-! ## The order of two loops -/

section

variable {α : Type}

/-- What follows the round {lit}`i` of a loop belongs to later rounds. -/
theorem flatMap_range_split {bound i : Nat} (hi : i < bound) (f : Nat → List α) :
    ∃ before after, (List.range bound).flatMap f = before ++ f i ++ after ∧
      ∀ a ∈ after, ∃ i', i < i' ∧ i' < bound ∧ a ∈ f i' := by
  rcases Nat.exists_eq_add_of_lt hi with ⟨k, rfl⟩
  refine ⟨(List.range i).flatMap f, ((List.range k).map fun l => i + (l + 1)).flatMap f, ?_, ?_⟩
  · rw [Nat.add_assoc, List.range_add, List.flatMap_append, List.range_succ_eq_map, List.map_cons,
      List.flatMap_cons, List.map_map, List.append_assoc]
    rfl
  · intro a ha
    rcases List.mem_flatMap.mp ha with ⟨i', hmem, hin⟩
    rcases List.mem_map.mp hmem with ⟨l, hl, rfl⟩
    rw [List.mem_range] at hl
    exact ⟨i + (l + 1), by omega, by omega, hin⟩

/-- What follows the round {lit}`j` of the inner loop in the round {lit}`i` of the outer one belongs
to later rounds of one of them. -/
theorem flatMap_flatMap_range_split {rows columns i j : Nat} (hi : i < rows) (hj : j < columns)
    (f : Nat → Nat → List α) :
    ∃ before after,
      ((List.range rows).flatMap fun i => (List.range columns).flatMap (f i)) =
        before ++ f i j ++ after ∧
      ∀ a ∈ after, ∃ i' j', i' < rows ∧ j' < columns ∧ (i < i' ∨ i = i' ∧ j < j') ∧
        a ∈ f i' j' := by
  rcases flatMap_range_split hi fun i => (List.range columns).flatMap (f i) with
    ⟨before, after, houter, hafter⟩
  rcases flatMap_range_split hj (f i) with ⟨before', after', hinner, hafter'⟩
  refine ⟨before ++ before', after' ++ after, ?_, ?_⟩
  · rw [houter, hinner]
    simp only [List.append_assoc]
  · intro a ha
    rcases List.mem_append.mp ha with hin | hout
    · rcases hafter' a hin with ⟨j', hlater, hj', hmem⟩
      exact ⟨i, j', hi, hj', Or.inr ⟨rfl, hlater⟩, hmem⟩
    · rcases hafter a hout with ⟨i', hlater, hi', hmem⟩
      rcases List.mem_flatMap.mp hmem with ⟨j', hj', hmem'⟩
      exact ⟨i', j', hi', List.mem_range.mp hj', Or.inl hlater, hmem'⟩

end

end Foundations
