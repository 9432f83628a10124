import Typecase.Font.Opened
import Typecase.Proofs.Buffer.Rows
import Typecase.Proofs.Buffer.Tidiness

/-!
# Bitmaps inside their margins

What a font renders comes with a width, a number of rows, a pitch and a bitmap, and these need not
agree: rows may be shorter or longer than the pitch, and the bitmap may end early or go on. A byte
`OpenFont.IsShown` if it belongs to one of the rows and to its part inside the width. A picture
`OpenFont.IsPadded` if it shows these bytes behind its margin, each in its own line, and is blank
elsewhere. Such a picture is drawn of every rendering that leaves room for the margin
(`OpenFont.bitmap_inside_margin`).

**Room for the margin.** The sides of a picture are numbers of thirty-two bits. A rendering whose
width or whose number of rows is among the last eight of them has a picture that is too small. Some
of its rows may have a place there by chance, and at the first that has none drawing stops
(`OpenFont.bitmap_without_margin`).

The pool only has to be tidy, which a pool stays whatever is reserved from it and given back to it
(`Pool.IsTidy.reserve`, `Pool.IsTidy.release`): what a buffer was used for before is not seen.
-/

namespace Typecase.OpenFont

variable {r : Rendering} {bitmap : Bytes} {x y : Nat}

/-- The picture of a rendering shows the byte of column `x` and row `y`. A pitch of zero is taken
as one. -/
def IsShown (r : Rendering) (bitmap : Bytes) (x y : Nat) : Prop :=
  y < r.rows ∧ x < min r.width (max r.pitch 1) ∧ y * max r.pitch 1 + x < bitmap.size

/-- The bytes of row number `y` that are shown. -/
private def rowBytes (r : Rendering) (bitmap : Bytes) (y : Nat) : List UInt8 :=
  (bitmap.extract (y * max r.pitch 1)
    (y * max r.pitch 1 + min r.width (max r.pitch 1))).toList

private theorem paddedRows_eq (r : Rendering) (bitmap : Bytes) :
    paddedRows r bitmap =
      Strip.rows (paddedWidth r) margin margin (rowBytes r bitmap) (rowsPresent r bitmap) := rfl

private theorem lt_rowsPresent_iff :
    y < rowsPresent r bitmap ↔ y < r.rows ∧ y * max r.pitch 1 < bitmap.size := by
  have hpitch : 0 < max r.pitch 1 := Nat.lt_of_lt_of_le Nat.one_pos (Nat.le_max_right r.pitch 1)
  rw [rowsPresent, Nat.lt_min, ← Nat.succ_le_iff (m := y) (n := _ / _),
    Nat.le_div_iff_mul_le hpitch, Nat.succ_mul]
  omega

private theorem length_rowBytes (r : Rendering) (bitmap : Bytes) (y : Nat) :
    (rowBytes r bitmap y).length =
      min (min r.width (max r.pitch 1)) (bitmap.size - y * max r.pitch 1) := by
  rw [rowBytes, Array.length_toList, Array.size_extract]
  omega

private theorem isShown_iff :
    IsShown r bitmap x y ↔ y < rowsPresent r bitmap ∧ x < (rowBytes r bitmap y).length := by
  rw [IsShown, lt_rowsPresent_iff, length_rowBytes]
  omega

private theorem getElem?_rowBytes (hx : x < (rowBytes r bitmap y).length) :
    (rowBytes r bitmap y)[x]? = bitmap[y * max r.pitch 1 + x]? := by
  have hcount : x < min (y * max r.pitch 1 + min r.width (max r.pitch 1)) bitmap.size -
      y * max r.pitch 1 := by
    rwa [rowBytes, Array.length_toList, Array.size_extract] at hx
  rw [rowBytes, Array.getElem?_toList, Array.getElem?_extract, if_pos hcount]

private theorem rowBytes_le (hwidth : paddedWidth r = r.width + 2 * margin) :
    ∀ y < rowsPresent r bitmap, margin + (rowBytes r bitmap y).length ≤ paddedWidth r := by
  intro y _
  rw [length_rowBytes, hwidth]
  omega

/-- The picture has the size of a rendering with a margin on all sides, and a byte for each of its
pixels. The byte of column `x` and row `y` stands behind the margin in column `x` and row `y`, if
the row has it inside the width and the bitmap does not end before it, and all other bytes are
zero. -/
structure IsPadded (r : Rendering) (bitmap : Bytes) (picture : Picture) (data : Bytes) : Prop where
  width : picture.width = r.width + 2 * margin
  height : picture.height = r.rows + 2 * margin
  data_eq : picture.data = some data
  size : data.size = picture.width * picture.height
  inside : ∀ x y, IsShown r bitmap x y → ∃ b, bitmap[y * max r.pitch 1 + x]? = some b ∧
    data[(y + margin) * picture.width + (x + margin)]? = some b
  outside : ∀ u < picture.width, ∀ v < picture.height,
    (∀ x y, IsShown r bitmap x y → ¬(u = x + margin ∧ v = y + margin)) →
      data[v * picture.width + u]? = some 0

/-- With room for the margin, every row has its place. -/
theorem rowsFit_of_eq (hwidth : paddedWidth r = r.width + 2 * margin)
    (hheight : paddedHeight r = r.rows + 2 * margin) : RowsFit r := by
  intro bitmap _
  rw [paddedRows_eq]
  refine Strip.fits_rows (rowBytes_le hwidth) ?_
  have hrows : rowsPresent r bitmap ≤ r.rows := Nat.min_le_left ..
  omega

theorem sides_paddedPicture (p : Pool) (hink : r.bitmap = some bitmap) :
    (paddedPicture r p).1.width = paddedWidth r ∧
      (paddedPicture r p).1.height = paddedHeight r := by
  rw [paddedPicture, hink]
  exact ⟨rfl, rfl⟩

theorem exists_isPadded {p : Pool} (hp : p.IsTidy) (hink : r.bitmap = some bitmap)
    (hwidth : paddedWidth r = r.width + 2 * margin)
    (hheight : paddedHeight r = r.rows + 2 * margin) :
    ∃ data, IsPadded r bitmap (paddedPicture r p).1 data := by
  have hpicture : (paddedPicture r p).1 = ⟨paddedWidth r, paddedHeight r, r.rows, r.pitch,
      some (Strip.layAll (Array.replicate (paddedWidth r * paddedHeight r) 0)
        (paddedRows r bitmap))⟩ := by
    rw [paddedPicture, hink]
    simp only [Pool.fst_reserve hp]
  rw [hpicture]
  refine ⟨_, hwidth, hheight, rfl, ?_, fun x y hshown => ?_, fun u hu v hv hout => ?_⟩
  · rw [Strip.size_layAll, Array.size_replicate]
  · obtain ⟨hy, hx⟩ := isShown_iff.mp hshown
    have hcolumn := rowBytes_le hwidth y hy
    have hline : y < r.rows := hshown.1
    obtain ⟨b, hb⟩ : ∃ b, bitmap[y * max r.pitch 1 + x]? = some b :=
      ⟨_, Array.getElem?_eq_getElem hshown.2.2⟩
    refine ⟨b, hb, ?_⟩
    dsimp only
    rw [paddedRows_eq, Strip.getElem?_layAll_rows_of_lt (rowBytes_le hwidth) hy hx
      (by rw [Array.size_replicate]; exact index_lt (by omega) (by omega)), getElem?_rowBytes hx,
      hb]
  · dsimp only at hu hv ⊢
    have hindex := index_lt hu hv
    rw [paddedRows_eq, Strip.getElem?_layAll_rows_of_forall (rowBytes_le hwidth) hu
      (by rwa [Array.size_replicate]), Array.getElem?_replicate, if_pos hindex]
    exact fun y hy x hx => hout x y (isShown_iff.mpr ⟨hy, hx⟩)

/-- The program forms two sums to draw a bitmap. -/
theorem sums_of_bitmap {f : OpenFont} {code height : Nat}
    (hink : (f.face.render code height).bitmap = some bitmap) :
    f.sums code height false = [(f.face.render code height).width + 2 * margin,
      (f.face.render code height).rows + 2 * margin] := by
  simp only [sums, hink, Bool.false_eq_true, ↓reduceIte, Option.isSome_some]

/-- **A bitmap stands inside its margin.** Whatever width, rows, pitch and bitmap a font renders, no
row of the bitmap reaches out of its picture, and the picture shows the bitmap inside a margin, if
and only if width and rows leave room for the margin: with it, both are numbers of thirty-two bits.
Memory for the picture is taken to suffice. -/
theorem bitmap_inside_margin (o : Overflow) (f : OpenFont) (code height : Nat) {p : Pool}
    (hp : p.IsTidy) {bitmap : Bytes} (hink : (f.face.render code height).bitmap = some bitmap) :
    let r := f.face.render code height
    (r.width + 2 * margin < 0x100000000 ∧ r.rows + 2 * margin < 0x100000000) ↔
      ∃ g q data, f.draw? o code height false p = some (g, q) ∧
        IsPadded r bitmap g.picture data := by
  intro r
  constructor
  · rintro ⟨hw, hh⟩
    obtain ⟨data, hdata⟩ := exists_isPadded hp hink (word_of_lt hw) (word_of_lt hh)
    have hsums : o.Admits (f.sums code height false) := by
      rw [sums_of_bitmap hink]
      exact fun _ => List.forall_mem_cons.mpr ⟨hw, List.forall_mem_singleton.mpr hh⟩
    refine ⟨(f.draw code height false p).1, (f.draw code height false p).2, data, ?_, hdata⟩
    rw [draw?, if_pos ⟨hsums, .inr (rowsFit_of_eq (word_of_lt hw) (word_of_lt hh))⟩]
  · rintro ⟨g, q, data, hdraw, hdata⟩
    obtain rfl : g = (f.draw code height false p).1 := congrArg Prod.fst (eq_draw_of_draw? hdraw)
    -- the sides that were wrapped around are the whole sums only if these fit
    obtain ⟨hwidth, hheight⟩ := sides_paddedPicture p hink
    exact ⟨word_eq_self_iff.mp (hwidth.symm.trans hdata.width),
      word_eq_self_iff.mp (hheight.symm.trans hdata.height)⟩

/-- A rendering whose rows are shorter than its width and whose bitmap ends early, in a buffer that
was used before. -/
theorem bitmap_inside_margin_of_short_rows :
    let r : Rendering := ⟨3, 2, 2, some #[1, 2, 3], 0, 0, 0, 0⟩
    let f : OpenFont := ⟨"short", { Face.empty with render := fun _ _ => r }, 4, []⟩
    let p := Pool.empty.release (Array.replicate 110 255)
    p.IsTidy ∧ (f.face.render 65 12).bitmap = some #[1, 2, 3] ∧
      ∃ g q data, f.draw? .stops 65 12 false p = some (g, q) ∧ g.picture.data = some data ∧
        data.size = 110 ∧ data[5 * 11 + 4]? = some 3 ∧ data[5 * 11 + 5]? = some 0 ∧
        data[4 * 11 + 6]? = some 0 := by
  intro r f p
  have hp : p.IsTidy := Pool.isTidy_empty.release _
  have hink : (f.face.render 65 12).bitmap = some #[1, 2, 3] := rfl
  obtain ⟨g, q, data, hdraw, hdata⟩ :=
    (bitmap_inside_margin .stops f 65 12 hp hink).mp ⟨by decide, by decide⟩
  have hwidth : g.picture.width = 11 := hdata.width
  have hheight : g.picture.height = 10 := hdata.height
  have hnone {u v : Nat} (hu : u < 11) (hv : v < 10)
      (hout : ∀ x y, IsShown r #[1, 2, 3] x y → ¬(u = x + 4 ∧ v = y + 4)) :
      data[v * 11 + u]? = some 0 :=
    hwidth ▸ hdata.outside u (hwidth ▸ hu) v (hheight ▸ hv) hout
  obtain ⟨b, hb, hlast⟩ := hdata.inside 0 1 ⟨by decide, by decide, by decide⟩
  obtain rfl : 3 = b := Option.some.inj hb
  refine ⟨hp, hink, g, q, data, hdraw, hdata.data_eq, hdata.size.trans (by rw [hwidth, hheight]),
    hwidth ▸ hlast, hnone (u := 5) (v := 5) (by decide) (by decide) ?_,
    hnone (u := 6) (v := 4) (by decide) (by decide) ?_⟩
  · rintro x y ⟨-, -, hx⟩ ⟨hu, hv⟩
    change y * 2 + x < 3 at hx
    omega
  · rintro x y ⟨-, hx, -⟩ ⟨hu, hv⟩
    change x < 2 at hx
    omega

/-- A rendering that is as wide as a number of thirty-two bits can be. A row of sixty-four bytes has
no place in the picture, and drawing stops, whether sums are checked or not. For a row of one byte
there is a place, but the picture is seven pixels wide. -/
theorem bitmap_without_margin :
    let r (n : Nat) : Rendering := ⟨0xFFFFFFFF, 1, n, some (Array.replicate n 255), 0, 0, 0, 0⟩
    let f (n : Nat) : OpenFont := ⟨"wide", { Face.empty with render := fun _ _ => r n }, 4, []⟩
    (∀ o, (f 64).draw? o 65 12 false .empty = none) ∧
      ∃ g q, (f 1).draw? .wraps 65 12 false .empty = some (g, q) ∧ g.picture.width = 7 ∧
        g.picture.height = 9 ∧ g.picture.width ≠ (r 1).width + 2 * margin := by
  intro r f
  have hstop : ¬RowsFit (r 64) := by decide
  have hfit : RowsFit (r 1) := by decide
  have hwidth : paddedWidth (r 1) = 7 := by decide
  have hheight : paddedHeight (r 1) = 9 := by decide
  refine ⟨fun o => if_neg fun h => hstop (h.2.resolve_left (by decide)),
    ((f 1).draw 65 12 false .empty).1, ((f 1).draw 65 12 false .empty).2,
    if_pos ⟨fun h => absurd h (by decide), .inr hfit⟩, hwidth, hheight,
    fun h => absurd (hwidth.symm.trans h) (by decide)⟩

end Typecase.OpenFont
