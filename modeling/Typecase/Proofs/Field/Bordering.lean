import Typecase.Field.Image
import Typecase.Proofs.Buffer.Rows

/-!
# Bitmaps and their borders

A field image starts as a bitmap with an empty border, and `FieldImage.samples_of_bitmap` says where
each byte of the bitmap goes. Rows, pitch, border and bitmap need not agree: a row counts if the
bitmap has all of it.

**A pitch of zero.** Rows of a bitmap are cut as if a pitch of zero were one, while the image is made
without a column for them. What is left of each row is a single byte, which lands in the border; and
without a border it is lost, which is the only case in which a row lies outside the image.
-/

namespace Typecase.FieldImage

variable {rows pitch border x y : Nat} {bitmap : Bytes}

/-- Row number `y` is one of the rows asked for, and the bitmap has all of it. A pitch of zero is
taken as one. -/
def IsComplete (rows pitch : Nat) (bitmap : Bytes) (y : Nat) : Prop :=
  y < rows ∧ (y + 1) * max pitch 1 ≤ bitmap.size

/-- The samples of row number `y`. -/
private def rowSamples (pitch : Nat) (bitmap : Bytes) (y : Nat) : List Float32 :=
  ((bitmap.extract (y * max pitch 1) ((y + 1) * max pitch 1)).map coverage).toList

/-- The number of complete rows. -/
private def completeRows (rows pitch : Nat) (bitmap : Bytes) : Nat :=
  min rows (bitmap.size / max pitch 1)

private theorem innerRows_eq (rows pitch : Nat) (bitmap : Bytes) (border : Nat) :
    innerRows rows pitch bitmap border =
      Strip.rows (pitch + 2 * border) border border (rowSamples pitch bitmap)
        (completeRows rows pitch bitmap) := rfl

private theorem lt_completeRows_iff :
    y < completeRows rows pitch bitmap ↔ IsComplete rows pitch bitmap y := by
  rw [completeRows, Nat.lt_min, ← Nat.succ_le_iff (n := bitmap.size / max pitch 1),
    Nat.le_div_iff_mul_le (Nat.lt_of_lt_of_le Nat.one_pos (Nat.le_max_right pitch 1))]
  rfl

private theorem length_rowSamples (h : IsComplete rows pitch bitmap y) :
    (rowSamples pitch bitmap y).length = max pitch 1 := by
  rw [rowSamples, Array.length_toList, Array.size_map, Array.size_extract, Nat.min_eq_left h.2,
    Nat.succ_mul, Nat.add_sub_cancel_left]

/-- A complete row has a sample for each of its bytes. -/
private theorem exists_rowSamples (h : IsComplete rows pitch bitmap y) (hx : x < max pitch 1) :
    ∃ b, bitmap[y * max pitch 1 + x]? = some b ∧
      (rowSamples pitch bitmap y)[x]? = some (coverage b) := by
  have hindex : y * max pitch 1 + x < bitmap.size := by
    have hend := h.2
    rw [Nat.succ_mul] at hend
    omega
  have hcount := length_rowSamples h
  rw [rowSamples, Array.length_toList, Array.size_map, Array.size_extract] at hcount
  refine ⟨bitmap[y * max pitch 1 + x], Array.getElem?_eq_getElem hindex, ?_⟩
  rw [rowSamples, Array.getElem?_toList, Array.getElem?_map, Array.getElem?_extract, hcount,
    if_pos hx, Array.getElem?_eq_getElem hindex, Option.map_some]

/-- With a column for them, the rows end within their lines. -/
private theorem rowSamples_le (h : 0 < pitch + border) :
    ∀ y < completeRows rows pitch bitmap,
      border + (rowSamples pitch bitmap y).length ≤ pitch + 2 * border := by
  intro y hy
  rw [length_rowSamples (lt_completeRows_iff.mp hy)]
  omega

/-- No row is lost unless the image has no columns. -/
theorem fits_innerRows_iff :
    (∀ s ∈ innerRows rows pitch bitmap border,
        s.Fits ((pitch + 2 * border) * (rows + 2 * border))) ↔
      0 < pitch ∨ 0 < border ∨ rows = 0 ∨ bitmap.size = 0 := by
  rw [innerRows_eq]
  by_cases hwide : 0 < pitch + border
  · refine iff_of_true (Strip.fits_rows (rowSamples_le hwide) ?_) (by omega)
    have := Nat.min_le_left rows (bitmap.size / max pitch 1)
    rw [completeRows]
    omega
  · obtain ⟨rfl, rfl⟩ : pitch = 0 ∧ border = 0 := by omega
    rw [Strip.rows, List.forall_mem_map]
    constructor
    · intro hfits
      refine .inr (.inr ((Nat.eq_zero_or_pos rows).imp_right fun hrows => ?_))
      refine Nat.eq_zero_of_not_pos fun hsize => ?_
      -- the first row has one byte, for which there is no place
      have hfirst : IsComplete rows 0 bitmap 0 := ⟨hrows, by omega⟩
      have hlost := hfits 0 (List.mem_range.mpr (lt_completeRows_iff.mpr hfirst))
      rw [Strip.Fits, length_rowSamples hfirst] at hlost
      omega
    · intro hnone y hy
      obtain ⟨hrows, hsize⟩ := lt_completeRows_iff.mp (List.mem_range.mp hy)
      rw [Nat.succ_mul] at hsize
      omega

theorem fits_innerRows (h : 0 < pitch) : ∀ s ∈ innerRows rows pitch bitmap border,
    s.Fits ((pitch + 2 * border) * (rows + 2 * border)) := fits_innerRows_iff.mpr (.inl h)

/-- **Where the bytes of a bitmap go.** Whatever rows, pitch, border and bitmap are, the image has
the size of the bitmap and its border, with one sample for each pixel. It shows the coverage of every
byte of every complete row, in its column and line behind the border, and all other samples are
empty. No row lies outside the image, with one exception: of a bitmap without a border, with bytes
but with a pitch of zero.

A pitch of zero is taken as one in the bitmap but not in the image, so that the first byte of each
row, the only one, stands in the border. -/
theorem samples_of_bitmap (rows pitch border : Nat) (bitmap : Bytes) :
    let im := ofBitmap rows pitch bitmap border
    im.width = pitch + 2 * border ∧ im.height = rows + 2 * border ∧
      im.samples.size = im.width * im.height ∧
      ((∀ s ∈ innerRows rows pitch bitmap border, s.Fits im.samples.size) ↔
        0 < pitch ∨ 0 < border ∨ rows = 0 ∨ bitmap.size = 0) ∧
      (∀ y, IsComplete rows pitch bitmap y → ∀ x < max pitch 1, x + border < im.width →
        ∃ b, bitmap[y * max pitch 1 + x]? = some b ∧
          im.samples[(y + border) * im.width + (x + border)]? = some (coverage b)) ∧
      ∀ u < im.width, ∀ v < im.height,
        (∀ y, IsComplete rows pitch bitmap y → ∀ x < max pitch 1,
          ¬(u = x + border ∧ v = y + border)) → im.samples[v * im.width + u]? = some 0 := by
  intro im
  have hsize : im.samples.size = (pitch + 2 * border) * (rows + 2 * border) :=
    size_samples_ofBitmap rows pitch bitmap border
  have hsamples : im.samples = Strip.layAll
      (Array.replicate ((pitch + 2 * border) * (rows + 2 * border)) 0)
      (Strip.rows (pitch + 2 * border) border border (rowSamples pitch bitmap)
        (completeRows rows pitch bitmap)) := rfl
  refine ⟨rfl, rfl, hsize, ?_, fun y hy x hx hcolumn => ?_, fun u hu v hv hout => ?_⟩
  · rw [hsize]
    exact fits_innerRows_iff
  · change x + border < pitch + 2 * border at hcolumn
    change ∃ b, _ ∧ im.samples[(y + border) * (pitch + 2 * border) + (x + border)]? = _
    have hline : y + border < rows + 2 * border := by
      have := hy.1
      omega
    obtain ⟨b, hb, hsample⟩ := exists_rowSamples hy hx
    refine ⟨b, hb, ?_⟩
    rw [hsamples, Strip.getElem?_layAll_rows_of_lt (rowSamples_le (by omega))
      (lt_completeRows_iff.mpr hy) (by rwa [length_rowSamples hy])
      (by rw [Array.size_replicate]; exact index_lt hcolumn hline), hsample]
  · change u < pitch + 2 * border at hu
    change v < rows + 2 * border at hv
    change im.samples[v * (pitch + 2 * border) + u]? = _
    have hindex := index_lt hu hv
    rw [hsamples, Strip.getElem?_layAll_rows_of_forall (rowSamples_le (by omega)) hu
      (by rwa [Array.size_replicate]), Array.getElem?_replicate, if_pos hindex]
    intro y hy x hx
    have hcomplete := lt_completeRows_iff.mp hy
    exact hout y hcomplete x (by rwa [length_rowSamples hcomplete] at hx)

end Typecase.FieldImage
