import Typecase.Proofs.Field.Bordering
import Typecase.Proofs.Field.Reach
import Typecase.Proofs.Field.WholeNumbers

/-!
# Spans of samples

A final pixel of a distance field is the mean over a rectangle of samples, and the rectangle is
found with floating point numbers. `FieldImage.spans_isInside` says that this is safe whatever the
scale is: no rectangle is empty or reaches out of the image, so that every sum is over samples that
exist and no mean divides by zero; and an image keeps one sample for each pixel, however often its
size is changed.

* **Spans.** The two ends of a span are forced into the image, and the second behind the first,
  whatever numbers they were (`isInside_spanBetween`). An image with a pixel has room for both.
* **Distances.** The squared distances are found for every pixel, in floating point as in any other
  arithmetic, as no position of an image lies behind `far` (`IsMeasured.size_signedDistances`).
* **Sizes.** A size is scaled to a number of 32 bits, so that every image that was scaled is
  `IsMeasured`, and can be scaled again (`isMeasured_generate`).
-/

namespace Typecase.FieldImage

variable {im : FieldImage} {limit : Nat}

/-! ### Spans -/

/-- A span of at least one sample, along an axis of `limit` samples. -/
structure IsInside (s : Nat × Nat) (limit : Nat) : Prop where
  lt : s.1 < s.2
  le : s.2 ≤ limit

/-- The span between two places along an axis of `limit` samples, whatever numbers the places are. -/
def spanBetween (first last : Float32) (limit : Nat) : Nat × Nat :=
  let start := min first.toUInt64.toNat (limit - 1)
  (start, clamp last.toUInt64.toNat (start + 1) limit)

theorem span_eq (i : Nat) (step : Float32) (limit : Nat) :
    span i step limit =
      spanBetween (Float32.ofNat i * step) (Float32.ofNat (i + 1) * step).ceil limit := rfl

theorem le_clamp {n low high : Nat} (h : low ≤ high) : low ≤ clamp n low high := by
  rw [clamp]
  split
  · exact le_rfl
  · split <;> omega

theorem clamp_le {n low high : Nat} (h : low ≤ high) : clamp n low high ≤ high := by
  rw [clamp]
  split
  · exact h
  · split <;> omega

theorem isInside_spanBetween (first last : Float32) (h : 0 < limit) :
    IsInside (spanBetween first last limit) limit := by
  have hstart : min first.toUInt64.toNat (limit - 1) + 1 ≤ limit := by omega
  exact ⟨le_clamp hstart, clamp_le hstart⟩

theorem isInside_span (i : Nat) (step : Float32) (h : 0 < limit) :
    IsInside (span i step limit) limit := by
  rw [span_eq]
  exact isInside_spanBetween _ _ h

/-! ### Sizes -/

/-- An image with one sample for each pixel, whose sizes are numbers of 32 bits. -/
structure IsMeasured (im : FieldImage) : Prop where
  width_lt : im.width < 2 ^ 32
  height_lt : im.height < 2 ^ 32
  size : im.samples.size = im.width * im.height

theorem isMeasured_generate (im : FieldImage) (scale : Float32) : (im.generate scale).IsMeasured :=
  ⟨UInt32.toNat_lt _, UInt32.toNat_lt _, size_samples_generate im scale⟩

theorem IsMeasured.foldl_generate (h : im.IsMeasured) (scales : List Float32) :
    (scales.foldl generate im).IsMeasured :=
  List.foldlRecOn scales generate h fun im _ scale _ => isMeasured_generate im scale

theorem size_samples_foldl_generate (h : im.samples.size = im.width * im.height)
    (scales : List Float32) : (scales.foldl generate im).samples.size =
      (scales.foldl generate im).width * (scales.foldl generate im).height :=
  List.foldlRecOn (motive := fun im => im.samples.size = im.width * im.height) scales generate h
    fun im _ scale _ => size_samples_generate im scale

/-- In floating point, every position of a line of an image is in reach. -/
theorem isInReach_float {n : Nat} (h : n ≤ 2 ^ 32) : Envelope.IsInReach Float n :=
  fun _ hq => WholeNumber.not_far_lt_ofNat (by omega)

theorem IsMeasured.size_signedDistances (h : im.IsMeasured) :
    im.signedDistances.size = im.width * im.height := by
  have hreach : Envelope.IsInReach Float (max im.width im.height) :=
    isInReach_float (max_le h.width_lt.le h.height_lt.le)
  have hfeatures (p : Float32 → Bool) : (im.samples.map p).size = im.width * im.height :=
    (Array.size_map ..).trans h.size
  obtain ⟨outside, houtside, hsize⟩ :=
    Envelope.exists_squaredDistances (hfeatures fun v => v ≥ 0.5) hreach
  obtain ⟨inside, hinside, hsize'⟩ :=
    Envelope.exists_squaredDistances (hfeatures fun v => v < 0.5) hreach
  rw [signedDistances, houtside, hinside, Array.size_zipWith, Option.getD_some, Option.getD_some,
    hsize, hsize', Nat.min_self]

/-! ### Pixels -/

/-- Rows of the same length, one behind the other. -/
theorem flatMap_range_rows {α : Type} {width height : Nat} {row : Nat → Array α}
    (hrow : ∀ y < height, (row y).size = width) :
    ((Array.range height).flatMap row).size = height * width ∧
      ∀ x y, x < width → y < height →
        ((Array.range height).flatMap row)[y * width + x]? = (row y)[x]? := by
  induction height with
  | zero => exact ⟨(Nat.zero_mul width).symm, fun x y _ hy => absurd hy (Nat.not_lt_zero y)⟩
  | succ m ih =>
    obtain ⟨hsize, hcell⟩ := ih fun y hy => hrow y (Nat.lt_succ_of_lt hy)
    rw [Array.range_succ, Array.flatMap_append, Array.flatMap_singleton]
    refine ⟨?_, fun x y hx hy => ?_⟩
    · rw [Array.size_append, hsize, hrow m (Nat.lt_succ_self m), Nat.succ_mul]
    · simp only [Array.getElem?_append, hsize, index_lt_iff hx]
      split
      · rename_i hbefore
        exact hcell x y hx hbefore
      · obtain rfl : y = m := by omega
        rw [Nat.add_sub_cancel_left]

/-- The pixels that a change of size gives. -/
theorem getElem?_samples_generate (im : FieldImage) (scale : Float32) {x y : Nat}
    (hx : x < (im.generate scale).width) (hy : y < (im.generate scale).height) :
    (im.generate scale).samples[y * (im.generate scale).width + x]? =
      some (fieldValue (mean im.signedDistances im.width (span x (1 / scale) im.width)
        (span y (1 / scale) im.height) * scale)) := by
  have hrow (y : Nat) : ((Array.range (scaled im.width scale)).map fun x =>
      fieldValue (mean im.signedDistances im.width (span x (1 / scale) im.width)
        (span y (1 / scale) im.height) * scale)).size = scaled im.width scale := by
    rw [Array.size_map, Array.size_range]
  refine ((flatMap_range_rows fun y _ => hrow y).2 x y hx hy).trans ?_
  rw [Array.getElem?_map, Array.getElem?_eq_getElem (by rwa [Array.size_range]),
    Array.getElem_range, Option.map_some]

theorem length_toBytes (im : FieldImage) : im.toBytes.length = im.samples.size := by
  rw [toBytes, Array.length_toList, Array.size_map]

/-- Writing covers as much of a buffer as there are samples for. -/
theorem getElem?_writeTo (im : FieldImage) (buffer : Bytes) (i : Nat) :
    (im.writeTo buffer)[i]? =
      if i < min buffer.size im.samples.size then im.samples[i]?.map toByte else buffer[i]? := by
  have hcovered : Strip.Covers ⟨0, im.toBytes⟩ i ∧ i < buffer.size ↔
      i < min buffer.size im.samples.size := by
    simp only [Strip.Covers, length_toBytes]
    omega
  rw [writeTo, Strip.getElem?_lay, toBytes, Nat.sub_zero, Array.getElem?_toList,
    Array.getElem?_map]
  exact if_congr hcovered rfl rfl

/-- **Spans are inside the image.** Whatever numbers two places along an axis are, also if they are
not finite, the span between them has a sample and ends in the image.

Whatever the scale, a pixel of an image that has changed its size is the mean over the samples of a
span of columns and a span of lines, both inside the image that it was. In each of these lines the
samples asked for exist, and the number of samples is not zero, not even once it is a floating point
number.

An image made of a bitmap has one sample for each pixel, and keeps one for each pixel however often
its size is changed. It can be changed again if its sizes are numbers of 32 bits. Written over a
buffer it covers as many bytes as there are pixels, or as the buffer has, and no others. -/
theorem spans_isInside :
    (∀ limit : Nat, 0 < limit →
      (∀ first last : Float32, IsInside (spanBetween first last limit) limit) ∧
        ∀ (i : Nat) (step : Float32), span i step limit =
          spanBetween (Float32.ofNat i * step) (Float32.ofNat (i + 1) * step).ceil limit) ∧
    (∀ (im : FieldImage) (scale : Float32), im.IsMeasured → 0 < im.width → 0 < im.height →
      im.signedDistances.size = im.width * im.height ∧
      ∀ x y : Nat,
        let xs := span x (1 / scale) im.width
        let ys := span y (1 / scale) im.height
        let count := (ys.2 - ys.1) * (xs.2 - xs.1)
        IsInside xs im.width ∧ IsInside ys im.height ∧
          (∀ line, ys.1 ≤ line → line < ys.2 →
            line * im.width + xs.2 ≤ im.signedDistances.size) ∧
          0 < count ∧ (Float32.ofNat count == 0) = false ∧
          (x < (im.generate scale).width → y < (im.generate scale).height →
            (im.generate scale).samples[y * (im.generate scale).width + x]? =
              some (fieldValue (mean im.signedDistances im.width xs ys * scale)))) ∧
    ∀ (rows pitch border : Nat) (bitmap : Bytes) (scales : List Float32), 0 < pitch →
      let start := ofBitmap rows pitch bitmap border
      let im := scales.foldl generate start
      (∀ s ∈ innerRows rows pitch bitmap border, s.Fits start.samples.size) ∧
        im.samples.size = im.width * im.height ∧
        (start.width < 2 ^ 32 → start.height < 2 ^ 32 → im.IsMeasured) ∧
        ∀ buffer, (im.writeTo buffer).size = buffer.size ∧ ∀ i, (im.writeTo buffer)[i]? =
          if i < min buffer.size (im.width * im.height) then im.samples[i]?.map toByte
          else buffer[i]? := by
  refine ⟨fun limit hlimit => ⟨fun first last => isInside_spanBetween first last hlimit,
    fun i step => span_eq i step limit⟩, fun im scale him hwidth hheight => ?_,
    fun rows pitch border bitmap scales hpitch => ?_⟩
  · refine ⟨him.size_signedDistances, fun x y => ?_⟩
    intro xs ys count
    have hxs : IsInside xs im.width := isInside_span x _ hwidth
    have hys : IsInside ys im.height := isInside_span y _ hheight
    have hcount : 0 < count :=
      Nat.mul_pos (Nat.sub_pos_of_lt hys.lt) (Nat.sub_pos_of_lt hxs.lt)
    refine ⟨hxs, hys, fun line _ hline => ?_, hcount, WholeNumber.ofNat_ne_zero hcount,
      getElem?_samples_generate im scale⟩
    calc
      line * im.width + xs.2 ≤ line * im.width + im.width := Nat.add_le_add_left hxs.le _
      _ = (line + 1) * im.width := (Nat.succ_mul line im.width).symm
      _ ≤ im.height * im.width := Nat.mul_le_mul_right _ (hline.trans_le hys.le)
      _ = im.signedDistances.size := by rw [him.size_signedDistances, Nat.mul_comm]
  · intro start im
    have hstart : start.samples.size = start.width * start.height := size_samples_ofBitmap ..
    have hsize : im.samples.size = im.width * im.height :=
      size_samples_foldl_generate hstart scales
    refine ⟨fun s hs => ?_, hsize,
      fun hwidth hheight => IsMeasured.foldl_generate ⟨hwidth, hheight, hstart⟩ scales,
      fun buffer => ⟨size_writeTo im buffer, fun i => ?_⟩⟩
    · rw [hstart]
      exact fits_innerRows hpitch s hs
    · rw [← hsize]
      exact getElem?_writeTo im buffer i

/-- Places that are no numbers or not finite, one pixel scaled by what is no number, and a bitmap of
two pixels that changes its size three times. -/
theorem spans_isInside_dots :
    let dot : FieldImage := ⟨1, 1, #[1]⟩
    let xs := span 0 (1 / (0 / 0)) 1
    let im := [3, 1 / 4, 0 / 0].foldl generate (ofBitmap 1 2 #[255, 128] 1)
    IsInside (spanBetween (0 / 0) (1 / 0) 3) 3 ∧
      (dot.signedDistances.size = 1 ∧ IsInside xs 1 ∧
        xs.1 * 1 + xs.2 ≤ dot.signedDistances.size ∧
          (Float32.ofNat ((xs.2 - xs.1) * (xs.2 - xs.1)) == 0) = false) ∧
      im.IsMeasured ∧ ∀ buffer, ∀ i < min buffer.size (im.width * im.height),
        (im.writeTo buffer)[i]? = im.samples[i]?.map toByte := by
  intro dot xs im
  obtain ⟨hspan, himage, hbitmap⟩ := spans_isInside
  obtain ⟨hsize, hpixels⟩ :=
    himage dot (0 / 0) ⟨by decide, by decide, rfl⟩ Nat.one_pos Nat.one_pos
  obtain ⟨hxs, -, hrow, -, hcount, -⟩ := hpixels 0 0
  obtain ⟨-, -, hmeasured, hwritten⟩ := hbitmap 1 2 1 #[255, 128] [3, 1 / 4, 0 / 0] Nat.two_pos
  refine ⟨(hspan 3 (by decide)).1 _ _, ⟨hsize, hxs, hrow xs.1 le_rfl hxs.lt, hcount⟩,
    hmeasured (by decide) (by decide), fun buffer i hi => ?_⟩
  rw [(hwritten buffer).2 i, if_pos hi]

end Typecase.FieldImage
