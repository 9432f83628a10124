import Typecase.Buffer.Strip
import Typecase.Field.Distance
import Typecase.Glyph

/-!
# Distance field pictures

A `FieldImage` starts as a coverage bitmap with an empty border. `generate` replaces it by a
distance field and changes its size in one go: the bitmap is divided at half coverage, the
signed distance to the outline is taken at every sample, and each final pixel is the mean over
the samples it covers. A value of one half lies on the outline, larger values lie inside, and
the range from zero to one spans `margin` final pixels on either side.

All arithmetic on samples is in single precision except the distances themselves.
-/

namespace Typecase

/-- A picture with one single-precision sample per pixel, row by row. -/
structure FieldImage where
  width : Nat
  height : Nat
  samples : Array Float32

namespace FieldImage

/-- The sample of a coverage byte. -/
def coverage (b : UInt8) : Float32 := Float32.ofNat b.toNat / 255

/-- The complete rows of a bitmap, at most `rows` of them, placed behind the border in a picture
`width` samples wide. A pitch of zero is taken as one. -/
def rowsWithin (width rows pitch : Nat) (bitmap : Bytes) (border : Nat) : List (Strip Float32) :=
  let step := max pitch 1
  let complete := min rows (bitmap.size / step)
  (List.range complete).map fun y =>
    ⟨(y + border) * width + border,
      ((bitmap.extract (y * step) ((y + 1) * step)).map coverage).toList⟩

/-- A picture of some width and height with a coverage bitmap behind the border. -/
def ofBitmapWithin (width height rows pitch : Nat) (bitmap : Bytes) (border : Nat) : FieldImage :=
  ⟨width, height,
    Strip.layAll (Array.replicate (width * height) 0) (rowsWithin width rows pitch bitmap border)⟩

/-- The complete rows of a bitmap inside a border of its own. -/
def innerRows (rows pitch : Nat) (bitmap : Bytes) (border : Nat) : List (Strip Float32) :=
  rowsWithin (pitch + 2 * border) rows pitch bitmap border

/-- A coverage bitmap of `rows` rows of `pitch` bytes with an empty border on every side. Its sides
are taken to fit into numbers of thirty-two bits. -/
def ofBitmap (rows pitch : Nat) (bitmap : Bytes) (border : Nat) : FieldImage :=
  ofBitmapWithin (pitch + 2 * border) (rows + 2 * border) rows pitch bitmap border

/-- A size scaled and rounded to whole pixels, a half away from zero. -/
def scaled (size : Nat) (scale : Float32) : Nat :=
  (Float32.ofNat size * scale).round.toUInt32.toNat

/-- The last value between `low` and `high` that is not past `n`. -/
def clamp (n low high : Nat) : Nat := if n < low then low else if high < n then high else n

/-- The samples that final pixel number `i` covers along one axis of `limit` samples: the first
one, and the one behind the last. There is always at least one. -/
def span (i : Nat) (step : Float32) (limit : Nat) : Nat × Nat :=
  let start := min (Float32.ofNat i * step).toUInt64.toNat (limit - 1)
  (start, clamp (Float32.ofNat (i + 1) * step).ceil.toUInt64.toNat (start + 1) limit)

/-- The signed distance from each sample to the outline, negative inside. -/
def signedDistances (im : FieldImage) : Array Float32 :=
  let outside : Option (Array Float) :=
    Envelope.squaredDistances im.width im.height (im.samples.map fun v => v ≥ 0.5)
  let inside : Option (Array Float) :=
    Envelope.squaredDistances im.width im.height (im.samples.map fun v => v < 0.5)
  Array.zipWith (fun o i => (o.sqrt - i.sqrt).toFloat32) (outside.getD #[]) (inside.getD #[])

/-- The mean of the samples in a rectangle: columns `xs.1` to `xs.2`, rows `ys.1` to `ys.2`, the
last of each left out. Rows are summed one by one. -/
def mean (samples : Array Float32) (width : Nat) (xs ys : Nat × Nat) : Float32 :=
  let sum := (List.range' ys.1 (ys.2 - ys.1)).foldl (fun sum y =>
    sum + (samples.extract (y * width + xs.1) (y * width + xs.2)).foldl (· + ·) 0) 0
  sum / Float32.ofNat ((ys.2 - ys.1) * (xs.2 - xs.1))

/-- The value of a field at a distance from the outline, in final pixels. -/
def fieldValue (distance : Float32) : Float32 :=
  let v := 0.5 - distance / Float32.ofNat (2 * margin)
  if v < 0 then 0 else if 1 < v then 1 else v

/-- Replaces the coverage by a distance field, its size changed by `scale`. -/
def generate (im : FieldImage) (scale : Float32) : FieldImage :=
  let signed := im.signedDistances
  let width := scaled im.width scale
  let height := scaled im.height scale
  let step := 1 / scale
  ⟨width, height, (Array.range height).flatMap fun y =>
    (Array.range width).map fun x =>
      fieldValue (mean signed im.width (span x step im.width) (span y step im.height) * scale)⟩

/-- The byte of a sample, rounded to the nearest. -/
def toByte (v : Float32) : UInt8 := (v * 255).round.toUInt8

/-- The picture as bytes. -/
def toBytes (im : FieldImage) : List UInt8 := (im.samples.map toByte).toList

/-- Writes the picture over the start of a buffer. -/
def writeTo (im : FieldImage) (buffer : Bytes) : Bytes := Strip.lay buffer ⟨0, im.toBytes⟩

@[simp] theorem size_writeTo (im : FieldImage) (buffer : Bytes) :
    (im.writeTo buffer).size = buffer.size := Strip.size_lay _ _

theorem size_samples_ofBitmapWithin (width height rows pitch : Nat) (bitmap : Bytes)
    (border : Nat) :
    (ofBitmapWithin width height rows pitch bitmap border).samples.size = width * height := by
  simp [ofBitmapWithin]

theorem size_samples_ofBitmap (rows pitch : Nat) (bitmap : Bytes) (border : Nat) :
    (ofBitmap rows pitch bitmap border).samples.size =
      (ofBitmap rows pitch bitmap border).width * (ofBitmap rows pitch bitmap border).height :=
  size_samples_ofBitmapWithin _ _ rows pitch bitmap border

theorem size_samples_generate (im : FieldImage) (scale : Float32) :
    (im.generate scale).samples.size = (im.generate scale).width * (im.generate scale).height := by
  simp only [generate, Array.size_flatMap, Array.size_map, Array.size_range, Array.map_const',
    Array.sum_replicate_nat]
  exact Nat.mul_comm _ _

/-- Behind its last sample, a picture leaves a buffer as it is. -/
theorem getElem?_writeTo_of_le (im : FieldImage) (buffer : Bytes) {i : Nat}
    (h : im.samples.size ≤ i) : (im.writeTo buffer)[i]? = buffer[i]? := by
  rw [writeTo, Strip.getElem?_lay, if_neg]
  rintro ⟨⟨-, hi⟩, -⟩
  simp only [toBytes, Array.length_toList, Array.size_map] at hi
  omega

end FieldImage

end Typecase
