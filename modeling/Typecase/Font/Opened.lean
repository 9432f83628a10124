import Typecase.Font.Source

/-!
# Opened fonts

A font that was opened, with its record of the drawings that are ready in a texture.

`OpenFont.draw` makes a glyph from what the face renders. A bitmap glyph is surrounded by
`margin` empty pixels: its rows are laid into a cleared buffer (`paddedRows`). A distance field
glyph is rendered `scale` times larger than asked for; its picture keeps the enlarged bitmap,
while its size and its metrics are already those of the final picture.

Sizes are numbers of thirty-two bits. `OpenFont.draw` forms their sums without checking them
(`word`), so that a rendering too large to have a margin beside it gets a picture that is too small.
`OpenFont.draw?` stops where the program does: at a row that has no place in its picture
(`RowsFit`), and at a sum that does not fit if sums are checked.

The buffer comes from the pool that is handed in, and the pool is handed back.
-/

namespace Typecase

/-- A font that was opened, at the enlargement used for distance fields. -/
structure OpenFont where
  /-- The name that the font is listed under. -/
  name : String
  face : Face
  scale : Nat
  /-- The drawings that are ready. -/
  ready : List GlyphKey

namespace OpenFont

/-- Opens a font. A font without glyphs is refused, and an enlargement of zero counts as one. -/
def ofSource (opener : Opener) (source : FontSource) (scale : Nat) : Except FontError OpenFont :=
  match opener source.data with
  | .error e => .error e
  | .ok face =>
    if face.glyphCount = 0 then .error (.invalid .noGlyphs)
    else .ok ⟨source.name, face, max scale 1, []⟩

/-- The width of a bitmap with its margin. -/
def paddedWidth (r : Rendering) : Nat := word (r.width + 2 * margin)

/-- The height of a bitmap with its margin. -/
def paddedHeight (r : Rendering) : Nat := word (r.rows + 2 * margin)

/-- The number of rows that a bitmap has bytes for, the last of them perhaps not complete. A pitch
of zero is taken as one. -/
def rowsPresent (r : Rendering) (bitmap : Bytes) : Nat :=
  min r.rows ((bitmap.size + (max r.pitch 1 - 1)) / max r.pitch 1)

/-- The rows of a bitmap, cut to the width of the glyph and placed inside the margin. -/
def paddedRows (r : Rendering) (bitmap : Bytes) : List (Strip UInt8) :=
  let pitch := max r.pitch 1
  (List.range (rowsPresent r bitmap)).map fun y =>
    ⟨(y + margin) * paddedWidth r + margin,
      (bitmap.extract (y * pitch) (y * pitch + min r.width pitch)).toList⟩

/-- Every row of a rendering has its place in the picture with the margin. -/
def RowsFit (r : Rendering) : Prop :=
  ∀ bitmap ∈ r.bitmap, ∀ s ∈ paddedRows r bitmap, s.Fits (paddedWidth r * paddedHeight r)

instance (r : Rendering) : Decidable (RowsFit r) :=
  inferInstanceAs (Decidable (∀ bitmap ∈ r.bitmap, _))

/-- The picture of a bitmap with its margin. -/
def paddedPicture (r : Rendering) (p : Pool) : Picture × Pool :=
  match r.bitmap with
  | none => (⟨r.width, r.rows, r.rows, r.pitch, none⟩, p)
  | some bitmap =>
    let (buffer, p) := p.reserve (paddedWidth r * paddedHeight r)
    (⟨paddedWidth r, paddedHeight r, r.rows, r.pitch,
      some (Strip.layAll buffer (paddedRows r bitmap))⟩, p)

/-- The border around an enlarged bitmap, on both sides together. -/
def workBorder (scale : Nat) : Nat := word (2 * scale * margin)

/-- A length of the enlarged picture in final pixels, rounded to whole ones. -/
def finalLength (length scale : Nat) : Nat :=
  (Float32.ofNat (word (length + workBorder scale)) *
    (1 / Float32.ofNat scale)).round.toUInt32.toNat

/-- The picture that keeps an enlarged bitmap, cut or filled up with zeros to its shape. -/
def workPicture (r : Rendering) (scale : Nat) (p : Pool) : Picture × Pool :=
  match r.bitmap with
  | none => (⟨r.width, r.rows, r.rows, r.pitch, none⟩, p)
  | some bitmap =>
    let (buffer, p) := p.reserve (r.rows * r.pitch)
    (⟨finalLength r.pitch scale, finalLength r.rows scale, r.rows, r.pitch,
      some (Strip.lay buffer ⟨0, (bitmap.take (r.rows * r.pitch)).toList⟩)⟩, p)

/-- The metrics of a rendering, scaled to final pixels. -/
def metricsOf (r : Rendering) (factor : Float32) : Metrics :=
  ⟨r.advanceX * factor, r.advanceY * factor, r.inkLeft * factor, r.inkBottom * factor, true⟩

/-- A pixel height as a fixed size: the signed number with the same thirty-two bits. -/
def sizeOfHeight (height : Nat) : Int :=
  if height < 0x80000000 then height else height - 0x100000000

/-- Draws a code point at a pixel height, as a distance field or as a bitmap. The glyph is
marked with font number zero; the caller knows the real one. -/
def draw (f : OpenFont) (code height : Nat) (field : Bool) (p : Pool) : Glyph × Pool :=
  if field then
    let r := f.face.render code (word (height * f.scale))
    let (picture, p) := workPicture r f.scale p
    (⟨metricsOf r (1 / Float32.ofNat f.scale), picture, 0, ⟨code, fieldSize⟩⟩, p)
  else
    let r := f.face.render code height
    let (picture, p) := paddedPicture r p
    (⟨metricsOf r 1, picture, 0, ⟨code, sizeOfHeight height⟩⟩, p)

/-- The sums and products of sizes that are formed when a code point is drawn. -/
def sums (f : OpenFont) (code height : Nat) (field : Bool) : List Nat :=
  if field then
    let r := f.face.render code (word (height * f.scale))
    let border := 2 * f.scale * margin
    height * f.scale ::
      if r.bitmap.isSome then [border, r.pitch + border, r.rows + border] else []
  else
    let r := f.face.render code height
    if r.bitmap.isSome then [r.width + 2 * margin, r.rows + 2 * margin] else []

/-- Draws a code point, unless the program stops at a sum, or at a row of a bitmap that has no place
in the picture. The bitmap of a distance field is cut to its place. -/
def draw? (o : Overflow) (f : OpenFont) (code height : Nat) (field : Bool) (p : Pool) :
    Option (Glyph × Pool) :=
  if o.Admits (f.sums code height field) ∧ (field ∨ RowsFit (f.face.render code height)) then
    some (f.draw code height field p)
  else none

theorem eq_draw_of_draw? {o : Overflow} {f : OpenFont} {code height : Nat} {field : Bool}
    {p : Pool} {out : Glyph × Pool} (h : f.draw? o code height field p = some out) :
    out = f.draw code height field p :=
  (Option.some.inj (Option.ite_none_right_eq_some.mp h).2).symm

/-- Records that a drawing is ready. -/
def markReady (f : OpenFont) (key : GlyphKey) : OpenFont := { f with ready := f.ready.insert key }

/-- Whether a drawing is ready. -/
def isReady (f : OpenFont) (key : GlyphKey) : Bool := key ∈ f.ready

/-- The text that describes a font. -/
def describe (f : OpenFont) : String :=
  "FontFace \x7b name: " ++ Text.quote f.name ++ ", sdf_scale: " ++ toString f.scale ++ ", .. \x7d"

theorem isReady_markReady (f : OpenFont) (key k : GlyphKey) :
    (f.markReady key).isReady k = (k == key || f.isReady k) := by
  by_cases h : k = key <;> simp [isReady, markReady, List.mem_insert_iff, h]

end OpenFont

end Typecase
