import Typecase.Atlas.Shelf
import Typecase.Buffer.Strip

/-!
# Texture devices

The side that keeps the texels. A `Device` is told to make textures, to write rows of bytes
into a rectangle of one, and to flush what was written; a texture starts out empty. The calls
made are recorded by `DeviceCall`.
-/

namespace Typecase

/-- The texels of one texture, row by row. -/
structure Canvas where
  width : Nat
  height : Nat
  texels : Bytes
  deriving DecidableEq, Repr

namespace Canvas

/-- A texture without ink. -/
def empty (width height : Nat) : Canvas := ⟨width, height, Array.replicate (width * height) 0⟩

/-- The rows of a rectangle, each placed in the texture. -/
def rowsOf (width : Nat) (r : Rect) (bytes : Bytes) : List (Strip UInt8) :=
  (List.range r.height).map fun y =>
    ⟨(r.y + y) * width + r.x, (bytes.extract (y * r.width) ((y + 1) * r.width)).toList⟩

/-- Writes rows of bytes into a rectangle. -/
def write (c : Canvas) (r : Rect) (bytes : Bytes) : Canvas :=
  { c with texels := Strip.layAll c.texels (rowsOf c.width r bytes) }

/-- The texel in column `u` of row `v`. -/
def texel (c : Canvas) (u v : Nat) : UInt8 := c.texels.getD (v * c.width + u) 0

end Canvas

/-- A call to a device. -/
inductive DeviceCall where
  | allocate (width height handle : Nat)
  | upload (handle : Nat) (rect : Rect) (bytes : Bytes)
  | flush
  deriving DecidableEq, Repr

/-- The textures made so far; the handle of a texture is its position. -/
structure Device where
  canvases : List Canvas
  deriving DecidableEq, Repr

namespace Device

/-- A device without textures. -/
def empty : Device := ⟨[]⟩

/-- Makes a texture and gives its handle. -/
def allocate (d : Device) (width height : Nat) : Nat × Device :=
  (d.canvases.length, ⟨d.canvases ++ [Canvas.empty width height]⟩)

/-- Writes rows of bytes into a rectangle of a texture. -/
def upload (d : Device) (handle : Nat) (r : Rect) (bytes : Bytes) : Device :=
  ⟨d.canvases.modify handle fun c => c.write r bytes⟩

/-- The device after a call. -/
def apply (d : Device) : DeviceCall → Device
  | .allocate width height _ => (d.allocate width height).2
  | .upload handle r bytes => d.upload handle r bytes
  | .flush => d

end Device

end Typecase
