/-!
# Shelf packing

Rectangles are placed from left to right on the current shelf of a texture. When one does not
fit in the width that is left, a new shelf starts below the tallest rectangle of the current
one. Once a rectangle does not fit below, the packer is full and stays full.

`Shelf.pack` places one rectangle; `Shelf.canPack` foretells whether a number of equal
rectangles would all be placed, without placing them.
-/

namespace Typecase

/-- A rectangle of texels. -/
structure Rect where
  x : Nat
  y : Nat
  width : Nat
  height : Nat
  deriving DecidableEq, Repr

namespace Rect

/-- A rectangle without texels at the origin. -/
def blank : Rect := ⟨0, 0, 0, 0⟩

/-- Whether the rectangle has no texels. -/
def isEmpty (r : Rect) : Bool := r.width == 0 || r.height == 0

/-- The number of texels. -/
def area (r : Rect) : Nat := r.width * r.height

/-- Whether the texel in column `u` of row `v` belongs to the rectangle. -/
def Covers (r : Rect) (u v : Nat) : Prop :=
  (r.x ≤ u ∧ u < r.x + r.width) ∧ r.y ≤ v ∧ v < r.y + r.height

instance (r : Rect) (u v : Nat) : Decidable (r.Covers u v) := inferInstanceAs (Decidable (_ ∧ _))

/-- Whether the rectangle lies in a texture. -/
def Within (r : Rect) (width height : Nat) : Prop :=
  r.x + r.width ≤ width ∧ r.y + r.height ≤ height

instance (r : Rect) (width height : Nat) : Decidable (r.Within width height) :=
  inferInstanceAs (Decidable (_ ∧ _))

end Rect

/-- Texture coordinates of the edges of a glyph, from zero to one. -/
structure TexCoords where
  minX : Float32
  minY : Float32
  maxX : Float32
  maxY : Float32
  deriving Repr

/-- The coordinates of a glyph that is nowhere. -/
def TexCoords.blank : TexCoords := ⟨0, 0, 0, 0⟩

/-- The state of packing one texture: the next free place on the current shelf, and the height
of the tallest rectangle on it. -/
structure Shelf where
  width : Nat
  height : Nat
  cursorX : Nat
  cursorY : Nat
  rowHeight : Nat
  full : Bool
  deriving DecidableEq, Repr

namespace Shelf

/-- An empty texture. -/
def empty (width height : Nat) : Shelf := ⟨width, height, 0, 0, 0, false⟩

/-- Starts a new shelf if `w` does not fit on the current one. -/
def wrap (s : Shelf) (w : Nat) : Shelf :=
  if s.width < s.cursorX + w then
    { s with cursorX := 0, cursorY := s.cursorY + s.rowHeight, rowHeight := 0 }
  else s

/-- Places a rectangle, or marks the texture full. -/
def pack (s : Shelf) (w h : Nat) : Option Rect × Shelf :=
  if s.full then (none, s)
  else
    let s := s.wrap w
    if s.height < s.cursorY + h ∨ s.width < w then (none, { s with full := true })
    else
      (some ⟨s.cursorX, s.cursorY, w, h⟩,
        { s with cursorX := s.cursorX + w, rowHeight := max s.rowHeight h })

/-- Whether `count` rectangles fit one after the other, for a texture that is not full and at
least as wide as they are. The numbers `x`, `y` and `row` are the next free place and the
height of the current shelf. -/
def hasRoomFrom (width height w h x y row : Nat) : Nat → Bool
  | 0 => true
  | count + 1 =>
    if width < x + w then
      if height < y + row + h then false else hasRoomFrom width height w h w (y + row) h count
    else
      if height < y + h then false
      else hasRoomFrom width height w h (x + w) y (max row h) count

/-- Whether `count` more rectangles of the given size would all be placed. -/
def canPack (s : Shelf) (count w h : Nat) : Bool :=
  if s.full || s.width < w then count == 0
  else hasRoomFrom s.width s.height w h s.cursorX s.cursorY s.rowHeight count

/-- The texture coordinates of a rectangle, moved inwards by half a texel so that sampling
stays inside the glyph. An empty rectangle is not moved. -/
def coords (s : Shelf) (r : Rect) : TexCoords :=
  let fx := 1 / Float32.ofNat s.width
  let fy := 1 / Float32.ofNat s.height
  let inset : Float32 := if r.isEmpty then 0 else 0.5
  ⟨(Float32.ofNat r.x + inset) * fx, (Float32.ofNat r.y + inset) * fy,
    (Float32.ofNat (r.x + r.width) - inset) * fx, (Float32.ofNat (r.y + r.height) - inset) * fy⟩

example : (pack (empty 10 10) 4 3).1 = some ⟨0, 0, 4, 3⟩ := by decide
example : (pack (pack (empty 4 10) 3 5).2 2 2).1 = some ⟨0, 5, 2, 2⟩ := by decide
example : canPack (empty 10 10) 4 5 5 = true ∧ canPack (empty 10 10) 5 5 5 = false := by decide

theorem pack_of_full {s : Shelf} (h : s.full = true) (w k : Nat) : s.pack w k = (none, s) := by
  simp [pack, h]

theorem full_of_pack_eq_none {s : Shelf} {w k : Nat} (h : (s.pack w k).1 = none) :
    (s.pack w k).2.full = true := by
  unfold pack at h ⊢
  split
  · assumption
  · rename_i hf
    rw [if_neg hf] at h
    dsimp only at h ⊢
    split at h
    · rename_i hc
      rw [if_pos hc]
    · contradiction

end Shelf

end Typecase
