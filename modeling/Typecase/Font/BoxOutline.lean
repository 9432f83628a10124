import Typecase.Font.Face

/-!
# Box outlines

Scalable fonts whose outlines are boxes. A box is given in font units with the vertical axis
pointing up; at a pixel height the units are scaled so that one em is as tall as the height.
At height zero, or in a font without an em, the outlines keep their own size: one unit is one
pixel. Only boxes whose edges fall on whole pixels are drawn exactly: their bitmap is solid.

Advances are scaled apart from outlines, in single precision (`BoxFont.advance`): the rounded
ratio of the height to the em is multiplied by the units, and the product is rounded down. An
advance of a whole number of pixels can lose one pixel in this way.
-/

namespace Typecase

/-- A box in font units. -/
structure UnitBox where
  left : Int
  bottom : Int
  right : Int
  top : Int
  deriving DecidableEq, Repr

/-- A glyph with its advance in font units and its outline; a glyph without ink has none. -/
structure BoxGlyph where
  advance : Int
  box : Option UnitBox
  deriving DecidableEq, Repr

/-- A scalable font with box outlines. -/
structure BoxFont where
  family : String
  style : String
  unitsPerEm : Nat
  /-- Glyph number zero, drawn for code points that the font does not map. -/
  fallback : BoxGlyph
  /-- Glyphs number one and on, each with the code points mapped to it. -/
  glyphs : List (List Nat × BoxGlyph)
  deriving DecidableEq, Repr

namespace BoxFont

/-- The number of the glyph of a code point, among glyphs numbered from `i` on. The last glyph
that lists the code point has it; without one the answer is `found`. -/
def indexFrom (code found : Nat) (i : Nat) : List (List Nat × BoxGlyph) → Nat
  | [] => found
  | g :: rest => indexFrom code (if code ∈ g.1 then i else found) (i + 1) rest

/-- The number of the glyph of a code point; zero if the font does not map it. -/
def index (f : BoxFont) (code : Nat) : Nat := indexFrom code 0 1 f.glyphs

/-- The glyph with a number. -/
def glyph (f : BoxFont) (i : Nat) : BoxGlyph :=
  if i = 0 then f.fallback else ((f.glyphs[i - 1]?).map Prod.snd).getD f.fallback

/-- A length in font units at a pixel height, rounded down to a whole pixel. -/
def scale (f : BoxFont) (height : Nat) (units : Int) : Int :=
  if height = 0 ∨ f.unitsPerEm = 0 then units else units * height / f.unitsPerEm

/-- The pixels of one font unit at a pixel height. -/
def pixelsPerUnit (f : BoxFont) (height : Nat) : Float32 :=
  if f.unitsPerEm = 0 then 1 else Float32.ofNat height / Float32.ofNat f.unitsPerEm

/-- An advance in font units at a pixel height, rounded down to a whole pixel. -/
def advance (f : BoxFont) (height : Nat) (units : Int) : Float32 :=
  (Float32.ofInt units * f.pixelsPerUnit height).floor

/-- The solid bitmap of a glyph at a pixel height. -/
def draw (f : BoxFont) (g : BoxGlyph) (height : Nat) : Rendering :=
  let advance := f.advance height g.advance
  let bare := { Rendering.blank with advanceX := advance }
  match g.box with
  | none => bare
  | some b =>
    let width := (f.scale height (b.right - b.left)).toNat
    let rows := (f.scale height (b.top - b.bottom)).toNat
    if width = 0 ∨ rows = 0 then bare
    else ⟨width, rows, width, some (Array.replicate (width * rows) 255), advance, 0,
      Float32.ofInt (f.scale height b.left), Float32.ofInt (f.scale height b.bottom)⟩

/-- The face of a font. -/
def face (f : BoxFont) : Face where
  glyphCount := 1 + f.glyphs.length
  glyphIndex := f.index
  charCodes := f.glyphs.flatMap Prod.fst
  name := f.family ++ ":" ++ f.style
  render code height := f.draw (f.glyph (f.index code)) height

end BoxFont

end Typecase
