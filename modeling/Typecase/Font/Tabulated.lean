import Typecase.Font.Face

/-!
# Tabulated fonts

A font whose every answer is written down in a table. The answers need not fit together: the
glyph count, the enumeration of code points and the glyph look-up are independent, and the
bitmaps may be shorter or longer than their shape says.
-/

namespace Typecase

/-- The answers of a font, each given outright. -/
structure TabulatedFont where
  display : String
  glyphCount : Nat
  /-- The enumeration of the code points. -/
  codes : List Nat
  /-- The code points that have a glyph, in the order of their glyph numbers. -/
  owned : List Nat
  /-- Drawings for one code point at one pixel height. -/
  sized : List ((Nat × Nat) × Rendering)
  /-- Drawings for one code point at any other height. -/
  unsized : List (Nat × Rendering)
  /-- The drawing of every other code point. -/
  other : Rendering
  deriving Repr

namespace TabulatedFont

/-- The drawing of a code point at a pixel height. -/
def render (f : TabulatedFont) (code height : Nat) : Rendering :=
  (f.sized.lookup (code, height)).getD ((f.unsized.lookup code).getD f.other)

/-- The face of a font. -/
def face (f : TabulatedFont) : Face where
  glyphCount := f.glyphCount
  glyphIndex code := (f.owned.idxOf? code).elim 0 (· + 1)
  charCodes := f.codes
  name := f.display
  render := f.render

end TabulatedFont

end Typecase
