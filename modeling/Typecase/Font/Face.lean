import Typecase.Glyph

/-!
# Font faces

What the rest of the library asks of a font, however its data is encoded: which code points it
maps, what it is called, and the bitmap of a glyph at a pixel height. A `Face` is a record of
pure functions, so two calls with the same arguments give the same answer.
-/

namespace Typecase

/-- A coverage bitmap with its metrics, in whole pixels. -/
structure Rendering where
  width : Nat
  rows : Nat
  /-- Bytes from one row to the next. -/
  pitch : Nat
  /-- The bitmap; a glyph without ink has none. -/
  bitmap : Option Bytes
  advanceX : Float32
  advanceY : Float32
  /-- Left edge of the ink relative to the pen. -/
  inkLeft : Float32
  /-- Bottom edge of the ink relative to the baseline. -/
  inkBottom : Float32
  deriving Repr

/-- A glyph without extent, advance and ink. -/
def Rendering.blank : Rendering := ⟨0, 0, 0, none, 0, 0, 0, 0⟩

/-- A font that was opened. -/
structure Face where
  /-- The number of glyphs. -/
  glyphCount : Nat
  /-- The glyph of a code point; zero if the font has none. -/
  glyphIndex : Nat → Nat
  /-- The code points that the font maps, in any order and with repetitions. -/
  charCodes : List Nat
  /-- The family and the style, with a colon between them. -/
  name : String
  /-- Draws the glyph of a code point at a pixel height. -/
  render : Nat → Nat → Rendering

namespace Face

/-- A face that maps nothing. -/
def empty : Face := ⟨0, fun _ => 0, [], ":", fun _ _ => .blank⟩

/-- Whether the font has a glyph for a code point. -/
def has (f : Face) (code : Nat) : Bool := f.glyphIndex code != 0

/-- The code points that the font maps, ascending and without repetitions. -/
def codePoints (f : Face) : List Nat := (f.charCodes.mergeSort).eraseReps

/-- The enumeration of a face is *honest* when it lists exactly the code points that have a
glyph. -/
def IsHonest (f : Face) : Prop := ∀ code, code ∈ f.charCodes ↔ f.glyphIndex code ≠ 0

end Face

end Typecase
