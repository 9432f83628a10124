import Typecase.Buffer.Pool

/-!
# Glyphs

A `Glyph` is one character drawn by one font in one mode. The mode is its fixed size: a
negative size asks for a distance field, any other size is the pixel height of a bitmap. Code
point and size together are the `GlyphKey` of the drawing.

A glyph comes out of a font with its picture *raw*: a distance field glyph still has the
enlarged working bitmap, whose shape is kept beside the shape of the final picture. Packaging
turns it into the bytes that go to a texture.
-/

namespace Typecase

/-- The fixed size of glyphs drawn as distance fields. -/
def fieldSize : Int := -1

/-- The empty border around every picture, in final pixels. -/
def margin : Nat := 4

/-- The code point drawn in place of characters that no font has. -/
def placeholderCode : Nat := 0x9

/-- Whether a fixed size asks for a distance field. -/
def isFieldSize (size : Int) : Bool := size < 0

/-! ### Sums of sizes -/

/-- What is left of a sum or a product of sizes in a number of thirty-two bits. -/
def word (n : Nat) : Nat := n % 0x100000000

theorem word_of_lt {n : Nat} (h : n < 0x100000000) : word n = n := Nat.mod_eq_of_lt h

theorem word_eq_self_iff {n : Nat} : word n = n ↔ n < 0x100000000 :=
  ⟨fun h => h ▸ Nat.mod_lt n (by decide), word_of_lt⟩

/-- What happens at a sum or a product of sizes that does not fit into thirty-two bits. The choice
is made when the program is built. -/
inductive Overflow where
  /-- The program stops. -/
  | stops
  /-- The digits that do not fit are lost (`word`). -/
  | wraps
  deriving DecidableEq, Repr

/-- The program goes on after it has formed some sums. -/
def Overflow.Admits (o : Overflow) (sums : List Nat) : Prop :=
  o = .stops → ∀ n ∈ sums, n < 0x100000000

instance (o : Overflow) (sums : List Nat) : Decidable (o.Admits sums) :=
  inferInstanceAs (Decidable (_ → _))

/-! ### Glyphs and their pictures -/

/-- What identifies a drawing: the code point and the fixed size. -/
structure GlyphKey where
  code : Nat
  size : Int
  deriving DecidableEq, Repr

/-- How a glyph is placed, in final pixels. -/
structure Metrics where
  /-- Horizontal advance. -/
  advanceX : Float32
  /-- Vertical advance. -/
  advanceY : Float32
  /-- Left edge of the ink relative to the pen. -/
  offsetX : Float32
  /-- Bottom edge of the ink relative to the baseline. -/
  offsetY : Float32
  /-- False for the placeholder. -/
  valid : Bool
  deriving Repr

/-- The metrics of a glyph that was never drawn. -/
def Metrics.blank : Metrics := ⟨0, 0, 0, 0, false⟩

/-- The picture of a glyph. The shape of the working bitmap is zero once the picture has been
packaged; a glyph without ink has no bytes. -/
structure Picture where
  width : Nat
  height : Nat
  workRows : Nat
  workPitch : Nat
  data : Option Bytes
  deriving DecidableEq, Repr

namespace Picture

/-- A picture without extent and without ink. -/
def blank : Picture := ⟨0, 0, 0, 0, none⟩

/-- The bytes of a picture; none without ink. -/
def bytes (p : Picture) : Bytes := p.data.getD #[]

end Picture

/-- One character drawn by one font. -/
structure Glyph where
  metrics : Metrics
  picture : Picture
  /-- The number of the font. -/
  font : Nat
  key : GlyphKey
  deriving Repr

namespace Glyph

/-- Whether the glyph is a distance field. -/
def isField (g : Glyph) : Bool := isFieldSize g.key.size

/-- The same drawing marked as a placeholder of font number zero. -/
def asPlaceholder (g : Glyph) : Glyph :=
  { g with metrics := { g.metrics with valid := false }, font := 0 }

/-- A placeholder without ink, for want of fonts. -/
def blank : Glyph := ⟨.blank, .blank, 0, ⟨placeholderCode, fieldSize⟩⟩

/-- Gives the buffer of a glyph back to a pool. -/
def discard (g : Glyph) (p : Pool) : Pool :=
  match g.picture.data with
  | some b => p.release b
  | none => p

/-- A second glyph with a buffer of its own. -/
def copy (g : Glyph) (p : Pool) : Glyph × Pool :=
  match g.picture.data with
  | some b =>
    let (c, p) := p.copy b
    ({ g with picture := { g.picture with data := some c } }, p)
  | none => (g, p)

end Glyph

end Typecase
