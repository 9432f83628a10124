import Typecase.Font.Error
import Typecase.Font.Face
import Typecase.Text.Utf8

/-!
# Synthetic fonts

A font format whose glyphs need no outlines, so that everything around a font can be tried
without one. The data is the four bytes `SYNF`, the length of the family name in one byte, the
name, and the code points in four bytes each, the lowest byte first. Every glyph is a box half
as wide as it is tall, filled with a pattern that depends on the position (`boxPixel`); only
the space has no ink.

`SyntheticFont.encode` writes the format and `SyntheticFont.decode` reads it; a name longer
than 255 bytes is cut when it is written.
-/

namespace Typecase

/-- The first four bytes of the format. -/
def syntheticMark : List UInt8 := [0x53, 0x59, 0x4E, 0x46]

/-- The value of the box pattern in column `x` of row `y`. -/
def boxPixel (x y : Nat) : UInt8 := UInt8.ofNat (128 + (7 * x + 13 * y) % 127)

/-- A family name and the code points that the font maps. -/
structure SyntheticFont where
  name : List Char
  codes : List Nat
  deriving DecidableEq, Repr

namespace SyntheticFont

/-- The four bytes of a thirty-two bit number, the lowest first. -/
def encodeCode (n : Nat) : List UInt8 :=
  [UInt8.ofNat n, UInt8.ofNat (n / 0x100), UInt8.ofNat (n / 0x10000),
    UInt8.ofNat (n / 0x1000000)]

/-- The number that four bytes stand for, the lowest first. -/
def decodeCode (a b c d : UInt8) : Nat :=
  a.toNat + 0x100 * b.toNat + 0x10000 * c.toNat + 0x1000000 * d.toNat

/-- The data of a font. -/
def encode (f : SyntheticFont) : List UInt8 :=
  let name := (Text.encode f.name).take 255
  syntheticMark ++ UInt8.ofNat name.length :: name ++ f.codes.flatMap encodeCode

/-- Reads the code points of a table; bytes that do not complete a number are left out. -/
def decodeCodes : List UInt8 → List Nat
  | a :: b :: c :: d :: rest => decodeCode a b c d :: decodeCodes rest
  | _ => []

/-- Reads the data behind the mark. -/
def decodeBody : List UInt8 → Except FontFault SyntheticFont
  | [] => .error .truncatedHeader
  | n :: rest =>
    if rest.length < n.toNat ∨ (rest.length - n.toNat) % 4 ≠ 0 then .error .truncatedMap
    else .ok ⟨Text.decodeLossy (rest.take n.toNat), decodeCodes (rest.drop n.toNat)⟩

/-- Reads the data of a font. -/
def decode (data : List UInt8) : Except FontFault SyntheticFont :=
  if data.take 4 = syntheticMark then decodeBody (data.drop 4) else .error .unrecognized

/-- The glyph of a code point at a pixel height: a box, or nothing but an advance for the
space. -/
def render (code height : Nat) : Rendering :=
  let width := max (height / 2) 1
  let advance := Float32.ofNat (width + 2)
  if code = 0x20 then ⟨0, 0, 0, none, advance, 0, 1, 0⟩
  else
    let bitmap := Array.ofFn (n := width * height) fun i =>
      boxPixel (i.val % width) (i.val / width)
    ⟨width, height, width, some bitmap, advance, 0, 1, 0⟩

/-- The face of a font whose distinct code points are `codes`, in ascending order. -/
def faceOf (name : List Char) (codes : List Nat) : Face where
  glyphCount := codes.length
  glyphIndex code := (codes.idxOf? code).elim 0 (· + 1)
  charCodes := codes
  name := String.ofList name ++ ":Regular"
  render := render

/-- The face of a font. -/
def face (f : SyntheticFont) : Face := faceOf f.name f.codes.mergeSort.eraseReps

example : decode (encode ⟨"Ab".toList, [0x41, 0x1F600]⟩) = .ok ⟨"Ab".toList, [0x41, 0x1F600]⟩ := by
  cbv

end SyntheticFont

end Typecase
