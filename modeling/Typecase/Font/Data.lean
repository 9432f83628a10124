import Typecase.Font.BoxOutline
import Typecase.Font.Synthetic
import Typecase.Font.Tabulated

/-!
# Font data

What a font file holds, and how a face is opened from it. An `Opener` turns data into a face
or says why it cannot; everything that uses fonts works with any opener.

Bytes that start with the scalable font mark open as a scalable font without glyphs: outline
programs in bytes are not interpreted, only box outlines given as such.
-/

namespace Typecase

/-- The data of a font: bytes, the outlines of a scalable font, or a table of answers. -/
inductive FontData where
  | bytes (data : Bytes)
  | outlines (font : BoxFont)
  | table (font : TabulatedFont)

/-- Opens a face from font data. -/
abbrev Opener := FontData → Except FontError Face

namespace FontData

/-- The number of bytes; data that is not given as bytes counts none. -/
def size : FontData → Nat
  | .bytes data => data.size
  | _ => 0

/-- Whether bytes start with the mark of a scalable font. -/
def isScalable (data : Bytes) : Bool := (data.toList.take 4) = [0, 1, 0, 0]

/-- Opens synthetic fonts only. -/
def openSynthetic : Opener
  | .bytes data =>
    match SyntheticFont.decode data.toList with
    | .ok font => .ok font.face
    | .error fault => .error (.invalid fault)
  | _ => .error (.invalid .unrecognized)

/-- Opens scalable fonts only. -/
def openScalable : Opener
  | .bytes data =>
    if isScalable data then .ok .empty else .error (.invalid .unsupportedFormat)
  | .outlines font => .ok font.face
  | .table _ => .error (.invalid .unsupportedFormat)

/-- Opens a font of any kind; bytes are told apart by their mark. -/
def openAny : Opener
  | .bytes data => if isScalable data then openScalable (.bytes data) else openSynthetic (.bytes data)
  | .outlines font => .ok font.face
  | .table font => .ok font.face

end FontData

end Typecase
