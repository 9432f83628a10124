import Typecase.Text.Decimal

/-!
# Atlas settings

The size of the textures, the estimate of how many glyphs fit into one, and the time during
which frames are drawn again after an upload.
-/

namespace Typecase

/-- Sizes and times of an atlas. -/
structure AtlasSettings where
  /-- The edge of the square textures. -/
  textureSize : Nat
  /-- The average edge of a glyph, as a multiple of the base height. -/
  multiplier : Float32
  /-- The part of a texture that glyphs cover when it is full. -/
  coverage : Float32
  /-- The seconds during which frames are drawn again after an upload that may be late. -/
  timeout : Nat
  deriving Repr

namespace AtlasSettings

/-- The settings used when nothing else is asked for. -/
def usual : AtlasSettings := ⟨1024, 1.2, 0.9, 2⟩

/-- The number that the glyphs in one texture stay below: the area to be covered, in average
glyphs, rounded up. -/
def maxGlyphs (s : AtlasSettings) (baseHeight : Nat) : Nat :=
  let size := Float.ofNat s.textureSize
  let edge := (Float32.ofNat baseHeight * s.multiplier).toUInt32.toNat
  let side := Float.ofNat (max edge 1)
  (s.coverage.toFloat * (size * size) / (side * side)).ceil.toUInt32.toNat

/-- Numbers are written with a point and at least one place after it; from `10 ^ 16` on and
below `10 ^ -4` an exponent is used. -/
def numberStyle : Text.Style := ⟨16, 4, 1⟩

/-- A time of whole seconds in words. -/
def describeSeconds (n : Nat) : String := if n = 0 then "0ns" else toString n ++ "s"

/-- The text that describes the settings. -/
def describe (s : AtlasSettings) : String :=
  "AtlasConfig \x7b texture_size: " ++ toString s.textureSize ++ ", glyph_area_multiplier: " ++
    numberStyle.render s.multiplier ++ ", glyph_area_coverage: " ++
    numberStyle.render s.coverage ++ ", upload_timeout: " ++ describeSeconds s.timeout ++ " \x7d"

end AtlasSettings

end Typecase
