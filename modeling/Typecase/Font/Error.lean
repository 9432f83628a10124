import Typecase.File.Error

/-!
# Font errors

Why a font could not be opened. A font that fails to open is left out; it never keeps the
other fonts from being used.
-/

namespace Typecase

/-- Why data is not a usable font. -/
inductive FontFault where
  | noGlyphs
  | unrecognized
  | truncatedHeader
  | truncatedMap
  | unsupportedFormat
  deriving DecidableEq, Repr

/-- The wording of a fault. -/
def FontFault.message : FontFault → String
  | .noGlyphs => "font has no glyphs"
  | .unrecognized => "unrecognized font data"
  | .truncatedHeader => "truncated header"
  | .truncatedMap => "truncated character map"
  | .unsupportedFormat => "unsupported font format"

/-- Why a font could not be opened: its data is no usable font, or its file cannot be read. -/
inductive FontError where
  | invalid (fault : FontFault)
  | unreadable (cause : FileError)
  deriving DecidableEq, Repr

namespace FontError

/-- The wording of a font error. -/
def message : FontError → String
  | .invalid fault => "invalid font: " ++ fault.message
  | .unreadable cause => "failed to read font: " ++ cause.message

/-- The wording of the error behind a font error, if there is one. -/
def causeMessage? : FontError → Option String
  | .invalid _ => none
  | .unreadable cause => some cause.message

end FontError

end Typecase
