import Typecase.Font.Error
import Typecase.Listing
import Typecase.Text.Hex

/-!
# Notices

What the library has to report while it works. A `Notice` is a cause with its particulars;
`Notice.level` says how severe it is and `Notice.message` puts it into words. Functions hand
their notices back in the order in which they arose, and the caller decides what to show.
-/

namespace Typecase

/-- How severe a notice is, the most severe first. -/
inductive Level where
  | error
  | warn
  | debug
  | trace
  deriving DecidableEq, Repr

namespace Level

/-- The name of a level. -/
def label : Level → String
  | .error => "ERROR"
  | .warn => "WARN"
  | .debug => "DEBUG"
  | .trace => "TRACE"

/-- The position of a level, counted from the most severe. -/
def rank : Level → Nat
  | .error => 0
  | .warn => 1
  | .debug => 2
  | .trace => 3

end Level

/-- Something to report. -/
inductive Notice where
  /-- A block was left out because it is inverted or does not follow the block before it. -/
  | blockDropped (name : String)
  /-- A list was read up to a malformed line. -/
  | listStopped (what : String) (error : ListError) (kept : Nat)
  | blocksUnreadable (path : String) (cause : FileError)
  | overridesUnreadable (path : String) (cause : FileError)
  | fontUnreadable (path : String) (cause : FileError)
  | fontUnusable (name : String) (cause : FontError)
  /-- Announces the mapping of blocks to fonts. -/
  | mappingFollows
  | blockMapped (block font display : String)
  | blockUnmapped (block : String)
  | noFonts
  /-- A group of glyphs takes no more glyphs. -/
  | groupSealed (group glyphs : Nat)
  /-- A valid glyph found no room in a texture. -/
  | glyphUnpacked (code width height textureWidth textureHeight : Nat)
  | glyphScheduled (code texture : Nat)
  /-- A glyph came after packaging had been cancelled. -/
  | glyphRefused (code : Nat)
  | atlasSized (textureSize maxGlyphs : Nat)
  | textureAllocated (texture : Nat)
  | lookupAfterRelease
  deriving DecidableEq, Repr

namespace Notice

/-- How severe a notice is. -/
def level : Notice → Level
  | .blocksUnreadable .. => .error
  | .blockDropped .. | .listStopped .. | .overridesUnreadable .. | .fontUnreadable ..
  | .fontUnusable .. | .noFonts | .glyphUnpacked .. | .lookupAfterRelease => .warn
  | .mappingFollows | .blockMapped .. | .blockUnmapped .. | .groupSealed .. | .atlasSized ..
  | .textureAllocated .. => .debug
  | .glyphScheduled .. | .glyphRefused .. => .trace

/-- A shape in words: width, a cross and height. -/
def shape (width height : Nat) : String := toString width ++ "x" ++ toString height

/-- The wording of a notice. -/
def message : Notice → String
  | .blockDropped name => "dropping out of order unicode block " ++ name
  | .listStopped what error kept =>
    "stopped reading " ++ what ++ " at " ++ error.message ++ "; keeping " ++ toString kept ++
      " entries"
  | .blocksUnreadable path cause =>
    "error reading unicode block description " ++ path ++ ": " ++ cause.message
  | .overridesUnreadable path cause => "error reading font list " ++ path ++ ": " ++ cause.message
  | .fontUnreadable path cause => "error reading font file " ++ path ++ ": " ++ cause.message
  | .fontUnusable name cause => "error reading font file " ++ name ++ ": " ++ cause.message
  | .mappingFollows => "how unicode blocks are mapped on font files:"
  | .blockMapped block font display => block ++ " is in " ++ font ++ " (" ++ display ++ ")"
  | .blockUnmapped block => block ++ " is unsupported"
  | .noFonts => "no usable fonts, every glyph will be blank"
  | .groupSealed group glyphs =>
    "sealing glyph group " ++ toString group ++ " with " ++ toString glyphs ++ " glyphs"
  | .glyphUnpacked code width height textureWidth textureHeight =>
    "glyph packer could not pack " ++ Text.markedHex code ++ " (" ++ shape width height ++
      ") into a " ++ shape textureWidth textureHeight ++ " texture"
  | .glyphScheduled code texture =>
    "scheduling glyph " ++ Text.markedHex code ++ " into texture " ++ toString texture
  | .glyphRefused code => "generator cancelled, dropping glyph " ++ Text.markedHex code
  | .atlasSized textureSize maxGlyphs =>
    "glyph textures " ++ shape textureSize textureSize ++ ", at most " ++ toString maxGlyphs ++
      " glyphs each"
  | .textureAllocated texture => "allocated glyph texture " ++ toString texture
  | .lookupAfterRelease => "glyph regions requested from a released texture manager"

end Notice

namespace Listing

variable {α : Type}

/-- The notice of a list that was not read to its end. -/
def notices (l : Listing α) (what : String) : List Notice :=
  match l.error with
  | some e => [.listStopped what e l.entries.length]
  | none => []

end Listing

end Typecase
