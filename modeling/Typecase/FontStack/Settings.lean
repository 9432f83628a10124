import Typecase.Coverage.Override
import Typecase.Font.Source
import Typecase.Notice
import Typecase.Unicode.BlockList

/-!
# Font stack settings

Everything a font stack is built from: the blocks, the overrides, the fonts in order of
priority, and two sizes for distance fields. Settings can be loaded from files, and nothing in
that is fatal: a list that cannot be read counts as empty, a malformed list is cut at its first
bad line, and a font that cannot be read is left out.
-/

namespace Typecase

/-- What a font stack is built from. -/
structure Settings where
  blocks : List Block
  /-- Fonts forced onto blocks. -/
  whitelist : List Override
  /-- Fonts kept out of blocks. -/
  blacklist : List Override
  /-- Fonts in order of priority. -/
  fonts : List FontSource
  /-- The pixel height at which distance field glyphs are drawn. -/
  baseHeight : Nat
  /-- The enlargement of the bitmaps that distance fields are made from. -/
  scale : Nat

/-- The files that settings are loaded from. -/
structure SettingsPaths where
  blocks : String
  whitelist : String
  blacklist : String
  fonts : List String

namespace Settings

/-- The usual pixel height of distance field glyphs. -/
def usualBaseHeight : Nat := 22

/-- The usual enlargement. -/
def usualScale : Nat := 4

/-- Settings with the usual sizes. -/
def ofLists (blocks : List Block) (whitelist blacklist : List Override)
    (fonts : List FontSource) : Settings :=
  ⟨blocks, whitelist, blacklist, fonts, usualBaseHeight, usualScale⟩

/-- The name of block lists in notices. -/
def blocksLabel : String := "unicode blocks"

/-- The name of override lists in notices. -/
def overridesLabel : String := "font overrides"

variable {m : Type → Type} [Monad m]

/-- Reads the list of blocks in a file. -/
def readBlocks (r : Reader m) (path : String) : m (List Block × List Notice) := do
  match ← r.text path with
  | .ok text =>
    let l := Block.readList text
    return (l.entries, l.notices blocksLabel)
  | .error cause => return ([], [.blocksUnreadable path cause])

/-- Reads the list of overrides in a file. -/
def readOverrides (r : Reader m) (path : String) : m (List Override × List Notice) := do
  match ← r.text path with
  | .ok text =>
    let l := Override.readList text
    return (l.entries, l.notices overridesLabel)
  | .error cause => return ([], [.overridesUnreadable path cause])

/-- Reads font files, leaving out those that cannot be read. -/
def readFonts (r : Reader m) : List String → m (List FontSource × List Notice)
  | [] => return ([], [])
  | path :: rest => do
    let source ← FontSource.ofPath r path
    let (sources, notices) ← readFonts r rest
    match source with
    | .ok source => return (source :: sources, notices)
    | .error cause => return (sources, .fontUnusable path cause :: notices)

/-- Loads settings from files. -/
def load (r : Reader m) (paths : SettingsPaths) : m (Settings × List Notice) := do
  let (blocks, n₁) ← readBlocks r paths.blocks
  let (whitelist, n₂) ← readOverrides r paths.whitelist
  let (blacklist, n₃) ← readOverrides r paths.blacklist
  let (fonts, n₄) ← readFonts r paths.fonts
  return (ofLists blocks whitelist blacklist fonts, n₁ ++ n₂ ++ n₃ ++ n₄)

end Settings

end Typecase
