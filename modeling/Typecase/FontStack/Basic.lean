import Typecase.Coverage.Resolver
import Typecase.Field.Image
import Typecase.Font.Opened
import Typecase.FontStack.Settings

/-!
# Font stacks

A `FontStack` is a list of opened fonts that stand in for one another: for every character it
picks the font that covers the block of the character best, and it draws glyphs with the fonts
so picked. Characters that no font has get the placeholder.

* `build` opens the fonts in order; those that fail are left out, so that font numbers count
  the opened fonts only.
* `fontFor` and `fontForStateless` pick a font, with and without the memory of the last block.
* `glyph` draws a character, `placeholder` its stand-in, and `package` makes a glyph fit for a
  texture. `package?` stops where the program does, at sums of sizes and at rows out of place.
* `markReady` and `areReady` keep track of the drawings that have reached a texture.

All buffers come from one pool, which is part of the stack.
-/

namespace Typecase

/-- Fonts that stand in for one another. -/
structure FontStack where
  fonts : List OpenFont
  coverage : Coverage
  /-- The placeholder as a distance field. -/
  fieldPlaceholder : Glyph
  pool : Pool
  baseHeight : Nat
  scale : Nat

namespace FontStack

/-! ### Building -/

/-- Fonts opened so far, with their coverage. -/
structure Opening where
  fonts : List OpenFont
  coverage : Coverage
  notices : List Notice

/-- Opens one more font and adds its coverage, or reports why it is left out. -/
def Opening.add (opener : Opener) (o : Coverage.Overrides) (scale : Nat) (s : Opening)
    (source : FontSource) : Opening :=
  match OpenFont.ofSource opener source scale with
  | .ok font =>
    { s with
      fonts := s.fonts ++ [font]
      coverage := (s.coverage.addFont source.name font.face.codePoints o).2 }
  | .error e => { s with notices := s.notices ++ [.fontUnusable source.name e] }

/-- Opens the fonts of the settings in order. -/
def Opening.ofSettings (settings : Settings) (opener : Opener) : Opening :=
  settings.fonts.foldl
    (Opening.add opener ⟨settings.whitelist, settings.blacklist⟩ (max settings.scale 1))
    ⟨[], Coverage.ofBlocks settings.blocks, []⟩

/-- Reports which font each block is mapped to. -/
def mappingNotices (s : Opening) : List Notice :=
  .mappingFollows :: s.coverage.rows.map fun row =>
    match (Choice.preferred row.weights).bind fun i => s.fonts[i]? with
    | some font => .blockMapped row.block.name font.name font.face.name
    | none => .blockUnmapped row.block.name

/-- The placeholder drawn by a font at a pixel height. -/
def drawPlaceholder (font : OpenFont) (height : Nat) (field : Bool) (p : Pool) : Glyph × Pool :=
  let (g, p) := font.draw placeholderCode height field p
  (g.asPlaceholder, p)

/-- Builds a stack, with the notices of building it. -/
def build (settings : Settings) (opener : Opener) : FontStack × List Notice :=
  let dropped := (Block.arrange settings.blocks).dropped.map fun b => Notice.blockDropped b.name
  let s := Opening.ofSettings settings opener
  let (g, pool, missing) :=
    match s.fonts with
    | font :: _ =>
      let (g, pool) := drawPlaceholder font settings.baseHeight true .empty
      (g, pool, [])
    | [] => (Glyph.blank, Pool.empty, [Notice.noFonts])
  (⟨s.fonts, s.coverage, g, pool, settings.baseHeight, max settings.scale 1⟩,
    dropped ++ s.notices ++ mappingNotices s ++ missing)

/-! ### Picking fonts -/

/-- Whether font number `i` has a glyph for a code point. -/
def hasGlyph (s : FontStack) (code i : Nat) : Bool := s.fonts[i]?.any fun f => f.face.has code

/-- The font for a character. The block of the character is remembered. -/
def fontFor (s : FontStack) (c : Char) : Option Nat × FontStack :=
  let (choice, coverage) := s.coverage.resolve c.toNat (s.hasGlyph c.toNat)
  (choice.font, { s with coverage })

/-- The font for a character, without regard to earlier look-ups. -/
def fontForStateless (s : FontStack) (c : Char) : Option Nat :=
  (s.coverage.resolveStateless c.toNat (s.hasGlyph c.toNat)).font

/-- Every block kept, with the font that covers it best. -/
def mapping (s : FontStack) : List (Block × Option Nat) :=
  s.coverage.rows.map fun row => (row.block, Choice.preferred row.weights)

/-! ### Drawing -/

/-- Draws a code point with font number `i`. -/
def drawWith (s : FontStack) (i code height : Nat) (field : Bool) : Glyph × FontStack :=
  match s.fonts[i]? with
  | some font =>
    let (g, pool) := font.draw code height field s.pool
    ({ g with font := i }, { s with pool })
  | none => (Glyph.blank, s)

/-- The stand-in for a character at a fixed size. As a distance field it is a copy of the one
drawn when the stack was built; as a bitmap it is drawn at the size asked for. -/
def placeholder (s : FontStack) (size : Int) : Glyph × FontStack :=
  let copied :=
    let (g, pool) := s.fieldPlaceholder.copy s.pool
    (g, { s with pool })
  if isFieldSize size then copied
  else
    match s.fonts with
    | font :: _ =>
      let (g, pool) := drawPlaceholder font size.natAbs false s.pool
      (g, { s with pool })
    | [] => ({ copied.1 with key := { copied.1.key with size } }, copied.2)

/-- Draws a character at a fixed size. -/
def glyph (s : FontStack) (c : Char) (size : Int) : Glyph × FontStack :=
  match s.fontFor c with
  | (none, s) => s.placeholder size
  | (some i, s) =>
    if isFieldSize size then s.drawWith i c.toNat s.baseHeight true
    else s.drawWith i c.toNat size.natAbs false

/-! ### Packaging -/

/-- The enlarged bitmap of a glyph behind a border, from which its distance field is made. The sums
are not checked: a border that does not fit beside the bitmap leaves an image that is too small. -/
def workImage (picture : Picture) (work : Bytes) (scale : Nat) : FieldImage :=
  let border := word (scale * margin)
  .ofBitmapWithin (word (picture.workPitch + 2 * border)) (word (picture.workRows + 2 * border))
    picture.workRows picture.workPitch work border

/-- Every complete row of the enlarged bitmap has its place in the image. -/
def WorkFits (picture : Picture) (work : Bytes) (scale : Nat) : Prop :=
  let im := workImage picture work scale
  ∀ s ∈ FieldImage.rowsWithin im.width picture.workRows picture.workPitch work
    (word (scale * margin)), s.Fits im.samples.size

instance (picture : Picture) (work : Bytes) (scale : Nat) :
    Decidable (WorkFits picture work scale) :=
  inferInstanceAs (Decidable (∀ s ∈ _, _))

/-- The distance field of a glyph, made from its enlarged bitmap. -/
def fieldOf (picture : Picture) (work : Bytes) (scale : Nat) : FieldImage :=
  (workImage picture work scale).generate (1 / Float32.ofNat scale)

/-- The least power of two that is not less than `n`. -/
def roundUp (n : Nat) : Nat := if n ≤ 1 then 1 else 1 <<< ((n - 1).log2 + 1)

theorem le_roundUp (n : Nat) : n ≤ roundUp n := by
  rw [roundUp]
  split
  · assumption
  · have := Nat.lt_log2_self (n := n - 1)
    omega

example : [0, 1, 2, 3, 5, 8, 9].map roundUp = [1, 1, 2, 4, 8, 8, 16] := by decide

/-- Makes a glyph fit for a texture. A distance field glyph gets its field, in a buffer rounded
up to a power of two; a bitmap glyph gets a copy of its bytes. A glyph without ink stays as it
is. -/
def package (g : Glyph) (scale : Nat) (p : Pool) : Glyph × Pool :=
  match g.picture.data with
  | none => (g, p)
  | some data =>
    let (buffer, p) :=
      if g.isField then
        let (buffer, p) := p.reserve (roundUp (g.picture.width * g.picture.height))
        ((fieldOf g.picture data (max scale 1)).writeTo buffer, p)
      else p.copy data
    ({ g with picture := ⟨g.picture.width, g.picture.height, 0, 0, some buffer⟩ }, p)

/-- The sums and products of sizes that are formed when a distance field is made. -/
def workSums (picture : Picture) (scale : Nat) : List Nat :=
  let border := scale * margin
  [border, 2 * border, picture.workPitch + 2 * border, picture.workRows + 2 * border]

/-- Makes a glyph fit for a texture, unless the program stops at a sum, or at a row of an enlarged
bitmap that has no place in the image that the field is made of. -/
def package? (o : Overflow) (g : Glyph) (scale : Nat) (p : Pool) : Option (Glyph × Pool) :=
  if g.isField → ∀ work ∈ g.picture.data,
      o.Admits (workSums g.picture (max scale 1)) ∧ WorkFits g.picture work (max scale 1) then
    some (package g scale p)
  else none

/-! ### Keeping track of drawings -/

/-- Gives the buffer of a glyph back. -/
def discard (s : FontStack) (g : Glyph) : FontStack := { s with pool := g.discard s.pool }

/-- Records that the drawing of a glyph is ready. -/
def markReady (s : FontStack) (g : Glyph) : FontStack :=
  { s with fonts := s.fonts.modify g.font fun f => f.markReady g.key }

/-- Whether font number `i` has a drawing ready. -/
def isReady (s : FontStack) (i : Nat) (key : GlyphKey) : Bool :=
  s.fonts[i]?.any fun f => f.isReady key

/-- Whether every character of a text has a font and is ready at a fixed size. -/
def areReady (s : FontStack) (text : List Char) (size : Int) : Bool :=
  text.all fun c => (s.fontForStateless c).any fun i => s.isReady i ⟨c.toNat, size⟩

end FontStack

end Typecase
