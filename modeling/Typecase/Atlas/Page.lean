import Typecase.Atlas.Device
import Typecase.Atlas.Packaging

/-!
# Atlas pages

A `Page` is one texture of the atlas as its owner sees it: the packer that reserves rectangles,
the index of the glyphs placed so far, and the packaged glyphs that have not been uploaded yet.

* `Page.place` gives the entry of one character. If it is new, the glyph is drawn, a rectangle
  is reserved and the glyph is scheduled for packaging; if it has no ink there is nothing to
  upload, and it is ready at once. A glyph that finds no room is replaced by the placeholder,
  provided that the page has one.
* `Page.find` does so for a whole text.
* `Page.upload` makes the texture if need be and writes every packaged glyph to the device.
-/

namespace Typecase

/-- Where a glyph lies in a texture and how it is placed on the line. -/
structure Placement where
  rect : Rect
  coords : TexCoords
  metrics : Metrics
  deriving Repr

/-- One texture of an atlas. -/
structure Page where
  id : Nat
  width : Nat
  height : Nat
  /-- The edge of an average glyph, for estimates of the room left. -/
  averageEdge : Nat
  shelf : Shelf
  /-- The glyphs placed so far, the latest first. -/
  index : List (GlyphKey × Placement)
  /-- Packaged glyphs to upload, in order. -/
  pending : List Job
  /-- The texture on the device. -/
  handle : Option Nat
  deriving Repr

namespace Page

/-- An empty page. The average glyph is taken to be one and a half times as tall as the base
height. -/
def empty (id width height baseHeight : Nat) : Page :=
  ⟨id, width, height, baseHeight + baseHeight / 2, .empty width height, [], [], none⟩

/-- The entry of a glyph. -/
def entry (p : Page) (key : GlyphKey) : Option Placement := p.index.lookup key

/-- Whether `n` more average glyphs would fit. -/
def hasRoom (p : Page) (n : Nat) : Bool :=
  !p.shelf.full && p.shelf.canPack n p.averageEdge p.averageEdge

/-- Takes packaged glyphs for the next upload. -/
def accept (p : Page) (jobs : List Job) : Page := { p with pending := p.pending ++ jobs }

/-- What a page knows about a request: the entry, whether it is new, and the state afterwards. -/
structure Placing where
  placement : Placement
  isNew : Bool
  page : Page
  bench : Bench Nat

/-- The entry shown for a glyph that found no room, and the bench afterwards. -/
def substitute (p : Page) (b : Bench Nat) (size : Int) : Placement × Bench Nat :=
  let (g, stack) := b.stack.placeholder size
  ((p.entry g.key).getD ⟨.blank, .blank, g.metrics⟩, { b with stack := stack.discard g })

/-- Reports a glyph that found no room, unless it is a placeholder itself. -/
def noteUnpacked (p : Page) (b : Bench Nat) (code : Nat) (g : Glyph) : Bench Nat :=
  if g.metrics.valid then
    b.note (.glyphUnpacked code g.picture.width g.picture.height p.width p.height)
  else b

/-- Records a glyph that has a rectangle, and schedules it if it has ink. -/
def enter (p : Page) (b : Bench Nat) (key : GlyphKey) (g : Glyph) (r : Rect) (shelf : Shelf) :
    Placing :=
  let placement : Placement := ⟨r, shelf.coords r, g.metrics⟩
  let p := { p with shelf, index := (key, placement) :: p.index }
  if g.picture.data.isNone then
    ⟨placement, true, p, { b with stack := b.stack.markReady g }⟩
  else
    let (jobs, b) := (b.note (.glyphScheduled key.code p.id)).schedule ⟨p.id, ⟨r, g⟩⟩
    ⟨placement, true, p.accept jobs, b⟩

/-- The entry of a character at a size, made if it does not exist. -/
def place (p : Page) (b : Bench Nat) (c : Char) (size : Int) : Placing :=
  let key : GlyphKey := ⟨c.toNat, size⟩
  match p.entry key with
  | some placement => ⟨placement, false, p, b⟩
  | none =>
    let (g, stack) := b.stack.glyph c size
    let b := { b with stack }
    match p.shelf.pack g.picture.width g.picture.height with
    | (some r, shelf) => p.enter b key g r shelf
    | (none, shelf) =>
      let (placement, b) := p.substitute (p.noteUnpacked b key.code g) size
      ⟨placement, false, { p with shelf }, { b with stack := b.stack.discard g }⟩

/-- The entries of a text, whether any of them is new, and the state afterwards. -/
structure Finding where
  placements : List Placement
  isNew : Bool
  page : Page
  bench : Bench Nat

/-- The entries of the characters of a text at a size, from left to right. -/
def find (p : Page) (b : Bench Nat) (size : Int) : List Char → Finding
  | [] => ⟨[], false, p, b⟩
  | c :: rest =>
    let first := p.place b c size
    let others := find first.page first.bench size rest
    { others with
      placements := first.placement :: others.placements
      isNew := first.isNew || others.isNew }

/-- The calls made to a device, with the device and the font stack afterwards. -/
structure Transfer where
  calls : List DeviceCall
  device : Device
  stack : FontStack

/-- Uploads one packaged glyph and marks it ready. The bytes of its rectangle are uploaded if
the glyph has that many and there is at least one. -/
def uploadJob (handle : Nat) (t : Transfer) (j : Job) : Transfer :=
  let bytes := j.glyph.picture.bytes
  let stack := (t.stack.markReady j.glyph).discard j.glyph
  if 0 < j.rect.area ∧ j.rect.area ≤ bytes.size then
    let bytes := bytes.extract 0 j.rect.area
    ⟨t.calls ++ [.upload handle j.rect bytes], t.device.upload handle j.rect bytes, stack⟩
  else { t with stack }

/-- The texture of the page, made if it does not exist. -/
def ensureHandle (p : Page) (t : Transfer) : Nat × Transfer :=
  match p.handle with
  | some handle => (handle, t)
  | none =>
    let (handle, device) := t.device.allocate p.width p.height
    (handle, { t with calls := t.calls ++ [.allocate p.width p.height handle], device })

/-- Uploads everything that is pending. -/
def upload (p : Page) (t : Transfer) : Page × Transfer :=
  let (handle, t) := p.ensureHandle t
  ({ p with handle := some handle, pending := [] }, p.pending.foldl (uploadJob handle) t)

/-- The text that describes a page. -/
def describe (p : Page) : String :=
  let handle :=
    match p.handle with
    | some h => "Some(TextureHandle(" ++ toString h ++ "))"
    | none => "None"
  "FontTexture \x7b id: " ++ toString p.id ++ ", width: " ++ toString p.width ++ ", height: " ++
    toString p.height ++ ", handle: " ++ handle ++ ", .. \x7d"

end Page

end Typecase
