import Typecase.Atlas.Group
import Typecase.Atlas.Page
import Typecase.Atlas.Settings

/-!
# The glyph atlas

An `Atlas` hands out glyph regions and keeps the textures on a device in step with them.

* `Atlas.lookup` serves a request of several lines from one group: it picks the group, makes
  its page if need be, and finds the entries of every character there.
* `Atlas.update` writes packaged glyphs to the device. It does nothing when packaging is idle
  and nothing was asked for since the last update (`quiet`); it then only says whether frames
  should still be drawn again, which is the case for some time after an upload that may be
  late.
* `Atlas.release` gives everything up. Regions handed out before keep their pages, so pages
  are never removed; the atlas only stops listing them.
* `Atlas.step?` and `Atlas.settle` let the packaging worker go on.
-/

namespace Typecase

/-- A glyph at its place in a page. -/
structure Region where
  page : Nat
  placement : Placement
  deriving Repr

/-- Groups of glyphs with their pages, and the bench they draw on. -/
structure Atlas where
  settings : AtlasSettings
  bench : Bench Nat
  groups : GlyphGroups Nat
  /-- Every page ever made, by number. -/
  pages : List Page
  /-- The numbers of the pages that are kept up to date, in order. -/
  listed : List Nat
  /-- Nothing was asked for since the last update. -/
  quiet : Bool
  released : Bool

namespace Atlas

/-- An atlas over a font stack, which packages in place or leaves it to a worker. -/
def ofStack (settings : AtlasSettings) (stack : FontStack) (packager : Packager Nat) : Atlas :=
  let maxGlyphs := settings.maxGlyphs stack.baseHeight
  { settings
    bench := ⟨stack, packager, stack.scale, [.atlasSized settings.textureSize maxGlyphs]⟩
    groups := .empty maxGlyphs
    pages := []
    listed := []
    quiet := false
    released := false }

/-- The number that the glyphs in one group stay below. -/
def maxGlyphs (a : Atlas) : Nat := a.groups.ceiling

/-- The number of groups. -/
def groupCount (a : Atlas) : Nat := a.groups.groups.length

/-- The number of pages that are kept up to date. -/
def textureCount (a : Atlas) : Nat := a.listed.length

/-- The page with a number. -/
def page? (a : Atlas) (id : Nat) : Option Page := a.pages[id]?

/-- Whether a page has room for `n` more glyphs. -/
def hasRoom (a : Atlas) (id n : Nat) : Bool := (a.page? id).all fun p => p.hasRoom n

/-- Adds a notice. -/
def note (a : Atlas) (n : Notice) : Atlas := { a with bench := a.bench.note n }

/-- Replaces a page. -/
def setPage (a : Atlas) (id : Nat) (p : Page) : Atlas := { a with pages := a.pages.set id p }

/-! ### Requests -/

/-- Picks the group of a request and marks its characters there, line by line. -/
def choose (a : Atlas) (lines : List (List Char)) (size : Int) : Nat × Atlas :=
  let choice := a.groups.select a.hasRoom lines.flatten size
  let groups := lines.foldl (fun gs line => gs.mark choice.index line size) choice.groups
  let a := { a with groups }
  (choice.index, match choice.sealed with
    | some (i, n) => a.note (.groupSealed i n)
    | none => a)

/-- Makes a page for a group. -/
def allocate (a : Atlas) (group : Nat) : Nat × Atlas :=
  let id := a.pages.length
  let size := a.settings.textureSize
  let a := { a with
    pages := a.pages ++ [Page.empty id size size a.bench.stack.baseHeight]
    listed := a.listed ++ [id]
    groups := a.groups.attach group id
    quiet := false }
  (id, a.note (.textureAllocated id))

/-- The page of a group, made if it does not exist. -/
def pageOf (a : Atlas) (group : Nat) : Nat × Atlas :=
  match a.groups.textureOf? group with
  | some id => (id, a)
  | none => a.allocate group

/-- The regions of one line in a page. -/
def regionsIn (a : Atlas) (id : Nat) (size : Int) (line : List Char) : List Region × Atlas :=
  match a.page? id with
  | none => ([], a)
  | some p =>
    let f := p.find a.bench size line
    (f.placements.map fun placement => ⟨id, placement⟩,
      { a.setPage id f.page with bench := f.bench, quiet := a.quiet && !f.isNew })

/-- The regions of several lines in a page, from the first line on. -/
def regionsOfLines (a : Atlas) (id : Nat) (size : Int) :
    List (List Char) → List (List Region) × Atlas
  | [] => ([], a)
  | line :: rest =>
    let (first, a) := a.regionsIn id size line
    let (others, a) := a.regionsOfLines id size rest
    (first :: others, a)

/-- The regions of several lines, which all share one page. A released atlas has none. -/
def lookup (a : Atlas) (lines : List (List Char)) (size : Int) : List (List Region) × Atlas :=
  if a.released then ([], a.note .lookupAfterRelease)
  else
    let (group, a) := a.choose lines size
    let (id, a) := a.pageOf group
    a.regionsOfLines id size lines

/-- The regions of one text. -/
def regions (a : Atlas) (text : List Char) (size : Int) : List Region × Atlas :=
  let (lines, a) := a.lookup [text] size
  (lines.getLast?.getD [], a)

/-- Whether every character of a text is ready at a size. -/
def areReady (a : Atlas) (text : List Char) (size : Int) : Bool := a.bench.stack.areReady text size

/-! ### Packaging -/

/-- Whether packaging is under way. -/
def isPackaging (a : Atlas) : Bool := !a.bench.packager.isSuspended

/-- Hands packaged glyphs to the page that asked for them. -/
def receive (a : Atlas) (d : Delivery Nat) : Atlas :=
  { a with pages := a.pages.modify d.listener fun p => p.accept d.jobs }

/-- One step of the packaging worker, if it can go on. -/
def step? (a : Atlas) : Option Atlas :=
  a.bench.step?.map fun r =>
    r.1.elim { a with bench := r.2 } fun d => { a.receive d with bench := r.2 }

/-- Lets the packaging worker go on until it waits. -/
def settle (a : Atlas) : Atlas :=
  let (deliveries, bench) := a.bench.settle
  { deliveries.foldl receive a with bench }

/-! ### Updates -/

/-- How an update begins: it is passed over, or it goes on. When packaging is idle, the atlas
is quiet from then on. -/
def gate (a : Atlas) : Bool × Atlas :=
  if a.isPackaging then (false, a) else (a.quiet, { a with quiet := true })

/-- Uploads what is pending for the pages with the given numbers. -/
def uploadPages (a : Atlas) (t : Page.Transfer) : List Nat → Atlas × Page.Transfer
  | [] => (a, t)
  | id :: rest =>
    match a.page? id with
    | none => a.uploadPages t rest
    | some p =>
      let (p, t) := p.upload t
      (a.setPage id p).uploadPages t rest

/-- The outcome of an update: whether the frame should be drawn again, the calls made to the
device, and the state afterwards. -/
structure Update where
  redraw : Bool
  calls : List DeviceCall
  atlas : Atlas
  device : Device

/-- Brings the textures on a device up to date. The device says whether uploads can be seen at
once (`sync`); `elapsed` is the time in seconds since the last update that was not passed
over. -/
def update (a : Atlas) (d : Device) (sync : Bool) (elapsed : Nat) : Update :=
  let (passed, a) := a.gate
  if passed then ⟨!sync && elapsed < a.settings.timeout, [], a, d⟩
  else if a.released then ⟨false, [], a, d⟩
  else
    let (a, t) := a.uploadPages ⟨[], d, a.bench.stack⟩ a.listed
    ⟨true, t.calls ++ [.flush], { a with bench := { a.bench with stack := t.stack } }, t.device⟩

/-! ### Release -/

/-- Cancels packaging and drops every group; no page is listed any more. -/
def release (a : Atlas) : Atlas :=
  let (deliveries, bench) := a.bench.shutDown
  { deliveries.foldl receive a with
    bench
    groups := a.groups.clear
    listed := []
    quiet := true
    released := true }

/-- The text that describes an atlas. -/
def describe (a : Atlas) : String :=
  "TextureManager \x7b config: " ++ a.settings.describe ++ ", max_glyphs: " ++
    toString a.maxGlyphs ++ ", groups: " ++ toString a.groupCount ++ ", textures: " ++
    toString a.textureCount ++ ", nothing_to_upload: " ++ toString a.quiet ++ ", .. \x7d"

end Atlas

end Typecase
