import Typecase.Glyph

/-!
# Glyph groups

The glyphs on screen together should share a texture. Every request names some characters at
one size, and it is served from a single `GlyphGroup`: a set of glyph keys with one texture.
Only the last group takes new glyphs. Earlier groups are *sealed*, but still serve the requests
that they contain completely.

`GlyphGroups.select` picks the group for a request. It opens a new group when the last one
would reach the ceiling or its texture reports no room. A single group with room for the whole
text is found by `quickPick` without looking at what it contains; `selectPlain` is the choice
without this shortcut.

The textures are of any type: all that is asked of one is whether it has room for a number of
glyphs.
-/

namespace Typecase

/-- Glyph keys that share a texture; the texture is made on first use. -/
structure GlyphGroup (τ : Type) where
  keys : List GlyphKey
  texture : Option τ
  deriving DecidableEq, Repr

namespace GlyphGroup

variable {τ : Type}

/-- A group without glyphs and without a texture. -/
def empty : GlyphGroup τ := ⟨[], none⟩

/-- Whether the group has a character at a size. -/
def has (g : GlyphGroup τ) (c : Char) (size : Int) : Bool := (⟨c.toNat, size⟩ : GlyphKey) ∈ g.keys

/-- The number of characters of a text that the group does not have, repetitions counted. -/
def missing (g : GlyphGroup τ) (text : List Char) (size : Int) : Nat :=
  text.countP fun c => !g.has c size

/-- Whether the texture has room for `n` more glyphs. A texture that was not made yet has. -/
def hasRoom (g : GlyphGroup τ) (room : τ → Nat → Bool) (n : Nat) : Bool :=
  g.texture.all fun t => room t n

/-- Adds the characters of a text at a size. -/
def mark (g : GlyphGroup τ) (text : List Char) (size : Int) : GlyphGroup τ :=
  { g with keys := text.foldl (fun keys c => keys.insert ⟨c.toNat, size⟩) g.keys }

/-- Gives the group a texture if it has none. -/
def attach (g : GlyphGroup τ) (t : τ) : GlyphGroup τ := { g with texture := g.texture.or (some t) }

end GlyphGroup

/-- The groups in the order in which they were opened, and the ceiling that the number of
glyphs in a group stays below. -/
structure GlyphGroups (τ : Type) where
  groups : List (GlyphGroup τ)
  ceiling : Nat
  deriving DecidableEq, Repr

/-- The choice of a group: its number, the groups afterwards and, if a group was sealed, its
number and its number of glyphs. -/
structure GroupChoice (τ : Type) where
  index : Nat
  groups : GlyphGroups τ
  sealed : Option (Nat × Nat)
  deriving DecidableEq, Repr

namespace GlyphGroups

variable {τ : Type}

/-- No groups yet. -/
def empty (ceiling : Nat) : GlyphGroups τ := ⟨[], ceiling⟩

/-- Opens a group at the end. -/
def extend (gs : GlyphGroups τ) : GlyphGroups τ := { gs with groups := gs.groups ++ [.empty] }

/-- The number of the first sealed group that has every character of a text. -/
def sealedWith? (gs : GlyphGroups τ) (text : List Char) (size : Int) : Option Nat :=
  gs.groups.dropLast.findIdx? fun g => g.missing text size == 0

/-- Whether the last group cannot take `n` more glyphs. -/
def mustSeal (gs : GlyphGroups τ) (active : GlyphGroup τ) (room : τ → Nat → Bool) (n : Nat) :
    Bool :=
  gs.ceiling ≤ active.keys.length + n || !active.hasRoom room n

/-- Picks a group by its content: a sealed group with the whole text, else the last group, else
a new one. -/
def selectPlain (gs : GlyphGroups τ) (active : GlyphGroup τ) (room : τ → Nat → Bool)
    (text : List Char) (size : Int) : GroupChoice τ :=
  match gs.sealedWith? text size with
  | some i => ⟨i, gs, none⟩
  | none =>
    if gs.mustSeal active room (active.missing text size) then
      ⟨gs.groups.length, gs.extend, some (gs.groups.length - 1, active.keys.length)⟩
    else ⟨gs.groups.length - 1, gs, none⟩

/-- Whether there is a single group that can take the whole text, whatever it contains. -/
def quickPick (gs : GlyphGroups τ) (active : GlyphGroup τ) (room : τ → Nat → Bool)
    (text : List Char) : Bool :=
  active.hasRoom room text.length && gs.groups.length == 1 &&
    active.keys.length + text.length < gs.ceiling

/-- Picks the group for a text at a size. -/
def select (gs : GlyphGroups τ) (room : τ → Nat → Bool) (text : List Char) (size : Int) :
    GroupChoice τ :=
  match gs.groups.getLast? with
  | none => ⟨0, gs.extend, none⟩
  | some active =>
    if gs.quickPick active room text then ⟨0, gs, none⟩
    else gs.selectPlain active room text size

/-- Adds the characters of a text to a group. -/
def mark (gs : GlyphGroups τ) (i : Nat) (text : List Char) (size : Int) : GlyphGroups τ :=
  { gs with groups := gs.groups.modify i fun g => g.mark text size }

/-- Gives a group a texture if it has none. -/
def attach (gs : GlyphGroups τ) (i : Nat) (t : τ) : GlyphGroups τ :=
  { gs with groups := gs.groups.modify i fun g => g.attach t }

/-- The texture of a group. -/
def textureOf? (gs : GlyphGroups τ) (i : Nat) : Option τ := (gs.groups[i]?).bind (·.texture)

/-- Removes every group. -/
def clear (gs : GlyphGroups τ) : GlyphGroups τ := { gs with groups := [] }

end GlyphGroups

end Typecase
