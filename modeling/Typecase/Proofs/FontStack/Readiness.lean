import Typecase.Proofs.FontStack.Picking

/-!
# Which drawing is ready

A drawing is recorded as ready under the number of a font and a key, and both are those of the
glyph that was drawn. They are not enough to tell from which request the glyph came: a distance
field of any size has the same key, and the placeholder has the number of the first font and the
key of `placeholderCode`. But they are enough to tell what was drawn.

* **Picked fonts.** The font picked for a character can depend on the block that is remembered, but
  not if the character has a font without memory as well (`canPick_fontFor`).
* **Drawings.** `Draws` says which finished drawings there are for a key. Those that are recorded
  under the number of the font of a character, and under its code point, all have the picture of
  the drawing that the font makes of the character (`Draws.picture_eq`).
* **Records.** Marking a glyph records one drawing, of a font that exists (`isReady_markReady`);
  nothing else that a stack does touches the record.
-/

namespace Typecase

/-- In spaced blocks a look-up with memory settles on the block that bisection finds, if it finds
one. -/
theorem Coverage.blockFor?_of_find? {c : Coverage} {code i : Nat}
    (h : Block.IsSpaced c.blocks) (hi : Block.find? c.blocks code = some i) :
    c.blockFor? code = some i := by
  obtain ⟨b, hb, hmem⟩ := Block.mem_of_find? hi
  rw [blockFor?]
  cases hh : c.hinted? code with
  | none => rw [Option.none_or, hi]
  | some j =>
    obtain ⟨-, a, ha, hmem'⟩ := hinted?_eq_some_iff.mp hh
    rw [Option.some_or, h.index_unique ha hb hmem' hmem]

namespace FontStack

variable {s t : FontStack} {c : Char} {size : Int} {font : Option Nat} {i : Nat} {g : Glyph}
  {key : GlyphKey}

/-! ### Picked fonts -/

/-- A font, or none, can be picked for a character. Only the memory of the stack is left open. -/
structure CanPick (s : FontStack) (c : Char) (font : Option Nat) : Prop where
  stateless : ∀ i, s.fontForStateless c = some i → font = some i
  lt : ∀ i, font = some i → i < s.fonts.length

theorem lt_of_font_chooseAt {cov : Coverage} {block : Option Nat} {code : Nat}
    (h : (cov.chooseAt block (s.hasGlyph code)).font = some i) : i < s.fonts.length := by
  cases block with
  | none => contradiction
  | some n =>
    obtain ⟨hhas, -⟩ := Choice.font_descend_sound h
    obtain ⟨f, hf, -⟩ := hasGlyph_eq_true_iff.mp hhas
    exact (List.getElem?_eq_some_iff.mp hf).1

/-- **What is picked, whatever is remembered**: the font that is picked without memory, if there is
one. -/
theorem canPick_fontFor (h : Block.IsSpaced s.coverage.blocks) (c : Char) :
    s.CanPick c (s.fontFor c).1 := by
  have hfont : (s.fontFor c).1 =
      (s.coverage.chooseAt (s.coverage.blockFor? c.toNat) (s.hasGlyph c.toNat)).font := by
    change (s.coverage.resolve c.toNat _).1.font = _
    rw [Coverage.resolve_eq]
  constructor
  case stateless =>
    intro i hi
    rw [fontForStateless, Coverage.resolveStateless_eq] at hi
    cases hfound : Block.find? s.coverage.blocks c.toNat with
    | none =>
      rw [hfound] at hi
      contradiction
    | some n => rw [hfont, Coverage.blockFor?_of_find? h hfound, ← hfound, hi]
  case lt =>
    intro i hi
    rw [hfont] at hi
    exact lt_of_font_chooseAt hi

theorem lt_of_fontForStateless (h : s.fontForStateless c = some i) : i < s.fonts.length := by
  rw [fontForStateless, Coverage.resolveStateless_eq] at h
  exact lt_of_font_chooseAt h

theorem CanPick.bare (h : s.CanPick c font) : s.bare.CanPick c font where
  stateless i hi := h.stateless i (fontForStateless_bare s c ▸ hi)
  lt i hi := (List.length_map _).symm ▸ h.lt i hi

/-- The blocks of a new stack are spaced, whatever blocks it was given. -/
theorem isSpaced_build (settings : Settings) (opener : Opener) :
    Block.IsSpaced (build settings opener).1.bare.coverage.blocks :=
  (blocks_build settings opener).symm ▸ Block.isSpaced_kept_arrange settings.blocks

/-! ### Drawings -/

/-- The glyph that is drawn for a character with the font picked for it, or its stand-in, packaged
for a texture. -/
def finishedAs (s : FontStack) (font : Option Nat) (c : Char) (size : Int) : Glyph :=
  (package (s.drawAs font c size).1 s.scale .empty).1

/-- A finished drawing for a key. -/
def Draws (s : FontStack) (key : GlyphKey) (g : Glyph) : Prop :=
  ∃ c font, key.code = c.toNat ∧ key.size < 0x80000000 ∧ s.CanPick c font ∧
    g = s.finishedAs font c key.size

/-- The size under which a drawing is recorded: distance fields of all sizes are one. -/
def recordedSize (size : Int) : Int := if isFieldSize size then fieldSize else size

/-- The field placeholder is the one that the first font draws, if there is a font. -/
def HasOwnPlaceholder (s : FontStack) : Prop :=
  ∀ f rest, s.fonts = f :: rest →
    s.fieldPlaceholder = (drawPlaceholder f s.baseHeight true .empty).1

theorem hasOwnPlaceholder_build (settings : Settings) (opener : Opener) :
    (build settings opener).1.bare.HasOwnPlaceholder := by
  intro f rest h
  obtain ⟨f', rest', hfonts, hf, -⟩ := List.map_eq_cons_iff.mp h
  subst hf
  have hown := fieldPlaceholder_build hfonts
  exact hown

theorem finishedAs_bare (h : s.pool.IsTidy) (font : Option Nat) (c : Char) (size : Int) :
    s.bare.finishedAs font c size = s.finishedAs font c size := by
  rw [finishedAs, finishedAs, fst_drawAs h]
  rfl

/-- A size and the size that it is recorded under ask for the same drawing. -/
theorem drawAs_recordedSize (s : FontStack) (font : Option Nat) (c : Char) (size : Int) :
    s.drawAs font c (recordedSize size) = s.drawAs font c size := by
  rw [recordedSize]
  split
  · rename_i hfield
    cases font with
    | none =>
      simp only [drawAs, placeholder, hfield, ↓reduceIte]
      rfl
    | some i =>
      simp only [drawAs, hfield, ↓reduceIte]
      rfl
  · rfl

/-- A pixel height below two to the thirty-first is its own fixed size. -/
theorem sizeOfHeight_natAbs (h : size < 0x80000000) (hpos : isFieldSize size = false) :
    OpenFont.sizeOfHeight size.natAbs = size := by
  have hpos : 0 ≤ size := by simpa [isFieldSize] using hpos
  have hlt : size.natAbs < 0x80000000 := by omega
  rw [OpenFont.sizeOfHeight, if_pos hlt]
  omega

/-- What a font draws of a character is recorded under both of them. -/
theorem record_drawAs_some (hi : i < s.fonts.length) (hsize : size < 0x80000000) (c : Char) :
    (s.drawAs (some i) c size).1.font = i ∧
      (s.drawAs (some i) c size).1.key = ⟨c.toNat, recordedSize size⟩ := by
  rw [drawAs, recordedSize]
  split
  · rename_i hfield
    rw [drawWith, List.getElem?_eq_getElem hi]
    exact ⟨rfl, rfl⟩
  · rename_i hfield
    have hfield : isFieldSize size = false := by simpa using hfield
    rw [drawWith, List.getElem?_eq_getElem hi]
    refine ⟨rfl, ?_⟩
    change (⟨c.toNat, OpenFont.sizeOfHeight size.natAbs⟩ : GlyphKey) = _
    rw [sizeOfHeight_natAbs hsize hfield]

/-- **The placeholder is recorded as a drawing of the first font**, and has the picture of one. -/
theorem record_drawAs_none (hown : s.HasOwnPlaceholder) (htidy : s.pool.IsTidy)
    (hfonts : s.fonts ≠ []) (hsize : size < 0x80000000) (c : Char) :
    (s.drawAs none c size).1.font = 0 ∧
      (s.drawAs none c size).1.key = ⟨placeholderCode, recordedSize size⟩ ∧
      (s.drawAs none c size).1.picture =
        (s.drawAs (some 0) (Char.ofNat placeholderCode) size).1.picture := by
  obtain ⟨f, rest, hf⟩ := List.exists_cons_of_ne_nil hfonts
  have hdraw : ∀ height field, (s.drawWith 0 placeholderCode height field).1.picture =
      (f.draw placeholderCode height field .empty).1.picture := by
    intro height field
    have hfirst : s.fonts[0]? = some f := by rw [hf]; rfl
    have hglyph := f.fst_draw placeholderCode height field htidy
    rw [drawWith, hfirst, ← hglyph]
  have hcode : (Char.ofNat placeholderCode).toNat = placeholderCode := by decide
  rw [drawAs, drawAs, recordedSize, hcode]
  split
  · rename_i hfield
    have hcopy : (s.placeholder size).1 = (drawPlaceholder f s.baseHeight true .empty).1 := by
      simp only [placeholder, hfield, ↓reduceIte]
      rw [Glyph.fst_copy htidy]
      exact hown f rest hf
    rw [hcopy, hdraw]
    exact ⟨rfl, rfl, rfl⟩
  · rename_i hfield
    have hnew : (s.placeholder size).1 = (drawPlaceholder f size.natAbs false s.pool).1 := by
      simp only [placeholder, hfield, hf]
      rfl
    rw [hnew, fst_drawPlaceholder f _ _ htidy, hdraw]
    refine ⟨rfl, ?_, rfl⟩
    change (⟨placeholderCode, OpenFont.sizeOfHeight size.natAbs⟩ : GlyphKey) = _
    rw [sizeOfHeight_natAbs hsize (by simpa using hfield)]

/-! ### Finished drawings -/

/-- Packaging keeps what a glyph is recorded under. -/
theorem record_package (g : Glyph) (scale : Nat) (p : Pool) :
    (package g scale p).1.font = g.font ∧ (package g scale p).1.key = g.key := by
  unfold package
  cases g.picture.data with
  | none => exact ⟨rfl, rfl⟩
  | some data => exact ⟨rfl, rfl⟩

/-- The packaged picture depends on the picture and on the mode of a glyph. -/
theorem picture_package_congr {g g' : Glyph} (hp : g.picture = g'.picture)
    (hf : g.isField = g'.isField) (scale : Nat) (p : Pool) :
    (package g scale p).1.picture = (package g' scale p).1.picture := by
  unfold package
  rw [hp, hf]
  cases g'.picture.data with
  | none => exact hp
  | some data => rfl

/-- **What is recorded tells what was drawn.** If a finished drawing is recorded under the number
of the font of a character, under its code point and a size, then its picture is the one that the
font gives for the character at that size. -/
theorem Draws.picture_eq (h : s.Draws key g) (hown : s.HasOwnPlaceholder) (htidy : s.pool.IsTidy)
    (hfont : s.fontForStateless c = some g.font) (hkey : g.key = ⟨c.toNat, size⟩) :
    g.picture = (s.finishedAs (some g.font) c size).picture := by
  obtain ⟨d, font, -, hsize, hpick, rfl⟩ := h
  have hlt : (s.finishedAs font d key.size).font < s.fonts.length := lt_of_fontForStateless hfont
  obtain ⟨hpackedFont, hpackedKey⟩ := record_package (s.drawAs font d key.size).1 s.scale .empty
  rw [finishedAs] at hfont hkey hlt ⊢
  rw [hpackedFont] at hfont hlt ⊢
  rw [hpackedKey] at hkey
  cases font with
  | some i =>
    obtain ⟨hi, hk⟩ := record_drawAs_some (hpick.lt i rfl) hsize d
    rw [hk] at hkey
    obtain ⟨hcode, hsame⟩ := GlyphKey.mk.inj hkey
    have hcd : d = c := Char.toNat_inj.mp hcode
    rw [hi, ← hsame, finishedAs, drawAs_recordedSize, hcd]
  | none =>
    have hne : s.fonts ≠ [] := List.ne_nil_of_length_pos (Nat.zero_lt_of_lt hlt)
    obtain ⟨hi, hk, hp⟩ := record_drawAs_none hown htidy hne hsize d
    rw [hk] at hkey
    obtain ⟨hcode, hsame⟩ := GlyphKey.mk.inj hkey
    have hc : c = Char.ofNat placeholderCode := by rw [← Char.ofNat_toNat c, hcode]
    have hfirst : 0 < s.fonts.length := Nat.zero_lt_of_lt hlt
    obtain ⟨-, hk'⟩ := record_drawAs_some (s := s) hfirst hsize (Char.ofNat placeholderCode)
    rw [hi, ← hsame, finishedAs, drawAs_recordedSize, hc]
    refine picture_package_congr hp ?_ _ _
    rw [Glyph.isField, Glyph.isField, hk, hk']

/-- Of a character that has a font without memory there is one finished drawing at a size. -/
theorem Draws.eq_finishedAs (h : s.Draws ⟨c.toNat, size⟩ g)
    (hfont : s.fontForStateless c = some i) : g = s.finishedAs (some i) c size := by
  obtain ⟨d, font, hcode, -, hpick, rfl⟩ := h
  obtain rfl : c = d := Char.toNat_inj.mp hcode
  rw [hpick.stateless i hfont]

/-- A finished drawing with ink has a byte for each of its pixels. -/
theorem Draws.area_le (h : s.Draws key g) (hs : s.IsSound) (hink : g.picture.data.isSome) :
    g.picture.width * g.picture.height ≤ g.picture.bytes.size := by
  obtain ⟨c, font, -, -, -, rfl⟩ := h
  obtain ⟨hwidth, hheight, hdata⟩ := shape_package (s.drawAs font c key.size).1 s.scale .empty
  rw [finishedAs] at hink ⊢
  rw [hwidth, hheight]
  exact area_le_package _ _ Pool.isTidy_empty (isFilled_drawAs hs font c key.size) (hdata ▸ hink)

/-! ### Records -/

/-- Two stacks that differ in their memory only have the same number of fonts. -/
theorem length_fonts_of_bare_eq (h : s.bare = t.bare) : s.fonts.length = t.fonts.length := by
  have hfonts : s.bare.fonts.length = t.bare.fonts.length := by rw [h]
  simpa [FontStack.bare] using hfonts

theorem isReady_eq_of_fonts (h : s.fonts = t.fonts) : s.isReady = t.isReady := by
  funext i key
  rw [isReady, h, isReady]

theorem fonts_placeholder (s : FontStack) (size : Int) : (s.placeholder size).2.fonts = s.fonts := by
  rw [placeholder]
  split
  · rfl
  · split <;> rfl

theorem fonts_glyph (s : FontStack) (c : Char) (size : Int) : (s.glyph c size).2.fonts = s.fonts := by
  rw [glyph_eq_drawAs]
  cases (s.fontFor c).1 with
  | none => exact fonts_placeholder _ size
  | some i =>
    rw [drawAs]
    split <;> rw [drawWith] <;> split <;> rfl

/-- No drawing of a new stack is ready. -/
theorem isReady_build (settings : Settings) (opener : Opener) (i : Nat) (key : GlyphKey) :
    (build settings opener).1.isReady i key = false := by
  have hfonts := (fonts_build settings opener).trans (Opening.ofSettings_eq settings opener).1
  rw [isReady, hfonts]
  refine Bool.eq_false_iff.mpr fun h => ?_
  obtain ⟨f, hf, hready⟩ := (Option.any_eq_true _ _).mp h
  obtain ⟨source, -, hopen⟩ := mem_openAll (List.mem_of_getElem? hf)
  rw [OpenFont.isReady, (ofSource_eq_ok hopen).2.2] at hready
  contradiction

/-- **Marking a glyph records one drawing**, of a font that exists. -/
theorem isReady_markReady (s : FontStack) (g : Glyph) (i : Nat) (key : GlyphKey) :
    (s.markReady g).isReady i key = true ↔
      s.isReady i key = true ∨ i < s.fonts.length ∧ g.font = i ∧ g.key = key := by
  have hrecord : ∀ f : OpenFont, (f.markReady g.key).isReady key = true ↔
      key = g.key ∨ f.isReady key = true := by
    intro f
    rw [OpenFont.isReady_markReady, Bool.or_eq_true, beq_iff_eq]
  rw [isReady, isReady, markReady, List.getElem?_modify]
  cases hf : s.fonts[i]? with
  | none =>
    have hi : s.fonts.length ≤ i := List.getElem?_eq_none_iff.mp hf
    simp only [Option.map_eq_map, Option.map_none, Option.any_none]
    exact iff_of_false (by simp) fun h => h.elim (by simp) fun h => absurd h.1 (Nat.not_lt.mpr hi)
  | some f =>
    have hi : i < s.fonts.length := (List.getElem?_eq_some_iff.mp hf).1
    simp only [Option.map_eq_map, Option.map_some, Option.any_some, hi, true_and]
    by_cases hfont : g.font = i
    · rw [if_pos hfont, hrecord]
      exact ⟨fun h => h.symm.imp_right fun h => ⟨hfont, h.symm⟩,
        fun h => h.symm.imp_left fun h => h.2.symm⟩
    · simp only [hfont, false_and, or_false]
      rfl

end FontStack

end Typecase
