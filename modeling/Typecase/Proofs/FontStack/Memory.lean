import Typecase.Proofs.Coverage.History
import Typecase.Proofs.FontStack.Drawing

/-!
# What a font stack remembers

A font stack remembers free buffers, the block of the last look-up and the drawings that are
ready. `FontStack.bare` is the stack without these, and every operation leaves the bare stack as it
is: only the memory changes.

* **Drawing.** With a tidy pool, what is drawn or packaged does not depend on the free buffers. It
  does not depend on the last block either if the blocks are searchable, and it never depends on
  the drawings that are ready. So `glyph` gives what the bare stack gives (`fst_glyph`), and so does
  `finished`, which packages the drawing as well (`finished_bare`).
* **Soundness.** `IsSound` collects what the operations keep: the pool is tidy, a block is
  remembered only after bisection found it, and the placeholder kept as a distance field is one.
  A stack that was just built is sound (`isSound_build`).
* **Size.** A finished drawing with ink has a byte for each of its pixels (`area_le_finished`).
-/

namespace Typecase

namespace Coverage

/-! ### The remembered block -/

/-- A block is remembered only after bisection found it for some character. -/
def IsFamiliar (c : Coverage) : Prop :=
  ∀ i, c.hint = some i → ∃ d : Char, Block.find? c.blocks d.toNat = some i

/-- In searchable blocks a look-up with memory settles on the block that bisection finds. -/
theorem IsFamiliar.blockFor?_eq_find? {c : Coverage} (h : c.IsFamiliar)
    (hs : Block.IsSearchable c.blocks) (d : Char) :
    c.blockFor? d.toNat = Block.find? c.blocks d.toNat := by
  rw [blockFor?]
  cases hh : c.hinted? d.toNat with
  | none => rw [Option.none_or]
  | some i =>
    obtain ⟨hhint, b, hb, hmem⟩ := hinted?_eq_some_iff.mp hh
    obtain ⟨e, he⟩ := h i hhint
    rw [Option.some_or, hs e d i b he hb hmem]

theorem IsFamiliar.resolve {c : Coverage} (h : c.IsFamiliar) (d : Char) (has : Nat → Bool) :
    (c.resolve d.toNat has).2.IsFamiliar := by
  intro i hi
  rw [blocks_resolve]
  rw [resolve_eq] at hi
  rcases Option.or_eq_some_iff.mp hi with hb | ⟨-, hhint⟩
  · rcases Option.or_eq_some_iff.mp hb with hh | ⟨-, hf⟩
    · exact h i (hinted?_eq_some_iff.mp hh).1
    · exact ⟨d, hf⟩
  · exact h i hhint

end Coverage

namespace FontStack

variable {s t : FontStack} {c : Char} {size : Int}

/-- The stack without what it remembers: no free buffers, no last block, no drawing ready. -/
def bare (s : FontStack) : FontStack :=
  { s with
    fonts := s.fonts.map fun f => { f with ready := [] }
    coverage := { s.coverage with hint := none }
    pool := .empty }

@[simp] theorem bare_bare (s : FontStack) : s.bare.bare = s.bare := by
  simp [bare, Function.comp_def]

theorem getElem?_bare_fonts (s : FontStack) (i : Nat) :
    s.bare.fonts[i]? = (s.fonts[i]?).map fun f => { f with ready := [] } := List.getElem?_map

/-! ### What an operation leaves alone -/

@[simp] theorem bare_discard (s : FontStack) (g : Glyph) : (s.discard g).bare = s.bare := rfl

@[simp] theorem bare_markReady (s : FontStack) (g : Glyph) : (s.markReady g).bare = s.bare := by
  -- the font changes in its drawings that are ready, which the bare stack leaves out
  have hfonts : (s.markReady g).bare.fonts = s.bare.fonts := by
    refine List.ext_getElem? fun i => ?_
    rw [getElem?_bare_fonts, getElem?_bare_fonts, markReady, List.getElem?_modify]
    cases s.fonts[i]? with
    | none => rfl
    | some f =>
      simp only [Option.map_some, Option.map_eq_map]
      split <;> rfl
  change { s.bare with fonts := (s.markReady g).bare.fonts } = s.bare
  rw [hfonts]

@[simp] theorem bare_fontFor (s : FontStack) (c : Char) : (s.fontFor c).2.bare = s.bare := by
  simp [fontFor, bare]

@[simp] theorem bare_drawWith (s : FontStack) (i code height : Nat) (field : Bool) :
    (s.drawWith i code height field).2.bare = s.bare := by
  rw [drawWith]
  split <;> rfl

@[simp] theorem bare_placeholder (s : FontStack) (size : Int) :
    (s.placeholder size).2.bare = s.bare := by
  rw [placeholder]
  split
  · rfl
  · split <;> rfl

/-- Draws a character with the font picked for it, or its stand-in. -/
def drawAs (s : FontStack) (font : Option Nat) (c : Char) (size : Int) : Glyph × FontStack :=
  match font with
  | none => s.placeholder size
  | some i =>
    if isFieldSize size then s.drawWith i c.toNat s.baseHeight true
    else s.drawWith i c.toNat size.natAbs false

theorem glyph_eq_drawAs (s : FontStack) (c : Char) (size : Int) :
    s.glyph c size = (s.fontFor c).2.drawAs (s.fontFor c).1 c size := by
  unfold glyph drawAs
  rcases s.fontFor c with ⟨_ | i, t⟩ <;> rfl

@[simp] theorem bare_drawAs (s : FontStack) (font : Option Nat) (c : Char) (size : Int) :
    (s.drawAs font c size).2.bare = s.bare := by
  cases font with
  | none => exact bare_placeholder s size
  | some i =>
    rw [drawAs]
    split <;> exact bare_drawWith s _ _ _ _

@[simp] theorem bare_glyph (s : FontStack) (c : Char) (size : Int) :
    (s.glyph c size).2.bare = s.bare := by
  rw [glyph_eq_drawAs, bare_drawAs, bare_fontFor]

/-! ### Drawing with a tidy pool -/

theorem fst_drawWith (h : s.pool.IsTidy) (i code height : Nat) (field : Bool) :
    (s.drawWith i code height field).1 = (s.bare.drawWith i code height field).1 := by
  unfold drawWith
  rw [getElem?_bare_fonts]
  cases s.fonts[i]? with
  | none => rfl
  | some f =>
    change ({ (f.draw code height field s.pool).1 with font := i } : Glyph) = _
    rw [f.fst_draw code height field h]
    rfl

theorem isTidy_drawWith (h : s.pool.IsTidy) (i code height : Nat) (field : Bool) :
    (s.drawWith i code height field).2.pool.IsTidy := by
  rw [drawWith]
  split
  · exact OpenFont.isTidy_draw _ code height field h
  · exact h

theorem fst_drawPlaceholder (f : OpenFont) (height : Nat) (field : Bool) {p : Pool}
    (h : p.IsTidy) : (drawPlaceholder f height field p).1 =
      (drawPlaceholder f height field .empty).1 := by
  change (f.draw placeholderCode height field p).1.asPlaceholder = _
  rw [f.fst_draw placeholderCode height field h]
  rfl

/-- The stand-in is the one that the bare stack gives. -/
theorem fst_placeholder (h : s.pool.IsTidy) (size : Int) :
    (s.placeholder size).1 = (s.bare.placeholder size).1 := by
  have hcopy : (s.fieldPlaceholder.copy s.pool).1 = (s.fieldPlaceholder.copy .empty).1 := by
    rw [Glyph.fst_copy h, Glyph.fst_copy Pool.isTidy_empty]
  unfold placeholder
  cases isFieldSize size with
  | true => exact hcopy
  | false =>
    cases hf : s.fonts with
    | nil =>
      simp only [bare, hf, List.map_nil, Bool.false_eq_true, ↓reduceIte]
      rw [hcopy]
    | cons f rest =>
      simp only [bare, hf, List.map_cons, Bool.false_eq_true, ↓reduceIte]
      exact fst_drawPlaceholder f size.natAbs false h

theorem isTidy_placeholder (h : s.pool.IsTidy) (size : Int) :
    (s.placeholder size).2.pool.IsTidy := by
  rw [placeholder]
  split
  · exact Glyph.isTidy_copy h _
  · split
    · exact OpenFont.isTidy_draw _ placeholderCode size.natAbs false h
    · exact Glyph.isTidy_copy h _

theorem fst_drawAs (h : s.pool.IsTidy) (font : Option Nat) (c : Char) (size : Int) :
    (s.drawAs font c size).1 = (s.bare.drawAs font c size).1 := by
  unfold drawAs
  cases font with
  | none => exact fst_placeholder h size
  | some i =>
    dsimp only
    split
    · exact fst_drawWith h i c.toNat s.baseHeight true
    · exact fst_drawWith h i c.toNat size.natAbs false

theorem isTidy_drawAs (h : s.pool.IsTidy) (font : Option Nat) (c : Char) (size : Int) :
    (s.drawAs font c size).2.pool.IsTidy := by
  cases font with
  | none => exact isTidy_placeholder h size
  | some i =>
    rw [drawAs]
    split <;> exact isTidy_drawWith h _ _ _ _

theorem isTidy_glyph (h : s.pool.IsTidy) (c : Char) (size : Int) :
    (s.glyph c size).2.pool.IsTidy := by
  have hpool : (s.fontFor c).2.pool.IsTidy := h
  rw [glyph_eq_drawAs]
  exact isTidy_drawAs hpool _ c size

/-! ### Soundness -/

/-- What every operation keeps of a stack. -/
structure IsSound (s : FontStack) : Prop where
  tidy : s.pool.IsTidy
  familiar : s.coverage.IsFamiliar
  field : s.fieldPlaceholder.isField = true
  inkless : s.fonts = [] → s.fieldPlaceholder.picture.data = none

/-- A stack with the same bare stack is sound as soon as its own memory is. -/
theorem IsSound.of_bare_eq (h : s.IsSound) (hb : t.bare = s.bare) (ht : t.pool.IsTidy)
    (hf : t.coverage.IsFamiliar) : t.IsSound where
  tidy := ht
  familiar := hf
  field := by
    have hp : t.bare.fieldPlaceholder = s.bare.fieldPlaceholder := by rw [hb]
    exact (congrArg Glyph.isField hp).trans h.field
  inkless hnil := by
    have hfonts : t.bare.fonts = s.bare.fonts := by rw [hb]
    have hp : t.bare.fieldPlaceholder = s.bare.fieldPlaceholder := by rw [hb]
    have hs : s.fonts = [] := by simpa [bare, hnil] using hfonts.symm
    exact (congrArg (·.picture.data) hp).trans (h.inkless hs)

theorem IsSound.discard (h : s.IsSound) (g : Glyph) : (s.discard g).IsSound :=
  h.of_bare_eq (bare_discard s g) (Glyph.isTidy_discard h.tidy g) h.familiar

theorem IsSound.markReady (h : s.IsSound) (g : Glyph) : (s.markReady g).IsSound :=
  h.of_bare_eq (bare_markReady s g) h.tidy h.familiar

theorem IsSound.withPool (h : s.IsSound) {p : Pool} (hp : p.IsTidy) :
    { s with pool := p }.IsSound := h.of_bare_eq rfl hp h.familiar

theorem coverage_placeholder (s : FontStack) (size : Int) :
    (s.placeholder size).2.coverage = s.coverage := by
  rw [FontStack.placeholder]
  split
  · rfl
  · split <;> rfl

theorem coverage_drawAs (s : FontStack) (font : Option Nat) (c : Char) (size : Int) :
    (s.drawAs font c size).2.coverage = s.coverage := by
  cases font with
  | none => exact coverage_placeholder s size
  | some i =>
    rw [drawAs]
    split <;> rw [drawWith] <;> split <;> rfl

theorem IsSound.placeholder (h : s.IsSound) (size : Int) : (s.placeholder size).2.IsSound :=
  h.of_bare_eq (bare_placeholder s size) (isTidy_placeholder h.tidy size)
    (by rw [coverage_placeholder]; exact h.familiar)

/-- Drawing a character remembers its block, and no other. -/
theorem coverage_glyph (s : FontStack) (c : Char) (size : Int) :
    (s.glyph c size).2.coverage = (s.coverage.resolve c.toNat (s.hasGlyph c.toNat)).2 := by
  rw [glyph_eq_drawAs, coverage_drawAs]
  rfl

theorem IsSound.glyph (h : s.IsSound) (c : Char) (size : Int) : (s.glyph c size).2.IsSound := by
  refine h.of_bare_eq (bare_glyph s c size) (isTidy_glyph h.tidy c size) ?_
  rw [coverage_glyph]
  exact h.familiar.resolve c _

/-! ### What is drawn -/

/-- Without a trace of earlier look-ups the font picked is the stateless one. -/
theorem fst_fontFor (h : s.IsSound) (hs : Block.IsSearchable s.coverage.blocks) (c : Char) :
    (s.fontFor c).1 = s.fontForStateless c := by
  change (s.coverage.resolve c.toNat _).1.font = _
  rw [Coverage.resolve_eq, h.familiar.blockFor?_eq_find? hs, fontForStateless,
    Coverage.resolveStateless_eq]

theorem hasGlyph_bare (s : FontStack) (code : Nat) : s.bare.hasGlyph code = s.hasGlyph code := by
  funext i
  rw [hasGlyph, getElem?_bare_fonts, hasGlyph]
  cases s.fonts[i]? <;> rfl

theorem fontForStateless_bare (s : FontStack) (c : Char) :
    s.bare.fontForStateless c = s.fontForStateless c := by
  rw [fontForStateless, hasGlyph_bare]
  rfl

theorem fontForStateless_of_bare_eq (h : s.bare = t.bare) (c : Char) :
    s.fontForStateless c = t.fontForStateless c := by
  rw [← fontForStateless_bare, h, fontForStateless_bare]

theorem IsSound.bare (h : s.IsSound) : s.bare.IsSound :=
  h.of_bare_eq (bare_bare s) Pool.isTidy_empty fun _ hi => by simp [FontStack.bare] at hi

/-- What is drawn depends only on the font picked and on the bare stack. -/
theorem fst_glyph_eq (h : s.pool.IsTidy) (c : Char) (size : Int) :
    (s.glyph c size).1 = (s.bare.drawAs (s.fontFor c).1 c size).1 := by
  have hpool : (s.fontFor c).2.pool.IsTidy := h
  rw [glyph_eq_drawAs, fst_drawAs hpool, bare_fontFor]

/-- **A character is drawn the same whatever the stack remembers.** -/
theorem fst_glyph (h : s.IsSound) (hs : Block.IsSearchable s.coverage.blocks) (c : Char)
    (size : Int) : (s.glyph c size).1 = (s.bare.glyph c size).1 := by
  have hfont : (s.fontFor c).1 = (s.bare.fontFor c).1 := by
    rw [fst_fontFor h hs, fst_fontFor h.bare hs, fontForStateless_bare]
  rw [fst_glyph_eq h.tidy, fst_glyph_eq h.bare.tidy, bare_bare, hfont]

/-- A character drawn and packaged for a texture. -/
def finished (s : FontStack) (c : Char) (size : Int) : Glyph :=
  let (g, t) := s.glyph c size
  (package g t.scale t.pool).1

theorem finished_eq (h : s.pool.IsTidy) (c : Char) (size : Int) :
    s.finished c size = (package (s.glyph c size).1 s.scale .empty).1 := by
  have hscale : (s.glyph c size).2.bare.scale = s.bare.scale := by rw [bare_glyph]
  have hscale' : (s.glyph c size).2.scale = s.scale := hscale
  change (package (s.glyph c size).1 (s.glyph c size).2.scale (s.glyph c size).2.pool).1 = _
  rw [fst_package _ _ (isTidy_glyph h c size), hscale']

theorem isFilled_placeholder (h : s.IsSound) (size : Int) :
    (s.placeholder size).1.IsFilled := by
  have hcopy : (s.fieldPlaceholder.copy s.pool).1 = s.fieldPlaceholder := Glyph.fst_copy h.tidy _
  unfold placeholder
  cases isFieldSize size with
  | true => exact Glyph.isFilled_of_isField ((congrArg Glyph.isField hcopy).trans h.field)
  | false =>
    cases hf : s.fonts with
    | nil =>
      exact Glyph.isFilled_of_data_eq_none
        ((congrArg (·.picture.data) hcopy).trans (h.inkless hf))
    | cons f rest => exact Glyph.isFilled_draw f placeholderCode size.natAbs false h.tidy

theorem isFilled_drawWith (h : s.pool.IsTidy) (i code height : Nat) (field : Bool) :
    (s.drawWith i code height field).1.IsFilled := by
  rw [drawWith]
  split
  · rename_i f _
    exact Glyph.isFilled_draw f code height field h
  · exact Glyph.isFilled_of_data_eq_none rfl

theorem isFilled_drawAs (h : s.IsSound) (font : Option Nat) (c : Char) (size : Int) :
    (s.drawAs font c size).1.IsFilled := by
  cases font with
  | none => exact isFilled_placeholder h size
  | some i =>
    rw [drawAs]
    split <;> exact isFilled_drawWith h.tidy _ _ _ _

theorem isFilled_glyph (h : s.IsSound) (c : Char) (size : Int) : (s.glyph c size).1.IsFilled := by
  have hsound : (s.fontFor c).2.IsSound :=
    h.of_bare_eq (bare_fontFor s c) h.tidy (h.familiar.resolve c _)
  rw [glyph_eq_drawAs]
  exact isFilled_drawAs hsound _ c size

/-- **A finished drawing with ink has a byte for each of its pixels.** -/
theorem area_le_finished (h : s.IsSound) (hink : (s.finished c size).picture.data.isSome) :
    (s.finished c size).picture.width * (s.finished c size).picture.height ≤
      (s.finished c size).picture.bytes.size := by
  rw [finished_eq h.tidy] at hink ⊢
  obtain ⟨hwidth, hheight, hdata⟩ := shape_package (s.glyph c size).1 s.scale .empty
  rw [hwidth, hheight]
  exact area_le_package _ _ Pool.isTidy_empty (isFilled_glyph h c size) (hdata ▸ hink)

/-! ### Building -/

theorem Opening.add_coverage (opener : Opener) (o : Coverage.Overrides) (scale : Nat)
    (s : Opening) (source : FontSource) :
    (s.add opener o scale source).coverage.blocks = s.coverage.blocks ∧
      (s.add opener o scale source).coverage.hint = s.coverage.hint := by
  unfold Opening.add
  split
  · exact ⟨Coverage.blocks_addFont _ _ _ _, rfl⟩
  · exact ⟨rfl, rfl⟩

/-- Opening fonts finds the blocks that were kept, and nothing is remembered. -/
theorem Opening.ofSettings_coverage (settings : Settings) (opener : Opener) :
    (Opening.ofSettings settings opener).coverage.blocks =
        (Block.arrange settings.blocks).kept ∧
      (Opening.ofSettings settings opener).coverage.hint = none := by
  rw [Opening.ofSettings]
  -- of the opening so far, the induction only needs its blocks and that nothing is remembered
  generalize hs : (⟨[], Coverage.ofBlocks settings.blocks, []⟩ : Opening) = s
  have hblocks : s.coverage.blocks = (Block.arrange settings.blocks).kept := by
    rw [← hs]
    exact Coverage.blocks_ofBlocks settings.blocks
  have hhint : s.coverage.hint = none := by rw [← hs]; rfl
  clear hs
  induction settings.fonts generalizing s with
  | nil => exact ⟨hblocks, hhint⟩
  | cons source rest ih =>
    obtain ⟨hb, hh⟩ := Opening.add_coverage opener ⟨settings.whitelist, settings.blacklist⟩
      (max settings.scale 1) s source
    exact ih _ (hb.trans hblocks) (hh.trans hhint)

/-- The placeholder of a new stack, as a distance field, and the pool that it was drawn with. -/
private def firstPlaceholder (fonts : List OpenFont) (height : Nat) : Glyph × Pool :=
  match fonts with
  | font :: _ => drawPlaceholder font height true .empty
  | [] => (Glyph.blank, .empty)

private theorem firstPlaceholder_spec (fonts : List OpenFont) (height : Nat) :
    (firstPlaceholder fonts height).2.IsTidy ∧
      (firstPlaceholder fonts height).1.isField = true ∧
      (fonts = [] → (firstPlaceholder fonts height).1.picture.data = none) := by
  cases fonts with
  | nil => exact ⟨Pool.isTidy_empty, rfl, fun _ => rfl⟩
  | cons f rest =>
    exact ⟨OpenFont.isTidy_draw f placeholderCode height true Pool.isTidy_empty, rfl,
      fun hnil => by contradiction⟩

private theorem fst_build (settings : Settings) (opener : Opener) :
    (build settings opener).1 =
      let s := Opening.ofSettings settings opener
      let first := firstPlaceholder s.fonts settings.baseHeight
      ⟨s.fonts, s.coverage, first.1, first.2, settings.baseHeight, max settings.scale 1⟩ := by
  unfold build firstPlaceholder
  dsimp only
  cases (Opening.ofSettings settings opener).fonts <;> rfl

theorem fonts_build (settings : Settings) (opener : Opener) :
    (build settings opener).1.fonts = (Opening.ofSettings settings opener).fonts := by
  rw [fst_build]

theorem coverage_build (settings : Settings) (opener : Opener) :
    (build settings opener).1.coverage = (Opening.ofSettings settings opener).coverage := by
  rw [fst_build]

/-- The placeholder of a new stack is drawn by its first font. -/
theorem fieldPlaceholder_build {settings : Settings} {opener : Opener} {f : OpenFont}
    {rest : List OpenFont} (h : (build settings opener).1.fonts = f :: rest) :
    (build settings opener).1.fieldPlaceholder =
      (drawPlaceholder f (build settings opener).1.baseHeight true .empty).1 := by
  rw [fst_build] at h ⊢
  dsimp only at h ⊢
  rw [h]
  rfl

theorem blocks_build (settings : Settings) (opener : Opener) :
    (build settings opener).1.coverage.blocks = (Block.arrange settings.blocks).kept := by
  rw [coverage_build]
  exact (Opening.ofSettings_coverage settings opener).1

/-- A stack that was just built is sound. -/
theorem isSound_build (settings : Settings) (opener : Opener) :
    (build settings opener).1.IsSound := by
  have hhint := (Opening.ofSettings_coverage settings opener).2
  have hfamiliar : (Opening.ofSettings settings opener).coverage.IsFamiliar :=
    fun i hi => by rw [hhint] at hi; contradiction
  obtain ⟨htidy, hfield, hinkless⟩ :=
    firstPlaceholder_spec (Opening.ofSettings settings opener).fonts settings.baseHeight
  rw [fst_build]
  exact ⟨htidy, hfamiliar, hfield, hinkless⟩

end FontStack

end Typecase
