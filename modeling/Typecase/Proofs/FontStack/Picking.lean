import Typecase.Font.Data
import Typecase.Proofs.Coverage.Descent
import Typecase.Proofs.Coverage.Weights
import Typecase.Proofs.Font.CodePoints
import Typecase.Proofs.FontStack.Memory

/-!
# Which font is picked

From the files that are opened to the font that is picked for a character.

* **Every history.** `FontStack.Act` lists what can be done with a stack once it is built, and
  `performAll` carries out acts in order. Acts change the memory of a stack only
  (`bare_performAll`), and keep it sound (`IsSound.performAll`).
* **Numbers.** The fonts of a stack are those that could be opened, in order, and each of them was
  added to the coverage under its own number (`Opening.ofSettings_eq`): a font that cannot be
  opened takes no number and leaves no gap in the weights.
* **Picking.** `Picks` reads a picked number back: the font behind it has the glyph and a weight in
  the block of the character, and it is at least as heavy as every font that enumerates the
  character and is the earliest of its weight. That holds of both ways of picking, whatever was
  done before (`picks_after_any_history`).
-/

namespace Typecase

namespace FontStack

variable {s : FontStack} {c : Char}

/-! ### Every history -/

/-- Something done with a stack that changes it. Glyphs may come from anywhere; picking without
memory and asking what is ready change nothing. -/
inductive Act where
  | pick (c : Char)
  | draw (c : Char) (size : Int)
  | standIn (size : Int)
  | copy (g : Glyph)
  | package (g : Glyph) (scale : Nat)
  | discard (g : Glyph)
  | markReady (g : Glyph)

/-- The stack after an act. -/
def perform (s : FontStack) : Act → FontStack
  | .pick c => (s.fontFor c).2
  | .draw c size => (s.glyph c size).2
  | .standIn size => (s.placeholder size).2
  | .copy g => { s with pool := (g.copy s.pool).2 }
  | .package g scale => { s with pool := (FontStack.package g scale s.pool).2 }
  | .discard g => s.discard g
  | .markReady g => s.markReady g

/-- The stack after acts carried out in order. -/
def performAll (s : FontStack) (acts : List Act) : FontStack := acts.foldl perform s

theorem IsSound.fontFor (h : s.IsSound) (c : Char) : (s.fontFor c).2.IsSound :=
  h.of_bare_eq (bare_fontFor s c) h.tidy (h.familiar.resolve c _)

theorem IsSound.perform (h : s.IsSound) (act : Act) : (s.perform act).IsSound := by
  cases act with
  | pick c => exact h.fontFor c
  | draw c size => exact h.glyph c size
  | standIn size => exact h.placeholder size
  | copy g => exact h.withPool (Glyph.isTidy_copy h.tidy g)
  | package g scale => exact h.withPool (isTidy_package g scale h.tidy)
  | discard g => exact h.discard g
  | markReady g => exact h.markReady g

/-- An act changes what a stack remembers, and nothing else. -/
theorem bare_perform (s : FontStack) (act : Act) : (s.perform act).bare = s.bare := by
  cases act with
  | pick c => exact bare_fontFor s c
  | draw c size => exact bare_glyph s c size
  | standIn size => exact bare_placeholder s size
  | copy g => rfl
  | package g scale => rfl
  | discard g => rfl
  | markReady g => exact bare_markReady s g

/-- Whatever is done with a stack, its pool stays tidy. -/
theorem isTidy_perform (h : s.pool.IsTidy) (act : Act) : (s.perform act).pool.IsTidy := by
  cases act with
  | pick c => exact h
  | draw c size => exact isTidy_glyph h c size
  | standIn size => exact isTidy_placeholder h size
  | copy g => exact Glyph.isTidy_copy h g
  | package g scale => exact isTidy_package g scale h
  | discard g => exact Glyph.isTidy_discard h g
  | markReady g => exact h

theorem IsSound.performAll (h : s.IsSound) (acts : List Act) : (s.performAll acts).IsSound := by
  induction acts generalizing s with
  | nil => exact h
  | cons act acts ih => exact ih (h.perform act)

theorem bare_performAll (s : FontStack) (acts : List Act) :
    (s.performAll acts).bare = s.bare := by
  induction acts generalizing s with
  | nil => rfl
  | cons act acts ih => exact (ih (s.perform act)).trans (bare_perform s act)

/-! ### Numbers -/

/-- The fonts among some sources that can be opened, in order. -/
def openAll (opener : Opener) (scale : Nat) (sources : List FontSource) : List OpenFont :=
  sources.filterMap fun source => (OpenFont.ofSource opener source scale).toOption

/-- A font as it is added to a coverage. -/
def additionOf (o : Coverage.Overrides) (f : OpenFont) : Coverage.Addition :=
  ⟨f.name, f.face.codePoints, o⟩

theorem isSorted_additionOf (o : Coverage.Overrides) (f : OpenFont) :
    (additionOf o f).IsSorted := by
  have hstrict : f.face.codePoints.Pairwise (· < ·) := f.face.isStrict_codePoints
  exact hstrict.imp Nat.le_of_lt

/-- What opening a font gives: the name of the source, a face of the opener, and no drawing that is
ready. -/
theorem ofSource_eq_ok {opener : Opener} {source : FontSource} {scale : Nat} {f : OpenFont}
    (h : OpenFont.ofSource opener source scale = .ok f) :
    f.name = source.name ∧ opener source.data = .ok f.face ∧ f.ready = [] := by
  rw [OpenFont.ofSource] at h
  cases hface : opener source.data with
  | error e =>
    rw [hface] at h
    contradiction
  | ok face =>
    simp only [hface] at h
    split at h
    · contradiction
    · obtain rfl := Except.ok.inj h
      exact ⟨rfl, rfl, rfl⟩

section

variable {opener : Opener} {scale : Nat} {source : FontSource} {rest : List FontSource}

theorem openAll_cons_of_ok {f : OpenFont} (h : OpenFont.ofSource opener source scale = .ok f) :
    openAll opener scale (source :: rest) = f :: openAll opener scale rest :=
  List.filterMap_cons_some (by rw [h]; rfl)

theorem openAll_cons_of_error {e : FontError}
    (h : OpenFont.ofSource opener source scale = .error e) :
    openAll opener scale (source :: rest) = openAll opener scale rest :=
  List.filterMap_cons_none (by rw [h]; rfl)

end

theorem mem_openAll {opener : Opener} {scale : Nat} {sources : List FontSource} {f : OpenFont}
    (h : f ∈ openAll opener scale sources) :
    ∃ source ∈ sources, OpenFont.ofSource opener source scale = .ok f := by
  obtain ⟨source, hmem, hopen⟩ := List.mem_filterMap.mp h
  refine ⟨source, hmem, ?_⟩
  cases hf : OpenFont.ofSource opener source scale with
  | error e =>
    rw [hf] at hopen
    contradiction
  | ok g =>
    rw [hf] at hopen
    exact congrArg Except.ok (Option.some.inj hopen)

/-- **Numbers count the fonts that could be opened.** Opening fonts one after the other gives those
that can be opened, and adds each of them to the coverage. -/
theorem Opening.foldl_add (opener : Opener) (o : Coverage.Overrides) (scale : Nat) (s : Opening)
    (sources : List FontSource) :
    (sources.foldl (Opening.add opener o scale) s).fonts =
        s.fonts ++ openAll opener scale sources ∧
      (sources.foldl (Opening.add opener o scale) s).coverage =
        s.coverage.addAll ((openAll opener scale sources).map (additionOf o)) := by
  induction sources generalizing s with
  | nil => exact ⟨(List.append_nil s.fonts).symm, rfl⟩
  | cons source rest ih =>
    obtain ⟨hfonts, hcoverage⟩ := ih (s.add opener o scale source)
    rw [List.foldl_cons, hfonts, hcoverage, Opening.add]
    cases hopen : OpenFont.ofSource opener source scale with
    | error e =>
      rw [openAll_cons_of_error hopen]
      exact ⟨rfl, rfl⟩
    | ok font =>
      have hname : font.name = source.name := (ofSource_eq_ok hopen).1
      rw [openAll_cons_of_ok hopen, ← hname]
      exact ⟨List.append_assoc _ _ _, rfl⟩

theorem Opening.ofSettings_eq (settings : Settings) (opener : Opener) :
    let o : Coverage.Overrides := ⟨settings.whitelist, settings.blacklist⟩
    let fonts := openAll opener (max settings.scale 1) settings.fonts
    (Opening.ofSettings settings opener).fonts = fonts ∧
      (Opening.ofSettings settings opener).coverage =
        (Coverage.ofBlocks settings.blocks).addAll (fonts.map (additionOf o)) :=
  Opening.foldl_add opener _ _ ⟨[], Coverage.ofBlocks settings.blocks, []⟩ settings.fonts

/-- No drawing of a new stack is ready, so its fonts are bare already. -/
theorem fonts_bare_build (settings : Settings) (opener : Opener) :
    (build settings opener).1.bare.fonts =
      openAll opener (max settings.scale 1) settings.fonts := by
  have hfonts : (build settings opener).1.fonts = openAll opener (max settings.scale 1)
      settings.fonts := (fonts_build settings opener).trans (Opening.ofSettings_eq settings opener).1
  change (build settings opener).1.fonts.map (fun f => { f with ready := [] }) = _
  rw [hfonts]
  refine (List.map_congr_left fun f hf => ?_).trans (List.map_id _)
  obtain ⟨source, -, hopen⟩ := mem_openAll hf
  have hready : f.ready = [] := (ofSource_eq_ok hopen).2.2
  change { f with ready := [] } = f
  rw [← hready]

/-- Whatever was done before, the fonts of a stack are those that could be opened. -/
theorem mem_openAll_of_getElem? {settings : Settings} {opener : Opener} {acts : List Act} {i : Nat}
    {font : OpenFont}
    (h : ((build settings opener).1.performAll acts).fonts[i]? = some font) :
    { font with ready := [] } ∈ openAll opener (max settings.scale 1) settings.fonts := by
  have hbare := getElem?_bare_fonts ((build settings opener).1.performAll acts) i
  rw [h, bare_performAll, fonts_bare_build] at hbare
  exact List.mem_of_getElem? hbare

/-! ### Picking -/

/-- The weight of font number `i` in block number `n`. -/
def weight (s : FontStack) (n i : Nat) : Nat := (s.coverage.weights n).getD i 0

/-- What a picked number, or none, means for a character. -/
structure Picks (s : FontStack) (c : Char) (picked : Option Nat) : Prop where
  /-- The font picked has the glyph, and a weight in the block of the character. -/
  sound : ∀ g, picked = some g → ∃ n b font, s.coverage.blocks[n]? = some b ∧ c.toNat ∈ b ∧
    0 < s.weight n g ∧ s.fonts[g]? = some font ∧ font.face.has c.toNat = true
  /-- A font that enumerates the character and is the earliest of its weight in the block is passed
  over only for a font that is at least as heavy. -/
  complete : ∀ f font n b, s.fonts[f]? = some font → c.toNat ∈ font.face.codePoints →
    s.coverage.blocks[n]? = some b → c.toNat ∈ b → 0 < s.weight n f →
    (∀ e, e < f → s.weight n e ≠ s.weight n f) →
    ∃ g, picked = some g ∧ s.weight n f ≤ s.weight n g

theorem hasGlyph_eq_true_iff {code i : Nat} : s.hasGlyph code i = true ↔
    ∃ font, s.fonts[i]? = some font ∧ font.face.has code = true := by
  rw [hasGlyph, Option.any_eq_true]

/-- In a block in which it has weight, the only font of a stack is picked for the characters that it
enumerates, and for no others if it is honest. -/
theorem Picks.eq_of_sole {picked : Option Nat} {n : Nat} {b : Block} {font : OpenFont}
    (h : s.Picks c picked) (hfonts : s.fonts = [font]) (hhonest : font.face.IsHonest)
    (hb : s.coverage.blocks[n]? = some b) (hc : c.toNat ∈ b) (hweight : 0 < s.weight n 0) :
    picked = if c.toNat ∈ font.face.codePoints then some 0 else none := by
  have hfont : s.fonts[0]? = some font := by rw [hfonts]; rfl
  have honly : ∀ g, picked = some g → g = 0 ∧ font.face.has c.toNat = true := by
    intro g hg
    obtain ⟨-, -, f, -, -, -, hf, hhas⟩ := h.sound g hg
    rw [hfonts, List.getElem?_singleton] at hf
    split at hf
    · rename_i hzero
      exact ⟨hzero, Option.some.inj hf ▸ hhas⟩
    · contradiction
  split
  · rename_i hcode
    obtain ⟨g, hg, -⟩ := h.complete 0 font n b hfont hcode hb hc hweight fun e he => by omega
    rw [hg, (honly g hg).1]
  · rename_i hcode
    refine Option.eq_none_iff_forall_ne_some.mpr fun g hg => hcode ?_
    exact hhonest.mem_of_has (honly g hg).2

theorem fontForStateless_eq (s : FontStack) (c : Char) : s.fontForStateless c =
    (s.coverage.chooseAt (Block.find? s.coverage.blocks c.toNat) (s.hasGlyph c.toNat)).font := by
  rw [fontForStateless, Coverage.resolveStateless_eq]

/-- Picking without memory: in ordered blocks the descent through the block of the character keeps
both promises, if the fonts are honest. -/
theorem picks_fontForStateless (hordered : Block.IsOrdered s.coverage.blocks)
    (hhonest : ∀ (f : Nat) (font : OpenFont), s.fonts[f]? = some font → font.face.IsHonest) (c : Char) :
    s.Picks c (s.fontForStateless c) := by
  rw [fontForStateless_eq]
  constructor
  case sound =>
    intro g hg
    cases hn : Block.find? s.coverage.blocks c.toNat with
    | none =>
      rw [hn] at hg
      contradiction
    | some n =>
      rw [hn] at hg
      obtain ⟨b, hb, hc⟩ := Block.mem_of_find? hn
      obtain ⟨hhas, hweight⟩ := Choice.font_descend_sound hg
      obtain ⟨font, hfont, hglyph⟩ := hasGlyph_eq_true_iff.mp hhas
      exact ⟨n, b, font, hb, hc, hweight, hfont, hglyph⟩
  case complete =>
    intro f font n b hfont hcode hb hc hweight hfirst
    have hn : Block.find? s.coverage.blocks c.toNat = some n :=
      (Block.find?_eq_some_iff hordered).mpr ⟨b, hb, hc⟩
    have hhas : s.hasGlyph c.toNat f = true :=
      hasGlyph_eq_true_iff.mpr ⟨font, hfont, (hhonest f font hfont).has_eq_true hcode⟩
    rw [hn]
    exact Choice.font_descend_complete hweight hfirst hhas

/-- **Whatever was done with a stack, its coverage records its fonts**, each of them under its
position in the list. -/
theorem records_performAll_build (settings : Settings) (opener : Opener) (acts : List Act) :
    let s := (build settings opener).1.performAll acts
    s.coverage.Records (s.fonts.map (additionOf ⟨settings.whitelist, settings.blacklist⟩)) := by
  intro s
  let o : Coverage.Overrides := ⟨settings.whitelist, settings.blacklist⟩
  let fonts := openAll opener (max settings.scale 1) settings.fonts
  have hbare : s.bare = (build settings opener).1.bare := bare_performAll _ acts
  -- the drawings that are ready do not matter for the coverage
  have hfonts : s.fonts.map (additionOf o) = fonts.map (additionOf o) := by
    have hopened : s.bare.fonts = fonts := by rw [hbare, fonts_bare_build]
    rw [← hopened, bare, List.map_map]
    rfl
  have hcoverage : s.bare.coverage = { (Coverage.ofBlocks settings.blocks).addAll
      (fonts.map (additionOf o)) with hint := none } := by
    rw [hbare, bare, coverage_build, (Opening.ofSettings_eq settings opener).2]
  have hsorted : ∀ f ∈ fonts.map (additionOf o), f.IsSorted :=
    List.forall_mem_map.mpr fun f _ => isSorted_additionOf o f
  have hrecords := Coverage.records_addAll_ofBlocks
    (Block.isSpaced_kept_arrange settings.blocks) hsorted
  have hbared : s.bare.coverage.Records (fonts.map (additionOf o)) := by
    rw [hcoverage]
    exact ⟨hrecords.count, hrecords.short, hrecords.right⟩
  rw [hfonts]
  exact ⟨hbared.count, hbared.short, hbared.right⟩

/-- Whatever was done with a stack, its blocks are those that were kept, its fonts those that could
be opened, and its weights those of the table of these fonts. -/
theorem weight_performAll_build (settings : Settings) (opener : Opener) (acts : List Act) :
    let s := (build settings opener).1.performAll acts
    s.coverage.blocks = (Block.arrange settings.blocks).kept ∧
      s.bare.fonts = openAll opener (max settings.scale 1) settings.fonts ∧
      ∀ n b i font, s.coverage.blocks[n]? = some b → s.fonts[i]? = some font →
        s.weight n i = (additionOf ⟨settings.whitelist, settings.blacklist⟩ font).weightIn i b := by
  intro s
  have hbare : s.bare = (build settings opener).1.bare := bare_performAll _ acts
  refine ⟨?_, by rw [hbare, fonts_bare_build], fun n b i font hb hfont => ?_⟩
  · change s.bare.coverage.blocks = _
    rw [hbare]
    exact blocks_build settings opener
  · refine (records_performAll_build settings opener acts).weight_eq hb ?_
    rw [List.getElem?_map, hfont]
    rfl

/-- Both ways of picking keep the promises, whatever was done with a stack. -/
theorem picks_performAll_build (settings : Settings) (opener : Opener)
    (hblocks : ∀ b ∈ settings.blocks, b.first ≤ b.last)
    (hhonest : ∀ source ∈ settings.fonts, ∀ face, opener source.data = .ok face → face.IsHonest)
    (acts : List Act) (c : Char) :
    let s := (build settings opener).1.performAll acts
    s.Picks c (s.fontFor c).1 ∧ s.Picks c (s.fontForStateless c) := by
  intro s
  have hsound : s.IsSound := (isSound_build settings opener).performAll acts
  obtain ⟨hkept, -, -⟩ := weight_performAll_build settings opener acts
  have hordered : Block.IsOrdered s.coverage.blocks := hkept ▸ Block.isOrdered_kept_arrange hblocks
  have hfaces : ∀ (f : Nat) (font : OpenFont), s.fonts[f]? = some font → font.face.IsHonest := by
    intro f font hfont
    obtain ⟨source, hmem, hopen⟩ := mem_openAll (mem_openAll_of_getElem? hfont)
    exact hhonest source hmem font.face (ofSource_eq_ok hopen).2.1
  have hpicks := picks_fontForStateless hordered hfaces c
  refine ⟨?_, hpicks⟩
  rw [fst_fontFor hsound hordered.isSearchable]
  exact hpicks

/-- **What is picked has the glyph, and nothing heavier was passed over.** Whatever fonts could be
opened, whatever overrides were given and whatever was done with the stack: if no block is inverted
and every face enumerates exactly the code points that it has glyphs for, then the weights are
those of the table of the fonts that were opened, and both ways of picking keep the promises of
`Picks` for every character. -/
theorem picks_after_any_history (settings : Settings) (opener : Opener)
    (hblocks : ∀ b ∈ settings.blocks, b.first ≤ b.last)
    (hhonest : ∀ source ∈ settings.fonts, ∀ face, opener source.data = .ok face → face.IsHonest)
    (acts : List Act) :
    let s := (build settings opener).1.performAll acts
    s.coverage.blocks = (Block.arrange settings.blocks).kept ∧
      s.bare.fonts = openAll opener (max settings.scale 1) settings.fonts ∧
      (∀ n b i font, s.coverage.blocks[n]? = some b → s.fonts[i]? = some font →
        s.weight n i = (additionOf ⟨settings.whitelist, settings.blacklist⟩ font).weightIn i b) ∧
      ∀ c, s.Picks c (s.fontFor c).1 ∧ s.Picks c (s.fontForStateless c) := by
  intro s
  obtain ⟨hkept, hfonts, hweights⟩ := weight_performAll_build settings opener acts
  exact ⟨hkept, hfonts, hweights, picks_performAll_build settings opener hblocks hhonest acts⟩

/-- A font that cannot be opened stands before a narrow and a wide one, so that the wide one is
number 1. It is picked for a character that both have, after some use of the stack. -/
theorem picks_wide_past_broken :
    let narrow : TabulatedFont := ⟨"narrow", 2, [0x41, 0x42], [0x41, 0x42], [], [], .blank⟩
    let wide : TabulatedFont := ⟨"wide", 3, [0x41, 0x42, 0x43], [0x41, 0x42, 0x43], [], [], .blank⟩
    let settings : Settings := .ofLists [⟨"Latin", 0x41, 0x5A⟩] [] []
      [⟨"broken", .bytes #[]⟩, ⟨"narrow", .table narrow⟩, ⟨"wide", .table wide⟩]
    let s := (build settings FontData.openAny).1.performAll [.draw 'C' 12, .pick '!', .standIn 3]
    (∀ b ∈ settings.blocks, b.first ≤ b.last) ∧
      (∀ source ∈ settings.fonts, ∀ face, FontData.openAny source.data = .ok face →
        face.IsHonest) ∧
      (s.fontFor 'A').1 = some 1 ∧ s.fontForStateless 'A' = some 1 := by
  intro narrow wide settings s
  have hblocks : ∀ b ∈ settings.blocks, b.first ≤ b.last := by decide
  have hhonest : ∀ source ∈ settings.fonts, ∀ face, FontData.openAny source.data = .ok face →
      face.IsHonest := by
    intro source hsource face hface
    obtain rfl | rfl | rfl : source = ⟨"broken", .bytes #[]⟩ ∨ source = ⟨"narrow", .table narrow⟩ ∨
        source = ⟨"wide", .table wide⟩ := by simpa [settings, Settings.ofLists] using hsource
    · contradiction
    · exact Except.ok.inj hface ▸ TabulatedFont.isHonest_face rfl
    · exact Except.ok.inj hface ▸ TabulatedFont.isHonest_face rfl
  obtain ⟨hkept, hfonts, hweights, hpicks⟩ := picks_after_any_history settings FontData.openAny
    hblocks hhonest [.draw 'C' 12, .pick '!', .standIn 3]
  have hkept : s.coverage.blocks = [⟨"Latin", 0x41, 0x5A⟩] := hkept
  have hfonts : s.bare.fonts = [⟨"narrow", narrow.face, 4, []⟩, ⟨"wide", wide.face, 4, []⟩] := hfonts
  -- the table of weights: three characters against two
  obtain ⟨first, hfirst, hnarrow⟩ := Option.map_eq_some_iff.mp
    ((getElem?_bare_fonts s 0).symm.trans (by rw [hfonts]; rfl))
  obtain ⟨second, hsecond, hwide⟩ := Option.map_eq_some_iff.mp
    ((getElem?_bare_fonts s 1).symm.trans (by rw [hfonts]; rfl))
  have hnarrow' : first.face = narrow.face := congrArg OpenFont.face hnarrow
  have hwide' : second.face = wide.face := congrArg OpenFont.face hwide
  have hcodes₀ : narrow.face.codePoints = [0x41, 0x42] := Face.codePoints_of_isStrict (by decide)
  have hcodes₁ : wide.face.codePoints = [0x41, 0x42, 0x43] := Face.codePoints_of_isStrict (by decide)
  have hweight₀ : s.weight 0 0 = 2 := by
    rw [hweights 0 _ 0 first (by rw [hkept]; rfl) hfirst, additionOf, hnarrow', hcodes₀]
    rfl
  have hweight₁ : s.weight 0 1 = 3 := by
    rw [hweights 0 _ 1 second (by rw [hkept]; rfl) hsecond, additionOf, hwide', hcodes₁]
    rfl
  have honly : ∀ picked, s.Picks 'A' picked → picked = some 1 := by
    intro picked h
    have hcode : ('A').toNat ∈ second.face.codePoints := by
      rw [hwide', hcodes₁]
      decide
    obtain ⟨g, rfl, hg⟩ := h.complete 1 second 0 _ hsecond hcode (by rw [hkept]; rfl) (by decide)
      (by omega) fun e he => by
        obtain rfl : e = 0 := by omega
        omega
    obtain ⟨n, b, font, -, -, -, hfont, -⟩ := h.sound g rfl
    have hlt : g < 2 := by
      have hlength : s.bare.fonts.length = s.fonts.length := List.length_map _
      have := (List.getElem?_eq_some_iff.mp hfont).1
      simp only [hfonts, List.length_cons, List.length_nil] at hlength
      omega
    have hne : g ≠ 0 := fun h₀ => by
      subst h₀
      omega
    exact congrArg some (by omega)
  exact ⟨hblocks, hhonest, honly _ (hpicks 'A').1, honly _ (hpicks 'A').2⟩

end FontStack

end Typecase
