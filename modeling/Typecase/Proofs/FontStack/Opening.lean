import Typecase.Proofs.Coverage.Deletion
import Typecase.Proofs.FontStack.Picking

/-!
# Fonts that cannot be used

A font is left out when its data cannot be opened, or when the face has no glyphs. It leaves no
trace but a notice (`FontStack.unusable_fonts_leave_no_trace`).

* **One stack.** The fonts of a stack and its coverage depend on the fonts that could be opened
  only, so that a stack built from settings is the very stack built from the same settings without
  the fonts that cannot be used, wherever they stand. The notices of building it differ in the
  fonts that were rejected (`build_of_usable`).
* **Numbers.** After any acts, the coverage records the fonts of the stack, each of them under its
  position in the list (`records_performAll_build`). So a number that is asked, picked or mapped is
  the position of a font, and this font has a weight in the block in question (`IsNumbered`).
-/

namespace Typecase

/-- Whether a font can be used: its data can be opened, and the face has glyphs. -/
def FontSource.isUsable (opener : Opener) (source : FontSource) : Bool :=
  match opener source.data with
  | .ok face => face.glyphCount != 0
  | .error _ => false

/-- The settings without the fonts that cannot be used. -/
def Settings.withUsable (settings : Settings) (opener : Opener) : Settings :=
  { settings with fonts := settings.fonts.filter (·.isUsable opener) }

/-- Exactly the fonts that can be used are opened, at any enlargement. -/
theorem OpenFont.isUsable_iff {opener : Opener} {source : FontSource} {scale : Nat} :
    source.isUsable opener = true ↔ ∃ f, ofSource opener source scale = .ok f := by
  rw [FontSource.isUsable, ofSource]
  cases opener source.data with
  | error e => simp
  | ok face => by_cases hnone : face.glyphCount = 0 <;> simp [hnone]

/-! ### Weights and positions -/

namespace Coverage

variable {c : Coverage} {fonts : List Addition}

/-- A look-up settles on a block that has the code point. -/
theorem mem_of_blockFor? {code n : Nat} (h : c.blockFor? code = some n) :
    ∃ b, c.blocks[n]? = some b ∧ code ∈ b := by
  rcases Option.or_eq_some_iff.mp h with hhint | ⟨-, hfind⟩
  · exact (hinted?_eq_some_iff.mp hhint).2
  · exact Block.mem_of_find? hfind

/-- A font that weighs something in a block was added, and has this weight there. -/
theorem Records.exists_of_pos (h : c.Records fonts) {n i : Nat} {b : Block}
    (hn : c.blocks[n]? = some b) (hpos : 0 < (c.weights n).getD i 0) :
    ∃ f, fonts[i]? = some f ∧ 0 < f.weightIn i b := by
  rw [h.getD_weights hn] at hpos
  cases hf : fonts[i]? with
  | none =>
    rw [weightOf, hf] at hpos
    contradiction
  | some f => exact ⟨f, rfl, weightOf_of_getElem? hf ▸ hpos⟩

/-- The fonts asked in a block, and the one picked, weigh something there. -/
theorem weight_pos_of_chooseIn {n i : Nat} {has : Nat → Bool}
    (h : i ∈ (c.chooseIn n has).asked ∨ (c.chooseIn n has).font = some i) :
    0 < (c.weights n).getD i 0 := by
  rcases h with hasked | hfont
  · exact (Choice.isForemost_of_mem_asked hasked).1
  · exact (Choice.font_descend_sound hfont).2

end Coverage

namespace FontStack

variable {settings : Settings} {opener : Opener} {s : FontStack} {o : Coverage.Overrides}

/-! ### One stack -/

/-- Opening fonts opens those that can be used. -/
theorem openAll_filter_isUsable (opener : Opener) (scale : Nat) (sources : List FontSource) :
    openAll opener scale (sources.filter (·.isUsable opener)) = openAll opener scale sources := by
  rw [openAll, openAll, List.filterMap_filter]
  refine List.filterMap_congr fun source _ => ?_
  cases hopen : OpenFont.ofSource opener source scale with
  | ok f => exact if_pos (OpenFont.isUsable_iff.mpr ⟨f, hopen⟩)
  | error e => exact ite_self _

/-- The notice on a font that is left out. -/
def rejection (opener : Opener) (scale : Nat) (source : FontSource) : Option Notice :=
  match OpenFont.ofSource opener source scale with
  | .ok _ => none
  | .error e => some (.fontUnusable source.name e)

/-- The notices on the fonts that are left out, in order. -/
def rejections (settings : Settings) (opener : Opener) : List Notice :=
  settings.fonts.filterMap (rejection opener (max settings.scale 1))

theorem Opening.notices_foldl_add (opener : Opener) (o : Coverage.Overrides) (scale : Nat)
    (s : Opening) (sources : List FontSource) :
    (sources.foldl (Opening.add opener o scale) s).notices =
      s.notices ++ sources.filterMap (rejection opener scale) := by
  induction sources generalizing s with
  | nil => exact (List.append_nil _).symm
  | cons source rest ih =>
    rw [List.foldl_cons, ih, Opening.add, List.filterMap_cons, rejection]
    cases OpenFont.ofSource opener source scale with
    | ok f => rfl
    | error e => exact List.append_assoc _ _ _

theorem rejections_withUsable (settings : Settings) (opener : Opener) :
    rejections (settings.withUsable opener) opener = [] := by
  refine List.filterMap_eq_nil_iff.mpr fun source hsource => ?_
  obtain ⟨-, husable⟩ := List.mem_filter.mp hsource
  obtain ⟨f, hopen⟩ := OpenFont.isUsable_iff.mp husable
  rw [rejection, hopen]

theorem Opening.notices_ofSettings (settings : Settings) (opener : Opener) :
    (Opening.ofSettings settings opener).notices = rejections settings opener :=
  notices_foldl_add opener _ _ ⟨[], Coverage.ofBlocks settings.blocks, []⟩ settings.fonts

/-- Without the fonts that cannot be used, the same is opened, and nothing is rejected. -/
theorem Opening.ofSettings_withUsable (settings : Settings) (opener : Opener) :
    Opening.ofSettings (settings.withUsable opener) opener =
      { Opening.ofSettings settings opener with notices := [] } := by
  let opened := Opening.ofSettings settings opener
  let opened' := Opening.ofSettings (settings.withUsable opener) opener
  obtain ⟨hfonts, hcoverage⟩ := Opening.ofSettings_eq settings opener
  obtain ⟨hfonts', hcoverage'⟩ := Opening.ofSettings_eq (settings.withUsable opener) opener
  have hsame : openAll opener (max settings.scale 1) (settings.withUsable opener).fonts =
      openAll opener (max settings.scale 1) settings.fonts := openAll_filter_isUsable opener _ _
  have hfonts : opened'.fonts = opened.fonts := hfonts'.trans (hsame.trans hfonts.symm)
  have hcoverage : opened'.coverage = opened.coverage := by
    rw [hcoverage, ← hsame]
    exact hcoverage'
  have hnotices : opened'.notices = [] :=
    (notices_ofSettings _ opener).trans (rejections_withUsable settings opener)
  calc opened'
    _ = ⟨opened'.fonts, opened'.coverage, opened'.notices⟩ := rfl
    _ = ⟨opened.fonts, opened.coverage, []⟩ := by rw [hfonts, hcoverage, hnotices]

/-- **The same stack is built without the fonts that cannot be used.** Only the notices on these
fonts are missing. -/
theorem build_of_usable (settings : Settings) (opener : Opener) :
    ∃ before after,
      build settings opener = ((build (settings.withUsable opener) opener).1,
        before ++ rejections settings opener ++ after) ∧
      (build (settings.withUsable opener) opener).2 = before ++ after := by
  have hnotices := Opening.notices_ofSettings settings opener
  unfold build
  rw [Opening.ofSettings_withUsable]
  generalize Opening.ofSettings settings opener = s at hnotices
  obtain ⟨fonts, coverage, notices⟩ := s
  obtain rfl : notices = rejections settings opener := hnotices
  cases fonts with
  | nil => exact ⟨_, _, Prod.ext rfl (List.append_assoc _ _ _), by simp; rfl⟩
  | cons font rest => exact ⟨_, _, Prod.ext rfl (List.append_assoc _ _ _), by simp; rfl⟩

/-! ### Numbers -/

/-- Number `i` is the position of a font that weighs something in a block with a code point. -/
def IsBacked (s : FontStack) (o : Coverage.Overrides) (code i : Nat) : Prop :=
  ∃ (font : OpenFont) (n : Nat) (b : Block), s.fonts[i]? = some font ∧
    s.coverage.blocks[n]? = some b ∧ code ∈ b ∧ 0 < (additionOf o font).weightIn i b

/-- **The numbers in the coverage of a stack are the positions of its fonts.** -/
structure IsNumbered (s : FontStack) (o : Coverage.Overrides) : Prop where
  /-- As many fonts were added to the coverage as there are in the list. -/
  count : s.coverage.fontCount = s.fonts.length
  /-- The weight of a number is that of the font at its position; other numbers weigh nothing. -/
  weight : ∀ n b i, s.coverage.blocks[n]? = some b →
    s.weight n i = (s.fonts[i]?).elim 0 fun font => (additionOf o font).weightIn i b
  /-- The fonts that are asked in a look-up with memory exist. -/
  asked : ∀ code has i, i ∈ (s.coverage.resolve code has).1.asked → s.IsBacked o code i
  /-- So do the fonts that are asked in a look-up without memory. -/
  askedStateless : ∀ code has i, i ∈ (s.coverage.resolveStateless code has).asked →
    s.IsBacked o code i
  /-- So does the font that is picked for a character, in either way. -/
  picked : ∀ c i, (s.fontFor c).1 = some i ∨ s.fontForStateless c = some i →
    s.IsBacked o c.toNat i
  /-- So does the font that a block is mapped to. -/
  mapped : ∀ b i, (b, some i) ∈ s.mapping →
    ∃ font, s.fonts[i]? = some font ∧ 0 < (additionOf o font).weightIn i b

/-- In a stack whose coverage records its fonts, a number that is asked or picked in the block of a
code point is backed by a font. -/
theorem isBacked_of_chooseAt (h : s.coverage.Records (s.fonts.map (additionOf o))) {code i : Nat}
    {block : Option Nat} {has : Nat → Bool}
    (hblock : ∀ n, block = some n → ∃ b, s.coverage.blocks[n]? = some b ∧ code ∈ b)
    (hi : i ∈ (s.coverage.chooseAt block has).asked ∨
      (s.coverage.chooseAt block has).font = some i) : s.IsBacked o code i := by
  cases block with
  | none => rcases hi with hasked | hfont <;> contradiction
  | some n =>
    obtain ⟨b, hb, hcode⟩ := hblock n rfl
    obtain ⟨f, hf, hpos⟩ := h.exists_of_pos hb (Coverage.weight_pos_of_chooseIn hi)
    rw [List.getElem?_map] at hf
    obtain ⟨font, hfont, rfl⟩ := Option.map_eq_some_iff.mp hf
    exact ⟨font, n, b, hfont, hb, hcode, hpos⟩

/-- A stack whose coverage records its fonts is numbered. -/
theorem isNumbered_of_records (h : s.coverage.Records (s.fonts.map (additionOf o))) :
    s.IsNumbered o := by
  have hmemory {code n : Nat} (hn : s.coverage.blockFor? code = some n) :=
    Coverage.mem_of_blockFor? hn
  have hstateless {code n : Nat} (hn : Block.find? s.coverage.blocks code = some n) :=
    Block.mem_of_find? hn
  constructor
  case count => rw [h.count, List.length_map]
  case weight =>
    intro n b i hb
    rw [weight, h.getD_weights hb, Coverage.weightOf, List.getElem?_map]
    cases s.fonts[i]? <;> rfl
  case asked =>
    intro code has i hi
    rw [Coverage.resolve_eq] at hi
    exact isBacked_of_chooseAt h (fun n => hmemory) (.inl hi)
  case askedStateless =>
    intro code has i hi
    rw [Coverage.resolveStateless_eq] at hi
    exact isBacked_of_chooseAt h (fun n => hstateless) (.inl hi)
  case picked =>
    rintro c i (hi | hi)
    · change (s.coverage.resolve c.toNat _).1.font = some i at hi
      rw [Coverage.resolve_eq] at hi
      exact isBacked_of_chooseAt h (fun n => hmemory) (.inr hi)
    · rw [fontForStateless_eq] at hi
      exact isBacked_of_chooseAt h (fun n => hstateless) (.inr hi)
  case mapped =>
    intro b i hi
    obtain ⟨row, hrow, hpair⟩ := List.mem_map.mp hi
    obtain ⟨rfl, hpreferred⟩ := Prod.mk.inj hpair
    obtain ⟨n, hn⟩ := List.getElem?_of_mem hrow
    have hblock : s.coverage.blocks[n]? = some row.block := by
      rw [Coverage.blocks, List.getElem?_map, hn]
      rfl
    have hpos : 0 < (s.coverage.weights n).getD i 0 := by
      rw [Coverage.weights_eq_of_getElem? hn]
      exact (Choice.spec_of_preferred_eq_some hpreferred).1.1
    obtain ⟨f, hf, hweight⟩ := h.exists_of_pos hblock hpos
    rw [List.getElem?_map] at hf
    obtain ⟨font, hfont, rfl⟩ := Option.map_eq_some_iff.mp hf
    exact ⟨font, hfont, hweight⟩

/-- **Fonts that cannot be used leave no trace.** Whatever fonts are listed, wherever those stand
that cannot be opened or have no glyphs, and whatever blocks and overrides are given: the stack is
the one that is built without them, in its fonts, its coverage, its placeholder and everything
that is answered from these. Only the notices tell the difference. And after any acts every number
in the coverage of the stack is the position of one of its fonts. -/
theorem unusable_fonts_leave_no_trace (settings : Settings) (opener : Opener) :
    let usable := settings.withUsable opener
    (build settings opener).1 = (build usable opener).1 ∧
    (∃ before after,
      (build settings opener).2 = before ++ rejections settings opener ++ after ∧
        (build usable opener).2 = before ++ after) ∧
    (∀ acts, ((build settings opener).1.performAll acts).IsNumbered
      ⟨settings.whitelist, settings.blacklist⟩) := by
  intro usable
  obtain ⟨before, after, hbuild, husable⟩ := build_of_usable settings opener
  have hstack : (build settings opener).1 = (build usable opener).1 := by rw [hbuild]
  refine ⟨hstack, ⟨before, after, by rw [hbuild], husable⟩, fun acts => ?_⟩
  exact isNumbered_of_records (records_performAll_build settings opener acts)

/-- A broken font stands before the first font that can be used, and one without glyphs before the
second. Both are left out, so that the first is raised as number 0. -/
theorem unusable_fonts_between_others :
    let narrow : TabulatedFont := ⟨"narrow", 2, [0x41, 0x42], [0x41, 0x42], [], [], .blank⟩
    let vacant : TabulatedFont := ⟨"vacant", 0, [0x41], [0x41], [], [], .blank⟩
    let wide : TabulatedFont := ⟨"wide", 3, [0x41, 0x42, 0x43], [0x41, 0x42, 0x43], [], [], .blank⟩
    let settings : Settings := .ofLists [⟨"Latin", 0x41, 0x5A⟩] [⟨.everyBlock, "narrow"⟩] []
      [⟨"broken", .bytes #[]⟩, ⟨"narrow", .table narrow⟩, ⟨"vacant", .table vacant⟩,
        ⟨"wide", .table wide⟩]
    let usable : Settings := .ofLists [⟨"Latin", 0x41, 0x5A⟩] [⟨.everyBlock, "narrow"⟩] []
      [⟨"narrow", .table narrow⟩, ⟨"wide", .table wide⟩]
    let s := (build settings FontData.openAny).1.performAll [.draw 'C' 12, .pick '!']
    (build settings FontData.openAny).1 = (build usable FontData.openAny).1 ∧
      s.coverage.fontCount = 2 ∧ s.weight 0 0 = 27 := by
  intro narrow vacant wide settings usable s
  obtain ⟨hstack, -, hnumbered⟩ := unusable_fonts_leave_no_trace settings FontData.openAny
  obtain ⟨hcount, hweight, -⟩ := hnumbered [.draw 'C' 12, .pick '!']
  obtain ⟨hkept, hfonts, -⟩ :=
    weight_performAll_build settings FontData.openAny [.draw 'C' 12, .pick '!']
  have hkept : s.coverage.blocks = [⟨"Latin", 0x41, 0x5A⟩] := hkept
  have hfonts : s.bare.fonts = [⟨"narrow", narrow.face, 4, []⟩, ⟨"wide", wide.face, 4, []⟩] :=
    hfonts
  have hlength : s.bare.fonts.length = s.fonts.length := List.length_map _
  obtain ⟨first, hfirst, hnarrow⟩ := Option.map_eq_some_iff.mp
    ((getElem?_bare_fonts s 0).symm.trans (by rw [hfonts]; rfl))
  have hcodes : narrow.face.codePoints = [0x41, 0x42] := Face.codePoints_of_isStrict (by decide)
  have hname : first.name = "narrow" := congrArg OpenFont.name hnarrow
  have hface : first.face = narrow.face := congrArg OpenFont.face hnarrow
  refine ⟨hstack, ?_, ?_⟩
  · rw [hcount, ← hlength, hfonts]
    rfl
  · rw [hweight 0 _ 0 (by rw [hkept]; rfl), hfirst, Option.elim_some, additionOf, hname, hface,
      hcodes]
    decide

end FontStack

end Typecase
