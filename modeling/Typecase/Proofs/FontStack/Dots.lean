import Typecase.Proofs.Coverage.Descent
import Typecase.Proofs.Coverage.Weights
import Typecase.Proofs.FontStack.Memory

/-!
# Fonts of single pixels

Fonts that draw the same single pixel for all characters, so that a drawing shows the font that it
was made with. `dots` are two of them. The first one maps nothing, but stands in for the characters
without a font; the second one maps a character. If bisection misses this character, it is drawn in
the first font as long as no block is remembered (`fst_fontFor_of_miss`), and in the second font as
soon as its block is (`fst_fontFor_of_hint`).
-/

namespace Typecase

/-- A drawing of a single pixel. -/
def dot (v : UInt8) : Rendering := ⟨1, 1, 1, some #[v], 0, 0, 0, 0⟩

/-- A font that maps some code points and draws the same single pixel for all characters. -/
def dotFont (codes : List Nat) (v : UInt8) : TabulatedFont :=
  ⟨"dots", 1, codes, codes, [], [], dot v⟩

/-- Two fonts of single pixels. The first one maps nothing, the second one maps a character. -/
def dots (blocks : List Block) (d : Char) : Settings :=
  ⟨blocks, [], [],
    [⟨"dots", .table (dotFont [] 1)⟩, ⟨"dots", .table (dotFont [d.toNat] 2)⟩], 1, 1⟩

/-- A font stack over these two fonts. -/
def dotStack (blocks : List Block) (d : Char) : FontStack :=
  (FontStack.build (dots blocks d) FontData.openAny).1

/-! ### Which font is picked -/

section Dots

variable {blocks : List Block} {c d : Char} {i : Nat} {b : Block} {t : FontStack}

private theorem codePoints_dotFont_nil (v : UInt8) : (dotFont [] v).face.codePoints = [] := by
  rw [Face.codePoints]
  change ([] : List Nat).mergeSort.eraseReps = _
  rw [List.mergeSort_nil]
  rfl

private theorem codePoints_dotFont_singleton (n : Nat) (v : UInt8) :
    (dotFont [n] v).face.codePoints = [n] := by
  rw [Face.codePoints]
  change (List.mergeSort [n]).eraseReps = _
  rw [List.mergeSort_singleton]
  rfl

/-- In the block of its character only the second font has a weight. -/
theorem weights_dotStack (hb : (Block.arrange blocks).kept[i]? = some b) (hd : d.toNat ∈ b) :
    (dotStack blocks d).coverage.weights i = [0, 1] := by
  have hcoverage : (dotStack blocks d).coverage =
      ((Coverage.ofBlocks blocks).add ⟨"dots", (dotFont [] 1).face.codePoints, ⟨[], []⟩⟩).add
        ⟨"dots", (dotFont [d.toNat] 2).face.codePoints, ⟨[], []⟩⟩ := rfl
  rw [codePoints_dotFont_nil, codePoints_dotFont_singleton] at hcoverage
  have hspaced : Block.IsSpaced (Coverage.ofBlocks blocks).blocks := by
    rw [Coverage.blocks_ofBlocks]
    exact Block.isSpaced_kept_arrange blocks
  have hnil : Coverage.Addition.IsSorted ⟨"dots", [], ⟨[], []⟩⟩ := List.Pairwise.nil
  have hsingle : Coverage.Addition.IsSorted ⟨"dots", [d.toNat], ⟨[], []⟩⟩ :=
    List.pairwise_singleton _ _
  have hrow : ((Coverage.ofBlocks blocks).add ⟨"dots", [], ⟨[], []⟩⟩).rows[i]? = some ⟨b, []⟩ := by
    rw [Coverage.rows_add hspaced hnil, Coverage.ofBlocks, List.map_map, List.getElem?_map, hb]
    rfl
  have hhits : Coverage.hits b [d.toNat] = 1 := by
    rw [Coverage.hits_cons, if_pos hd]
    rfl
  rw [hcoverage, Coverage.weights, Coverage.rows_add (by rwa [Coverage.blocks_add]) hsingle,
    List.getElem?_map, hrow]
  change ((⟨b, []⟩ : Coverage.Row).enter ⟨[], []⟩ "dots" 1 (Coverage.hits b [d.toNat])).weights = _
  rw [hhits]
  rfl

/-- The blocks of these fonts are the blocks kept, whatever is remembered. -/
theorem blocks_of_bare_eq (ht : t.bare = (dotStack blocks d).bare) :
    t.coverage.blocks = (Block.arrange blocks).kept := by
  have hsame : t.bare.coverage.blocks = (dotStack blocks d).bare.coverage.blocks := by rw [ht]
  exact hsame.trans (FontStack.blocks_build (dots blocks d) FontData.openAny)

/-- As long as no block is remembered, a character that bisection misses has no font. -/
theorem fst_fontFor_of_miss (ht : t.bare = (dotStack blocks d).bare)
    (hhint : t.coverage.hint = none)
    (hd : Block.find? (Block.arrange blocks).kept d.toNat = none) : (t.fontFor d).1 = none := by
  have hmiss : t.coverage.blockFor? d.toNat = none := by
    rw [Coverage.blockFor?_of_hint_eq_none hhint, blocks_of_bare_eq ht, hd]
  rw [FontStack.fontFor, Coverage.resolve_of_miss hmiss]

/-- As soon as its block is remembered, a character that the second font maps has that font. -/
theorem fst_fontFor_of_hint (ht : t.bare = (dotStack blocks d).bare)
    (hhint : t.coverage.hint = some i) (hb : (Block.arrange blocks).kept[i]? = some b)
    (hd : d.toNat ∈ b) : (t.fontFor d).1 = some 1 := by
  have hblock : t.coverage.blockFor? d.toNat = some i := by
    have hhinted := Coverage.hinted?_eq_some_iff.mpr
      ⟨hhint, b, by rw [blocks_of_bare_eq ht, hb], hd⟩
    rw [Coverage.blockFor?, hhinted, Option.some_or]
  have hhas : t.hasGlyph d.toNat 1 = true := by
    rw [← FontStack.hasGlyph_bare, ht]
    change (dotFont [d.toNat] 2).face.has d.toNat = true
    simp [Face.has, TabulatedFont.face, dotFont, List.idxOf?, List.findIdx?_cons]
  have hweights : t.coverage.weights i = [0, 1] := by
    have hsame : t.bare.coverage.weights i = (dotStack blocks d).bare.coverage.weights i := by
      rw [ht]
    exact hsame.trans (weights_dotStack hb hd)
  have hheaviest : Choice.heaviest none [0, 1] = some (1, 1) := by decide
  change (t.coverage.resolve d.toNat _).1.font = _
  rw [Coverage.resolve_eq, hblock]
  change (t.coverage.chooseIn i _).font = _
  rw [Coverage.chooseIn, hweights, Choice.descend, Choice.descendFrom_of_eq_some hheaviest,
    if_pos hhas]

/-- The picture of a single pixel, with its margin. -/
def dotPicture (v : UInt8) : Picture := (OpenFont.paddedPicture (dot v) .empty).1

/-- The pixel is in the middle. -/
theorem getElem?_bytes_dotPicture (v : UInt8) : (dotPicture v).bytes[40]? = some v := by
  have hrows : OpenFont.rowsPresent (dot v) #[v] = 1 := by simp [OpenFont.rowsPresent, dot]
  change (Strip.layAll (Array.replicate 81 0) (OpenFont.paddedRows (dot v) #[v]))[40]? = some v
  rw [OpenFont.paddedRows, hrows]
  rfl

/-- A character without a font is drawn as the placeholder of the first font. -/
theorem glyph_of_font_eq_none (htidy : t.pool.IsTidy) (ht : t.bare = (dotStack blocks d).bare)
    (hfont : (t.fontFor d).1 = none) :
    (t.glyph d 1).1.picture = dotPicture 1 ∧ (t.glyph d 1).1.isField = false := by
  rw [FontStack.fst_glyph_eq htidy, hfont, ht]
  exact ⟨rfl, rfl⟩

theorem glyph_of_font_eq_second (htidy : t.pool.IsTidy) (ht : t.bare = (dotStack blocks d).bare)
    (hfont : (t.fontFor d).1 = some 1) :
    (t.glyph d 1).1.picture = dotPicture 2 ∧ (t.glyph d 1).1.isField = false := by
  rw [FontStack.fst_glyph_eq htidy, hfont, ht]
  exact ⟨rfl, rfl⟩

end Dots

end Typecase
