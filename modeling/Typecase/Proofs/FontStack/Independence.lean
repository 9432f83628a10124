import Typecase.Proofs.FontStack.Dots
import Typecase.Proofs.FontStack.Picking

/-!
# Drawings and the past

Three things survive in a font stack from one call to the next: free buffers, which still hold the
bytes of old drawings, the block of the last look-up, and the placeholder that was drawn when the
stack was built. Drawing should not show them. Two stacks are compared that were built alike, and
for which different acts were carried out since then.

* **Buffers and the placeholder** cannot be seen: the stand-ins that the two stacks give are the
  same, and so is what packaging gives (`same_standIns`).
* **The last block** cannot be seen if the blocks are searchable (`same_drawings`). If they are not,
  there are fonts for which it is seen: the character that bisection misses is drawn in one font at
  first, and in another one after its block was looked up for another character
  (`glyph_dotStack_ne`).
* **The condition is exact** (`same_after_any_histories_iff`), and met if no block is inverted.
-/

namespace Typecase

namespace FontStack

variable {s t : FontStack} {blocks : List Block} {c d : Char} {i : Nat} {b : Block}

/-! ### What cannot be seen -/

/-- Stacks that differ in what they remember give the same stand-ins and the same packaged
drawings. -/
theorem same_standIns (hs : s.pool.IsTidy) (ht : t.pool.IsTidy) (hbare : s.bare = t.bare) :
    (∀ size, (s.placeholder size).1 = (t.placeholder size).1) ∧
      ∀ g scale, (package g scale s.pool).1 = (package g scale t.pool).1 := by
  refine ⟨fun size => ?_, fun g scale => ?_⟩
  · rw [fst_placeholder hs, fst_placeholder ht, hbare]
  · rw [fst_package g scale hs, fst_package g scale ht]

/-- Over searchable blocks they draw every character alike. -/
theorem same_drawings (hs : s.IsSound) (ht : t.IsSound) (hbare : s.bare = t.bare)
    (hblocks : Block.IsSearchable s.bare.coverage.blocks) (c : Char) (size : Int) :
    (s.glyph c size).1 = (t.glyph c size).1 := by
  have hblocks' : Block.IsSearchable t.bare.coverage.blocks := hbare ▸ hblocks
  rw [fst_glyph hs hblocks, fst_glyph ht hblocks', hbare]

/-! ### What can be seen -/

/-- After a character was looked up, the block that bisection finds for it is remembered. -/
theorem hint_pick (hhint : s.coverage.hint = none)
    (hc : Block.find? s.coverage.blocks c.toNat = some i) :
    (s.perform (.pick c)).coverage.hint = some i := by
  change (s.coverage.resolve c.toNat _).2.hint = some i
  rw [Coverage.resolve_eq, Coverage.blockFor?_of_hint_eq_none hhint, hc]
  rfl

/-- **A look-up can be seen in a later drawing.** If bisection finds a block for `c` and misses
another character `d` of the block, then the two fonts of `dots` draw `d` in one way before `c` was
looked up, and in another way afterwards. -/
theorem glyph_dotStack_ne (hc : Block.find? (Block.arrange blocks).kept c.toNat = some i)
    (hb : (Block.arrange blocks).kept[i]? = some b) (hmem : d.toNat ∈ b)
    (hd : Block.find? (Block.arrange blocks).kept d.toNat = none) :
    ((dotStack blocks d).glyph d 1).1 ≠
      (((dotStack blocks d).perform (.pick c)).glyph d 1).1 := by
  have htidy : (dotStack blocks d).pool.IsTidy := (isSound_build _ _).tidy
  have hhint : (dotStack blocks d).coverage.hint = none := by
    rw [dotStack, coverage_build]
    exact (Opening.ofSettings_coverage _ _).2
  have hblocks : (dotStack blocks d).coverage.blocks = (Block.arrange blocks).kept :=
    blocks_of_bare_eq rfl
  -- before the look-up, nothing is found for `d`, and the first font stands in
  have hfirst : ((dotStack blocks d).glyph d 1).1.picture = dotPicture 1 :=
    (glyph_of_font_eq_none htidy rfl (fst_fontFor_of_miss rfl hhint hd)).1
  -- after it the block is remembered, and the second font has `d`
  have hpicked : ((dotStack blocks d).perform (.pick c)).bare = (dotStack blocks d).bare :=
    bare_perform _ _
  have hremembered := hint_pick hhint (hblocks ▸ hc)
  have hsecond : (((dotStack blocks d).perform (.pick c)).glyph d 1).1.picture = dotPicture 2 :=
    (glyph_of_font_eq_second (isTidy_perform htidy (.pick c)) hpicked
      (fst_fontFor_of_hint hpicked hremembered hb hmem)).1
  intro hsame
  rw [hsame, hsecond] at hfirst
  have hbyte : (dotPicture 2).bytes[40]? = (dotPicture 1).bytes[40]? := by rw [hfirst]
  rw [getElem?_bytes_dotPicture, getElem?_bytes_dotPicture] at hbyte
  exact absurd hbyte (by decide)

/-! ### Any two histories -/

/-- **What is drawn does not depend on the past if the blocks are searchable.** Over any fonts, any
two histories of a stack leave the same stand-ins and the same packaged drawings. They leave the
same drawings of all characters, whatever the fonts, if and only if the blocks kept are searchable.
If no block is inverted, the blocks kept are searchable. -/
theorem same_after_any_histories_iff (blocks : List Block) :
    (∀ (settings : Settings) (opener : Opener) (acts acts' : List Act),
      let s := (build { settings with blocks } opener).1.performAll acts
      let t := (build { settings with blocks } opener).1.performAll acts'
      (∀ size, (s.placeholder size).1 = (t.placeholder size).1) ∧
        ∀ g scale, (package g scale s.pool).1 = (package g scale t.pool).1) ∧
      ((∀ (settings : Settings) (opener : Opener) (acts acts' : List Act) (c : Char) (size : Int),
        let s := (build { settings with blocks } opener).1.performAll acts
        let t := (build { settings with blocks } opener).1.performAll acts'
        (s.glyph c size).1 = (t.glyph c size).1) ↔
          Block.IsSearchable (Block.arrange blocks).kept) ∧
      ((∀ b ∈ blocks, b.first ≤ b.last) → Block.IsSearchable (Block.arrange blocks).kept) := by
  have hsame : ∀ (settings : Settings) (opener : Opener) (acts acts' : List Act),
      ((build settings opener).1.performAll acts).bare =
        ((build settings opener).1.performAll acts').bare := fun settings opener acts acts' =>
    (bare_performAll _ acts).trans (bare_performAll _ acts').symm
  have hsound : ∀ (settings : Settings) (opener : Opener) (acts : List Act),
      ((build settings opener).1.performAll acts).IsSound := fun settings opener acts =>
    (isSound_build settings opener).performAll acts
  refine ⟨fun settings opener acts acts' => ?_, ⟨fun hdraw => ?_, fun hsearch => ?_⟩,
    fun hb => (Block.isOrdered_kept_arrange hb).isSearchable⟩
  · exact same_standIns (hsound _ _ acts).tidy (hsound _ _ acts').tidy (hsame _ _ acts acts')
  · refine Classical.not_not.mp fun hnot => ?_
    obtain ⟨c, d, i, b, hc, hb, hmem, hd⟩ :=
      (Block.isSpaced_kept_arrange blocks).exists_of_not_isSearchable hnot
    exact glyph_dotStack_ne hc hb hmem hd
      (hdraw (dots blocks d) FontData.openAny [] [.pick c] d 1)
  · intro settings opener acts acts' c size
    refine same_drawings (hsound _ _ acts) (hsound _ _ acts') (hsame _ _ acts acts') ?_ c size
    rw [bare_performAll]
    have hblocks := blocks_build { settings with blocks } opener
    exact hblocks ▸ hsearch

end FontStack

end Typecase
