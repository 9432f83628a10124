import Typecase.Proofs.Atlas.Pending
import Typecase.Proofs.Atlas.Session
import Typecase.Proofs.FontStack.Readiness

/-!
# When drawings are recorded as ready

The record of the drawings that are ready is kept by the fonts. Two things add to it.

* **Asking for characters** records a glyph that has no ink, since there is nothing to upload, and
  no other (`isReady_find`).
* **Uploading** records what was pending, whether there was something to upload or not
  (`isReady_upload`), page by page (`isReady_uploadPages`).

Nothing is ever taken back.
-/

namespace Typecase

namespace Page

variable {b : Bench Nat} {s₀ : FontStack} {size : Int} {key : GlyphKey} {i : Nat}

/-! ### Asking for characters -/

/-- What is packaged for a character is a finished drawing for its key. -/
theorem draws_glyph (hb : b.Upholds s₀) (hs : Block.IsSpaced s₀.coverage.blocks)
    (hsize : size < 0x80000000) (c : Char) :
    s₀.Draws ⟨c.toNat, size⟩ (FontStack.package (b.stack.glyph c size).1 s₀.scale .empty).1 := by
  have hpick : s₀.CanPick c (b.stack.fontFor c).1 := by
    rw [← hb.bare]
    exact (FontStack.canPick_fontFor (hb.blocks ▸ hs) c).bare
  refine ⟨c, _, rfl, hsize, hpick, ?_⟩
  rw [FontStack.fst_glyph_eq hb.sound.tidy, hb.bare]
  rfl

/-- Asking for a character marks its glyph if that has no ink, and changes no font otherwise. -/
theorem fonts_place (h : b.packager = .immediate) (p : Page) (c : Char) (size : Int) :
    (p.place b c size).bench.stack.fonts = b.stack.fonts ∨
      (b.stack.glyph c size).1.picture.data = none ∧
        (p.place b c size).bench.stack.fonts = (b.stack.markReady (b.stack.glyph c size).1).fonts := by
  have hglyph := b.stack.fonts_glyph c size
  unfold place
  dsimp only
  split
  · exact .inl rfl
  · split
    · unfold enter
      dsimp only
      split
      · rename_i hink
        refine .inr ⟨Option.isNone_iff_eq_none.mp hink, ?_⟩
        rw [FontStack.markReady, hglyph]
        rfl
      · refine .inl ?_
        unfold Bench.schedule Bench.note
        dsimp only
        rw [h]
        exact hglyph
    · refine .inl ?_
      have hnote : ∀ (b : Bench Nat) (code : Nat) (g : Glyph),
          (p.noteUnpacked b code g).stack = b.stack := by
        intro b code g
        rw [noteUnpacked]
        split <;> rfl
      refine (FontStack.fonts_placeholder _ size).trans ?_
      rw [hnote]
      exact hglyph

/-- Asking for a character records a drawing without ink at most. -/
theorem isReady_place (hb : b.Upholds s₀) (hs : Block.IsSpaced s₀.coverage.blocks)
    (hsize : size < 0x80000000) (p : Page) (c : Char)
    (h : (p.place b c size).bench.stack.isReady i key = true) :
    b.stack.isReady i key = true ∨
      ∃ k g, s₀.Draws k g ∧ g.font = i ∧ g.key = key ∧ g.picture.data = none := by
  rcases fonts_place hb.immediate p c size with hfonts | ⟨hink, hfonts⟩
  · exact .inl (FontStack.isReady_eq_of_fonts hfonts ▸ h)
  · rw [FontStack.isReady_eq_of_fonts hfonts, FontStack.isReady_markReady] at h
    refine h.imp_right fun hmarked => ?_
    obtain ⟨-, hfont, hkey⟩ := hmarked
    have hdraws := draws_glyph hb hs hsize c
    rw [FontStack.package_of_data_eq_none _ _ _ hink] at hdraws
    exact ⟨_, _, hdraws, hfont, hkey, hink⟩

/-- **Asking for a text records drawings without ink only.** -/
theorem isReady_find (hb : b.Upholds s₀) (hs : Block.IsSpaced s₀.coverage.blocks)
    (hsize : size < 0x80000000) (p : Page) (text : List Char)
    (h : (p.find b size text).bench.stack.isReady i key = true) :
    b.stack.isReady i key = true ∨
      ∃ k g, s₀.Draws k g ∧ g.font = i ∧ g.key = key ∧ g.picture.data = none := by
  induction text generalizing p b with
  | nil => exact .inl h
  | cons c rest ih =>
    obtain ⟨hb', -⟩ := place_spec hb p c size
    rcases ih hb' _ h with hfirst | hnew
    · exact isReady_place hb hs hsize p c hfirst
    · exact .inr hnew

/-- What is recorded stays recorded when a text is asked for. -/
theorem isReady_find_of_isReady (hb : b.Upholds s₀) (p : Page) (size : Int) (text : List Char)
    (h : b.stack.isReady i key = true) :
    (p.find b size text).bench.stack.isReady i key = true := by
  induction text generalizing p b with
  | nil => exact h
  | cons c rest ih =>
    obtain ⟨hb', -⟩ := place_spec hb p c size
    refine ih hb' _ ?_
    rcases fonts_place hb.immediate p c size with hfonts | ⟨-, hfonts⟩
    · rw [FontStack.isReady_eq_of_fonts hfonts]
      exact h
    · rw [FontStack.isReady_eq_of_fonts hfonts, FontStack.isReady_markReady]
      exact .inl h

/-! ### Uploading -/

/-- Uploading a job marks its glyph. -/
theorem isReady_foldl_uploadJob (handle : Nat) (jobs : List Job) (t : Transfer) :
    (jobs.foldl (uploadJob handle) t).stack.isReady i key = true ↔
      t.stack.isReady i key = true ∨
        i < t.stack.fonts.length ∧ ∃ j ∈ jobs, j.glyph.font = i ∧ j.glyph.key = key := by
  induction jobs generalizing t with
  | nil => simp
  | cons j jobs ih =>
    have hfonts : (uploadJob handle t j).stack.fonts = (t.stack.markReady j.glyph).fonts := by
      rw [uploadJob]
      split <;> rfl
    have hlength : (uploadJob handle t j).stack.fonts.length = t.stack.fonts.length := by
      rw [hfonts]
      exact List.length_modify ..
    rw [List.foldl_cons, ih, hlength, FontStack.isReady_eq_of_fonts hfonts,
      FontStack.isReady_markReady, or_assoc, ← and_or_left]
    simp only [List.mem_cons, exists_eq_or_imp]

/-- **Uploading a page records what was pending for it**, and nothing else. -/
theorem isReady_upload (p : Page) (t : Transfer) :
    (p.upload t).2.stack.isReady i key = true ↔
      t.stack.isReady i key = true ∨
        i < t.stack.fonts.length ∧ ∃ j ∈ p.pending, j.glyph.font = i ∧ j.glyph.key = key := by
  have hstack : (p.ensureHandle t).2.stack = t.stack := by
    rw [ensureHandle]
    split <;> rfl
  rw [upload, isReady_foldl_uploadJob, hstack]

end Page

namespace Atlas

variable {a : Atlas} {s₀ : FontStack} {i : Nat} {key : GlyphKey}

/-- What is recorded stays recorded when a request is served. -/
theorem isReady_lookup_of_isReady (ho : a.Orderly s₀) (lines : List (List Char)) (size : Int)
    (h : a.bench.stack.isReady i key = true) :
    (a.lookup lines size).2.bench.stack.isReady i key = true := by
  obtain ⟨b, hb, -, -, -, hstack, hbench⟩ := lookup_spec ho lines size
  rw [hbench]
  exact Page.isReady_find_of_isReady hb _ size _ (hstack ▸ h)

/-- **Uploading records what was pending for any of the pages**, and nothing else. -/
theorem isReady_uploadPages (t : Page.Transfer) (ids : List Nat) (ht : t.stack.IsSound) :
    (a.uploadPages t ids).2.stack.isReady i key = true ↔
      t.stack.isReady i key = true ∨ i < t.stack.fonts.length ∧ ∃ id ∈ ids, ∃ p,
        a.page? id = some p ∧ ∃ j ∈ p.pending, j.glyph.font = i ∧ j.glyph.key = key := by
  induction ids generalizing a t with
  | nil => simp [uploadPages]
  | cons id rest ih =>
    rw [uploadPages]
    cases hp : a.page? id with
    | none => simp [ih t ht, hp]
    | some p =>
      obtain ⟨hsound, hbare, -⟩ := p.stack_upload t ht
      dsimp only
      rw [ih _ hsound, p.isReady_upload, FontStack.length_fonts_of_bare_eq hbare, or_assoc, ← and_or_left]
      refine or_congr_right (and_congr_right fun _ => ?_)
      simp only [List.mem_cons, exists_eq_or_imp, hp, Option.some.injEq, exists_eq_left']
      -- what was pending for the first page is pending no more, and the others are as before
      have hother : ∀ {id' q}, id' ≠ id →
          ((a.setPage id (p.upload t).1).page? id' = some q ↔ a.page? id' = some q) := by
        intro id' q hne
        rw [page?_setPage hp, if_neg hne]
      constructor
      · rintro (hfirst | ⟨id', hid, q, hq, j, hj, hrecord⟩)
        · exact .inl hfirst
        · by_cases heq : id' = id
          · rw [page?_setPage hp, if_pos heq] at hq
            obtain rfl := Option.some.inj hq
            contradiction
          · exact .inr ⟨id', hid, q, (hother heq).mp hq, j, hj, hrecord⟩
      · rintro (hfirst | ⟨id', hid, q, hq, j, hj, hrecord⟩)
        · exact .inl hfirst
        · by_cases heq : id' = id
          · rw [heq, hp] at hq
            obtain rfl := Option.some.inj hq
            exact .inl ⟨j, hj, hrecord⟩
          · exact .inr ⟨id', hid, q, (hother heq).mpr hq, j, hj, hrecord⟩

end Atlas

end Typecase
