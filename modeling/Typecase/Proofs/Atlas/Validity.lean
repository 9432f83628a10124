import Typecase.Proofs.Atlas.Overflow
import Typecase.Proofs.Atlas.Scheduling
import Typecase.Proofs.FontStack.Marking

/-!
# Valid answers

The metrics of an answer say whether it is valid. They are those of the glyph that was drawn when
the entry was made, and a glyph is valid if a font was picked for its character
(`FontStack.valid_drawAs`).

* **Own entries.** A character that has an entry is given the entry, which is valid if and only if
  a font was picked for the character (`IsOrderly.exists_isOwn`).
* **Stand-ins.** A character that found no room is shown as the entry under the key of the
  placeholder. Nothing is entered there on behalf of the placeholder: an entry under this key was
  made for the tabulator, and it is valid if a font was picked for the tabulator
  (`IsOrderly.valid_standIn_iff`).

So an answer that is valid shows the character that was asked for, if no font can be picked for the
tabulator (`valid_after_any_history`), but not in general (`valid_standIn_tabs`).
-/

namespace Typecase

/-! ### Drawings -/

namespace FontStack

variable {s : FontStack} {font : Option Nat}

/-- The placeholder that is kept as a distance field is not valid, and stands for the tabulator. -/
structure HasPlainPlaceholder (s : FontStack) : Prop where
  valid : s.fieldPlaceholder.metrics.valid = false
  code : s.fieldPlaceholder.key.code = placeholderCode

theorem hasPlainPlaceholder_build (settings : Settings) (opener : Opener) :
    (build settings opener).1.bare.HasPlainPlaceholder := by
  have hplain : (build settings opener).1.fieldPlaceholder.metrics.valid = false ∧
      (build settings opener).1.fieldPlaceholder.key.code = placeholderCode := by
    unfold build
    dsimp only
    cases (Opening.ofSettings settings opener).fonts <;> exact ⟨rfl, rfl⟩
  exact ⟨hplain.1, hplain.2⟩

/-- At every size the placeholder is not valid, and stands for the tabulator. -/
theorem HasPlainPlaceholder.placeholder (h : s.HasPlainPlaceholder) (htidy : s.pool.IsTidy)
    (size : Int) : (s.placeholder size).1.metrics.valid = false ∧
      (s.placeholder size).1.key.code = placeholderCode := by
  have hcopy : (s.fieldPlaceholder.copy s.pool).1 = s.fieldPlaceholder := Glyph.fst_copy htidy _
  unfold FontStack.placeholder
  cases isFieldSize size with
  | true =>
    dsimp only
    rw [if_pos rfl, hcopy]
    exact ⟨h.valid, h.code⟩
  | false =>
    rw [if_neg Bool.false_ne_true]
    cases s.fonts with
    | nil =>
      dsimp only
      rw [hcopy]
      exact ⟨h.valid, h.code⟩
    | cons f rest => exact ⟨rfl, rfl⟩

/-- **A glyph is valid if a font was picked for it.** -/
theorem valid_drawAs (h : s.HasPlainPlaceholder) (htidy : s.pool.IsTidy)
    (hlt : ∀ i, font = some i → i < s.fonts.length) (c : Char) (size : Int) :
    (s.drawAs font c size).1.metrics.valid = font.isSome := by
  cases font with
  | none => exact (h.placeholder htidy size).1
  | some i =>
    have hfont := List.getElem?_eq_getElem (hlt i rfl)
    rw [drawAs]
    split <;> rw [drawWith, hfont] <;> rfl

end FontStack

/-! ### Arrivals -/

/-- An arrival is a drawing of the font picked for its character, or its stand-in. -/
def Arrival.IsDrawn (a : Arrival) (s₀ : FontStack) : Prop :=
  ∃ c font, a.key.code = c.toNat ∧ s₀.CanPick c font ∧ a.glyph = (s₀.drawAs font c a.key.size).1

theorem Page.isDrawn_of_arrival? {p : Page} {b : Bench Nat} {c : Char} {size : Int} {a : Arrival}
    (htidy : b.stack.pool.IsTidy) (hs : Block.IsSpaced b.stack.bare.coverage.blocks)
    (ha : p.arrival? b c size = some a) : a.IsDrawn b.stack.bare := by
  rw [arrival?] at ha
  split at ha
  · contradiction
  · obtain ⟨r, -, rfl⟩ := Option.map_eq_some_iff.mp ha
    have hspaced : Block.IsSpaced b.stack.coverage.blocks := hs
    have hpick := FontStack.canPick_fontFor hspaced c
    exact ⟨c, _, rfl, hpick.bare, FontStack.fst_glyph_eq htidy c size⟩

/-- Whatever arrives with a text is drawn. -/
theorem Page.isDrawn_of_mem_arrivals {p : Page} {b : Bench Nat} {size : Int} {text : List Char}
    {a : Arrival} (htidy : b.stack.pool.IsTidy) (hs : Block.IsSpaced b.stack.bare.coverage.blocks)
    (ha : a ∈ p.arrivals b size text) : a.IsDrawn b.stack.bare := by
  induction text generalizing p b with
  | nil => contradiction
  | cons c rest ih =>
    rw [arrivals] at ha
    rcases List.mem_append.mp ha with hfirst | hrest
    · exact isDrawn_of_arrival? htidy hs (Option.mem_toList.mp hfirst)
    · obtain ⟨hplace, -⟩ := receives_place htidy p c size
      exact hplace.bare ▸ ih hplace.tidy (hplace.bare.symm ▸ hs) hrest

namespace Asking

variable {s : Asking} {s₀ : FontStack} {id width height : Nat}

theorem IsOrderly.isDrawn_run (h : s.IsOrderly s₀ id width height)
    (hs : Block.IsSpaced s₀.coverage.blocks) (hdrawn : ∀ a ∈ s.arrivals, a.IsDrawn s₀)
    (acts : List Act) : ∀ a ∈ (s.run acts).arrivals, a.IsDrawn s₀ := by
  induction acts generalizing s with
  | nil => exact hdrawn
  | cons act rest ih =>
    refine ih (h.act act) fun a ha => ?_
    cases act with
    | find size text =>
      rcases List.mem_append.mp ha with hold | hnew
      · exact hdrawn a hold
      · exact h.bare ▸ Page.isDrawn_of_mem_arrivals h.tidy (h.bare.symm ▸ hs) hnew
    | work =>
      rw [Asking.act] at ha
      cases hr : s.bench.step? with
      | none =>
        rw [hr] at ha
        exact hdrawn a ha
      | some r =>
        rw [hr] at ha
        exact hdrawn a ha
    | cancel => exact hdrawn a ha
    | use act => exact hdrawn a ha

end Asking

/-! ### Answers -/

/-- An answer is the own entry of a character, for which a font, or none, was picked: it is valid if
it was a font. -/
structure Page.IsOwn (p : Page) (s₀ : FontStack) (size : Int) (c : Char) (font : Option Nat)
    (e : Placement) : Prop where
  entry : p.entry ⟨c.toNat, size⟩ = some e
  pick : s₀.CanPick c font
  valid : e.metrics.valid = font.isSome

namespace Asking

variable {s : Asking} {s₀ : FontStack} {id width height : Nat} {c : Char} {size : Int}
  {e : Placement}

/-- Every entry is the own entry of its character. -/
theorem IsOrderly.exists_isOwn (h : s.IsOrderly s₀ id width height)
    (hdrawn : ∀ a ∈ s.arrivals, a.IsDrawn s₀) (hplain : s₀.HasPlainPlaceholder)
    (htidy : s₀.pool.IsTidy) (he : s.page.entry ⟨c.toNat, size⟩ = some e) :
    ∃ font, s.page.IsOwn s₀ size c font e := by
  have hmem := Page.mem_of_entry he
  rw [h.index, List.mem_reverse] at hmem
  obtain ⟨a, ha, heq⟩ := List.mem_map.mp hmem
  obtain ⟨hkey, rfl⟩ := Prod.mk.inj heq
  obtain ⟨d, font, hcode, hpick, hglyph⟩ := hdrawn a ha
  rw [hkey] at hcode
  obtain rfl : c = d := Char.toNat_inj.mp hcode
  refine ⟨font, he, hpick, ?_⟩
  change a.glyph.metrics.valid = _
  rw [hglyph, FontStack.valid_drawAs hplain htidy hpick.lt]

/-- **What stands in for a character is valid only as the own entry of the tabulator.** -/
theorem IsOrderly.valid_standIn_iff (h : s.IsOrderly s₀ id width height)
    (hdrawn : ∀ a ∈ s.arrivals, a.IsDrawn s₀) (hplain : s₀.HasPlainPlaceholder)
    (htidy : s₀.pool.IsTidy) (size : Int) :
    (s.page.standIn s₀ size).metrics.valid = true ↔ ∃ i,
      s.page.IsOwn s₀ (s₀.placeholder size).1.key.size '\t' (some i) (s.page.standIn s₀ size) := by
  obtain ⟨hvalid, hcode⟩ := hplain.placeholder htidy size
  have hkey : (s₀.placeholder size).1.key = ⟨('\t').toNat, (s₀.placeholder size).1.key.size⟩ :=
    congrArg (GlyphKey.mk · _) hcode
  constructor
  · intro hv
    cases he : s.page.entry (s₀.placeholder size).1.key with
    | none =>
      rw [Page.standIn, he] at hv
      exact absurd hv (by rw [Option.getD_none, hvalid]; exact Bool.false_ne_true)
    | some e =>
      have hshown : s.page.standIn s₀ size = e := by rw [Page.standIn, he, Option.getD_some]
      rw [hshown] at hv ⊢
      rw [hkey] at he
      obtain ⟨font, hown⟩ := h.exists_isOwn hdrawn hplain htidy he
      obtain ⟨i, rfl⟩ := Option.isSome_iff_exists.mp (hown.valid ▸ hv)
      exact ⟨i, hown⟩
  · rintro ⟨i, hown⟩
    exact hown.valid

/-- **Which answers are valid.** Whatever was done before, every answer is either the own entry of
the character, and valid if a font was picked for the character; or the character has no entry on a
page that is full, and what stands in for it is valid if and only if it is the own entry of the
tabulator, at the size of the placeholder, and a font was picked for the tabulator. -/
theorem valid_after_any_history (settings : Settings) (opener : Opener)
    (packager : Packager Nat) (scale id width height baseHeight : Nat) (acts : List Act)
    (size : Int) (text : List Char) :
    let s₀ := (FontStack.build settings opener).1.bare
    let s := (start (FontStack.build settings opener).1 packager scale id width height
      baseHeight).run acts
    let f := s.page.find s.bench size text
    f.placements.length = text.length ∧
      ∀ (i : Nat) c e, text[i]? = some c → f.placements[i]? = some e →
        (∃ font, f.page.IsOwn s₀ size c font e) ∨
          f.page.entry ⟨c.toNat, size⟩ = none ∧ f.page.shelf.full = true ∧
            (e.metrics.valid = true ↔
              ∃ i, f.page.IsOwn s₀ (s₀.placeholder size).1.key.size '\t' (some i) e) := by
  intro s₀ s f
  have hsound := FontStack.isSound_build settings opener
  have hplain : s₀.HasPlainPlaceholder := FontStack.hasPlainPlaceholder_build settings opener
  have hspaced : Block.IsSpaced s₀.coverage.blocks := FontStack.isSpaced_build settings opener
  have hstart := isOrderly_start hsound.tidy packager scale id width height baseHeight
  have h : s.IsOrderly s₀ id width height := hstart.run acts
  have h' : (s.act (.find size text)).IsOrderly s₀ id width height := h.find size text
  have hdrawn : ∀ a ∈ (s.act (.find size text)).arrivals, a.IsDrawn s₀ :=
    h.isDrawn_run hspaced (hstart.isDrawn_run hspaced (by simp [start]) acts) [.find size text]
  obtain ⟨-, -, hholds, hshown⟩ := Page.receives_find h.tidy s.page h.nodup size text
  have hshown : f.placements = text.map (f.page.shown s₀ size) := h.bare ▸ hshown
  rw [hshown]
  refine ⟨List.length_map _, fun i c e hc he => ?_⟩
  rw [List.getElem?_map, hc, Option.map_some] at he
  obtain rfl := Option.some.inj he
  rw [Page.shown]
  cases hentry : f.page.entry ⟨c.toNat, size⟩ with
  | some e => exact .inl (h'.exists_isOwn hdrawn hplain hsound.bare.tidy hentry)
  | none =>
    have hnone : ¬(f.page.entry ⟨c.toNat, size⟩).isSome = true := by rw [hentry]; simp
    have hfull := (hholds c (List.mem_of_getElem? hc)).resolve_left hnone
    exact .inr ⟨rfl, hfull, h'.valid_standIn_iff hdrawn hplain hsound.bare.tidy size⟩

end Asking

/-! ### A valid stand-in -/

/-- A font stack for the tabulator and one letter. -/
def tabs : FontStack := (FontStack.build tabSettings FontData.openAny).1

theorem crowds_tabs : tabs.bare.Crowds 1 16 :=
  crowds_of_dots rfl (fun _ => rfl) fun _ => rfl

/-- **What stands in for a letter is valid** on a page that has room for the tabulator alone and was
asked for it first, although the letter has a font and no entry. -/
theorem Asking.valid_standIn_tabs :
    let s := (start tabs .immediate 1 0 16 16 1).run [.find 1 ['\t']]
    let f := s.page.find s.bench 1 ['A']
    tabs.fontForStateless 'A' = some 0 ∧ f.page.entry ⟨('A').toNat, 1⟩ = none ∧
      ∃ e, f.placements = [e] ∧ e.metrics.valid = true := by
  intro s f
  have hsound : tabs.IsSound := FontStack.isSound_build tabSettings FontData.openAny
  have hspaced := FontStack.isSpaced_build tabSettings FontData.openAny
  -- the page has room for the tabulator, and for nothing else
  have hb : (⟨tabs, .immediate, 1, []⟩ : Bench Nat).Upholds tabs.bare := ⟨rfl, hsound, rfl, rfl⟩
  obtain ⟨e, hspills⟩ :=
    Page.find_spills hb hspaced crowds_tabs 0 1 (by decide : 'A' ≠ '\t') []
  have hpage : f.page.Spills tabs.bare 1 '\t' e := hspills
  have hentry := hpage.entry_of_ne (by decide : 'A' ≠ '\t')
  have hstart := isOrderly_start hsound.tidy .immediate 1 0 16 16 1
  have h := hstart.run [.find 1 ['\t']]
  obtain ⟨-, -, -, hshown⟩ := Page.receives_find h.tidy s.page h.nodup 1 ['A']
  have hshown : f.placements = [f.page.shown tabs.bare 1 'A'] := h.bare ▸ hshown
  -- so the letter is shown as the tabulator
  have hkey : (tabs.bare.placeholder 1).1.key = ⟨('\t').toNat, 1⟩ := rfl
  rw [Page.shown, hentry, Option.getD_none, Page.standIn, hkey, hpage.entry_self,
    Option.getD_some] at hshown
  -- which is valid, because it has a font
  have hdrawn := hstart.isDrawn_run hspaced (by simp [start]) [.find 1 ['\t'], .find 1 ['A']]
  obtain ⟨font, hown⟩ := (h.find 1 ['A']).exists_isOwn hdrawn
    (FontStack.hasPlainPlaceholder_build tabSettings FontData.openAny) hsound.bare.tidy
    hpage.entry_self
  have htab : tabs.bare.fontForStateless '\t' = some 0 :=
    (FontStack.fontForStateless_bare tabs '\t').trans (pick_tabSettings [] (by decide)).2
  obtain rfl := hown.pick.stateless 0 htab
  exact ⟨(pick_tabSettings [] (by decide)).2, hentry, e, hshown, hown.valid⟩

end Typecase
