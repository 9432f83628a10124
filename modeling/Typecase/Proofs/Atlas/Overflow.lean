import Typecase.Proofs.Atlas.Fidelity
import Typecase.Proofs.Atlas.Keeping
import Typecase.Proofs.Atlas.Recording
import Typecase.Proofs.Atlas.Repetition

/-!
# Texts that overflow their pages

If every drawing takes up more than half of a texture in both directions, then a page has room for
one of them, and a text of two different characters overflows it (`Page.find_spills`). The page is
full from then on, so that the next text gets a page of its own, unless a sealed group has it
(`Atlas.Overflowed.request`). The first character of a text can therefore be on several pages, one
for each text that it begins.
-/

namespace Typecase

theorem Shelf.pack_empty {edge w k : Nat} (hw : w ≤ edge) (hk : k ≤ edge) :
    (empty edge edge).pack w k = (some ⟨0, 0, w, k⟩, ⟨edge, edge, w, 0, k, false⟩) := by
  have hwrap : (empty edge edge).wrap w = empty edge edge := by
    rw [wrap, if_neg]
    simp only [empty]
    omega
  rw [pack_eq, hwrap, if_neg (by simp [empty]), if_neg (by simp only [empty]; omega)]
  simp [empty]

/-- Beside and below the first rectangle there is no room. -/
theorem Shelf.pack_second {edge w w' k k' : Nat} (hw : edge < w + w') (hk : edge < k + k') :
    ((⟨edge, edge, w, 0, k, false⟩ : Shelf).pack w' k').1 = none := by
  have hwrap : (⟨edge, edge, w, 0, k, false⟩ : Shelf).wrap w' = ⟨edge, edge, 0, k, 0, false⟩ := by
    rw [wrap, if_pos hw, Nat.zero_add]
  rw [pack_eq, hwrap, if_neg Bool.false_ne_true, if_pos (.inl hk)]

/-- A picture has ink and takes up more than half of a square texture in both directions, but not
more than all of it. -/
structure Picture.IsBulky (picture : Picture) (edge : Nat) : Prop where
  ink : picture.data.isSome
  width_le : picture.width ≤ edge
  lt_width : edge < 2 * picture.width
  height_le : picture.height ≤ edge
  lt_height : edge < 2 * picture.height

/-- Every drawing at a size is bulky. -/
def FontStack.Crowds (s : FontStack) (size : Int) (edge : Nat) : Prop :=
  ∀ c font, s.CanPick c font → (s.drawAs font c size).1.picture.IsBulky edge

/-! ### One page -/

namespace Page

variable {p : Page} {b : Bench Nat} {s₀ : FontStack} {size : Int} {c x y : Char} {edge : Nat}

/-- A page without a texture has the drawing of one character on it, and had no room for another
one. -/
structure Spills (p : Page) (s₀ : FontStack) (size : Int) (x : Char) (e : Placement) : Prop where
  full : p.shelf.full = true
  handle : p.handle = none
  index : p.index = [(⟨x.toNat, size⟩, e)]
  area : 0 < e.rect.area
  drawn : ∃ font, s₀.CanPick x font ∧ p.pending = [⟨e.rect, s₀.finishedAs font x size⟩]

theorem Spills.entry_self {e : Placement} (h : p.Spills s₀ size x e) :
    p.entry ⟨x.toNat, size⟩ = some e := by
  rw [entry, h.index, List.lookup_cons_self]

theorem Spills.entry_of_ne {e : Placement} (h : p.Spills s₀ size x e) (hc : c ≠ x) :
    p.entry ⟨c.toNat, size⟩ = none := by
  have hne : (⟨c.toNat, size⟩ : GlyphKey) ≠ ⟨x.toNat, size⟩ := mt GlyphKey.mk_toNat_inj.mp hc
  rw [entry, h.index, List.lookup_cons, beq_false_of_ne hne]
  rfl

theorem Spills.shown {e : Placement} (h : p.Spills s₀ size x e) : p.shown s₀ size x = e := by
  rw [Page.shown, h.entry_self, Option.getD_some]

/-- A glyph that is given no rectangle gets no entry. -/
theorem page_place_of_refuse (h : b.Upholds s₀) (he : p.entry ⟨c.toNat, size⟩ = none)
    (hr : (p.shelf.pack (b.stack.glyph c size).1.picture.width
      (b.stack.glyph c size).1.picture.height).1 = none) :
    (p.place b c size).page = p.withoutRoom (b.stack.glyph c size).1 := by
  have hout := outcome_place h p c size
  generalize p.place b c size = q at hout ⊢
  cases hout with
  | known he' hb =>
    rw [he] at he'
    contradiction
  | entered he' hr' hb =>
    rw [hr] at hr'
    contradiction
  | refused he' hr' hb => rfl

/-- On a bench that upholds a crowding stack every glyph is a drawing of this stack. -/
theorem glyph_of_crowds (hb : b.Upholds s₀) (hs : Block.IsSpaced s₀.coverage.blocks)
    (hc : s₀.Crowds size edge) (c : Char) : ∃ font, s₀.CanPick c font ∧
      (b.stack.glyph c size).1 = (s₀.drawAs font c size).1 ∧
      (s₀.drawAs font c size).1.picture.IsBulky edge := by
  have hpick := (FontStack.canPick_fontFor (hb.blocks ▸ hs) c).bare
  rw [hb.bare] at hpick
  refine ⟨_, hpick, ?_, hc c _ hpick⟩
  rw [FontStack.fst_glyph_eq hb.sound.tidy, hb.bare]

/-- The first character is entered on an empty page. -/
theorem page_place_empty {font : Option Nat} (hb : b.Upholds s₀)
    (hglyph : (b.stack.glyph x size).1 = (s₀.drawAs font x size).1)
    (hx : (s₀.drawAs font x size).1.picture.IsBulky edge) (id baseHeight : Nat) :
    let picture := (s₀.drawAs font x size).1.picture
    let page := ((empty id edge edge baseHeight).place b x size).page
    page = (empty id edge edge baseHeight).withEntry s₀ ⟨x.toNat, size⟩ (s₀.drawAs font x size).1
        ⟨0, 0, picture.width, picture.height⟩ ∧
      page.shelf = ⟨edge, edge, picture.width, 0, picture.height, false⟩ := by
  have hpack := Shelf.pack_empty hx.width_le hx.height_le
  have hpage := page_place_of_pack (p := empty id edge edge baseHeight) hb rfl
    (by rw [hglyph]; exact congrArg Prod.fst hpack)
  rw [hglyph] at hpage
  refine ⟨hpage, ?_⟩
  rw [hpage]
  exact congrArg Prod.snd hpack

/-- An empty page on which one character is entered and another one is refused. -/
theorem spills_withoutRoom {font : Option Nat} (hpick : s₀.CanPick x font)
    (hx : (s₀.drawAs font x size).1.picture.IsBulky edge) (id baseHeight : Nat) {g : Glyph} :
    let picture := (s₀.drawAs font x size).1.picture
    let r : Rect := ⟨0, 0, picture.width, picture.height⟩
    let page := ((empty id edge edge baseHeight).withEntry s₀ ⟨x.toNat, size⟩
      (s₀.drawAs font x size).1 r).withoutRoom g
    page.shelf.full = true → page.Spills s₀ size x
      ((empty id edge edge baseHeight).placementOf (s₀.drawAs font x size).1 r) := by
  intro picture r page hfull
  have harea : 0 < (s₀.drawAs font x size).1.picture.width *
      (s₀.drawAs font x size).1.picture.height := by
    have hwidth := hx.lt_width
    have hheight := hx.lt_height
    exact Nat.mul_pos (by omega) (by omega)
  have hink : (s₀.finishedAs font x size).picture.data.isSome := by
    rw [FontStack.finishedAs, (FontStack.shape_package _ _ _).2.2]
    exact hx.ink
  have hjob : jobOf? r (s₀.finishedAs font x size) = some ⟨r, s₀.finishedAs font x size⟩ :=
    if_pos hink
  refine ⟨hfull, rfl, rfl, harea, font, hpick, ?_⟩
  change [] ++ (jobOf? r (s₀.finishedAs font x size)).toList = _
  rw [hjob]
  rfl

/-- **A text of two different characters overflows an empty page**: the first one has an entry, and
that is all. -/
theorem find_spills (hb : b.Upholds s₀) (hs : Block.IsSpaced s₀.coverage.blocks)
    (hc : s₀.Crowds size edge) (id baseHeight : Nat) (hxy : y ≠ x) (rest : List Char) :
    ∃ e, ((empty id edge edge baseHeight).find b size (x :: y :: rest)).page.Spills s₀ size x e := by
  obtain ⟨font, hpick, hglyph, hx⟩ := glyph_of_crowds hb hs hc x
  obtain ⟨hfirst, hshelf⟩ := page_place_empty hb hglyph hx id baseHeight
  obtain ⟨hb₁, -⟩ := place_spec hb (empty id edge edge baseHeight) x size
  rw [find, find]
  generalize (empty id edge edge baseHeight).place b x size = r₁ at hfirst hshelf hb₁ ⊢
  -- the second character is refused
  obtain ⟨font', -, hglyph', hy⟩ := glyph_of_crowds hb₁ hs hc y
  have hentry : r₁.page.entry ⟨y.toNat, size⟩ = none := by
    rw [hfirst, entry_withEntry, if_neg (mt GlyphKey.mk_toNat_inj.mp hxy)]
    rfl
  have hrefused : (r₁.page.shelf.pack (r₁.bench.stack.glyph y size).1.picture.width
      (r₁.bench.stack.glyph y size).1.picture.height).1 = none := by
    have hwidth := hx.lt_width
    have hheight := hx.lt_height
    have hwidth' := hy.lt_width
    have hheight' := hy.lt_height
    rw [hshelf, hglyph']
    exact Shelf.pack_second (by omega) (by omega)
  have hsecond := page_place_of_refuse hb₁ hentry hrefused
  have hfull := full_withoutRoom hrefused
  rw [← hsecond] at hfull
  obtain ⟨hb₂, -⟩ := place_spec hb₁ r₁.page y size
  generalize r₁.page.place r₁.bench y size = r₂ at hsecond hfull hb₂ ⊢
  -- and the page stays as it is from then on
  obtain ⟨-, hgrows, -, -⟩ := find_spec hb₂ r₂.page size rest
  dsimp only
  rw [hgrows.full hfull]
  rw [hsecond, hfirst] at hfull ⊢
  exact ⟨_, spills_withoutRoom hpick hx id baseHeight hfull⟩

end Page

/-! ### Page after page -/

/-- A group is at the end of its page if the page has no room for anything. -/
theorem GlyphGroups.index_select_of_noRoom {τ : Type} {gs : GlyphGroups τ} {room : τ → Nat → Bool}
    {text : List Char} {size : Int} (hnone : gs.sealedWith? text size = none)
    (hroom : ∀ g, gs.groups.getLast? = some g → ∀ n, g.hasRoom room n = false) :
    (gs.select room text size).index = gs.groups.length := by
  rw [select]
  cases hlast : gs.groups.getLast? with
  | none =>
    rw [List.getLast?_eq_none_iff.mp hlast]
    rfl
  | some g =>
    simp [quickPick, selectPlain, mustSeal, hnone, hroom g hlast]

namespace Atlas

variable {a : Atlas} {s₀ : FontStack} {size : Int} {texts : List (List Char)} {x y : Char}

/-- Every group was asked for one text, in order, and all pages are full. -/
structure Overflowed (a : Atlas) (s₀ : FontStack) (size : Int) (texts : List (List Char)) :
    Prop where
  orderly : a.Orderly s₀
  count : a.pages.length = texts.length
  groups : ∀ (i : Nat) (g : GlyphGroup Nat), a.groups.groups[i]? = some g →
    ∃ t, texts[i]? = some t ∧ ∀ c, g.has c size = true ↔ c ∈ t
  full : ∀ i p, a.page? i = some p → p.shelf.full = true

/-- The sealed group that has a text is the first text with all its characters. -/
theorem Overflowed.missing_eq_zero_iff (h : a.Overflowed s₀ size texts) {i : Nat}
    {g : GlyphGroup Nat} {t text : List Char} (hg : a.groups.groups[i]? = some g)
    (ht : texts[i]? = some t) : g.missing text size = 0 ↔ ∀ c ∈ text, c ∈ t := by
  obtain ⟨t', ht', hhas⟩ := h.groups i g hg
  obtain rfl := Option.some.inj (ht.symm.trans ht')
  rw [GlyphGroup.missing_eq_zero_iff]
  exact forall₂_congr fun c _ => hhas c

theorem Overflowed.length_groups (h : a.Overflowed s₀ size texts) :
    a.groups.groups.length = texts.length := h.orderly.groups.trans h.count

/-- A text that no sealed group has is served from a new page. -/
theorem Overflowed.index_choiceFor (h : a.Overflowed s₀ size texts) {text : List Char}
    (hnew : ∀ i t, i + 1 < texts.length → texts[i]? = some t → ¬∀ c ∈ text, c ∈ t) :
    (a.choiceFor text size).index = texts.length := by
  have hnone : a.groups.sealedWith? text size = none := by
    refine GlyphGroups.sealedWith?_eq_none_iff.mpr fun i g hi hg hmissing => ?_
    obtain ⟨t, ht, -⟩ := h.groups i g hg
    exact hnew i t (h.length_groups ▸ hi) ht ((h.missing_eq_zero_iff hg ht).mp hmissing)
  rw [choiceFor, GlyphGroups.index_select_of_noRoom hnone, h.length_groups]
  intro g hg n
  rw [List.getLast?_eq_getElem?] at hg
  have htexture := h.orderly.texture _ g hg
  obtain ⟨p, hp⟩ : ∃ p, a.page? (a.groups.groups.length - 1) = some p := by
    have hlt := (List.getElem?_eq_some_iff.mp hg).1
    exact ⟨_, List.getElem?_eq_getElem (h.orderly.groups ▸ hlt)⟩
  rw [GlyphGroup.hasRoom, htexture, Option.all_some, hasRoom, hp, Option.all_some, Page.hasRoom,
    h.full _ p hp]
  rfl

/-- Serving a text from a new page that is full afterwards. -/
theorem Overflowed.serve (h : a.Overflowed s₀ size texts) {text : List Char} {p : Page} {a' : Atlas}
    (hserves : a.Serves s₀ text size texts.length p a') (hfull : p.shelf.full = true) :
    a'.Overflowed s₀ size (texts ++ [text]) := by
  constructor
  case orderly => exact hserves.orderly h.orderly
  case count =>
    have hcount := hserves.count
    have := h.count
    rw [List.length_append, List.length_singleton]
    omega
  case groups =>
    intro i g hg
    rw [hserves.group] at hg
    split at hg
    · rename_i hi
      obtain rfl := Option.some.inj hg
      have hempty : a.groupAt texts.length = ⟨[], some texts.length⟩ := by
        rw [groupAt, List.getElem?_eq_none (Nat.le_of_eq h.length_groups)]
        rfl
      refine ⟨text, by rw [hi, List.getElem?_concat_length], fun c => ?_⟩
      rw [hempty, GlyphGroup.has, decide_eq_true_eq, GlyphGroup.mem_keys_mark]
      constructor
      · rintro (hold | ⟨d, hd, heq⟩)
        · contradiction
        · exact GlyphKey.mk_toNat_inj.mp heq ▸ hd
      · exact fun hmem => .inr ⟨c, hmem, rfl⟩
    · obtain ⟨t, ht, hhas⟩ := h.groups i g hg
      have hi := (List.getElem?_eq_some_iff.mp ht).1
      exact ⟨t, by rw [List.getElem?_append_left hi, ht], hhas⟩
  case full =>
    intro i q hq
    rw [hserves.page] at hq
    split at hq
    · obtain rfl := Option.some.inj hq
      exact hfull
    · exact h.full i q hq

/-- **A text of two different characters that no sealed group has overflows a page of its own**, and
its first region is the one entry of this page. -/
theorem Overflowed.request (h : a.Overflowed s₀ size texts)
    (hs : Block.IsSpaced s₀.coverage.blocks) (hc : s₀.Crowds size a.settings.textureSize)
    (hxy : y ≠ x) (rest : List Char)
    (hnew : ∀ i t, i + 1 < texts.length → texts[i]? = some t → ¬∀ c ∈ x :: y :: rest, c ∈ t) :
    let r := a.regions (x :: y :: rest) size
    r.2.Overflowed s₀ size (texts ++ [x :: y :: rest]) ∧ r.2.settings = a.settings ∧
      r.2.quiet = false ∧ (∀ i, i < texts.length → r.2.page? i = a.page? i) ∧
      ∃ p e, r.2.page? texts.length = some p ∧ p.Spills s₀ size x e ∧
        r.1[0]? = some ⟨texts.length, e⟩ := by
  intro r
  obtain ⟨b, hb, hserves, hregions⟩ := regions_spec h.orderly (x :: y :: rest) size
  rw [h.index_choiceFor hnew] at hserves hregions
  have hnone : a.page? texts.length = none := page?_eq_none_iff.mpr (Nat.le_of_eq h.count)
  obtain ⟨e, hspills⟩ :
      ∃ e, ((a.pageAt s₀ texts.length).find b size (x :: y :: rest)).page.Spills s₀ size x e := by
    rw [pageAt, hnone]
    exact Page.find_spills hb hs hc _ _ hxy rest
  have hpage := hserves.page texts.length
  rw [if_pos rfl] at hpage
  refine ⟨h.serve hserves hspills.full, hserves.settings, ?_, fun i hi => ?_,
    _, e, hpage, hspills, ?_⟩
  · refine Bool.eq_false_iff.mpr fun hq => ?_
    have hlt := (hserves.quiet hq).2.1
    have := h.count
    omega
  · exact (hserves.page i).trans (if_neg (Nat.ne_of_lt hi))
  · obtain ⟨-, -, -, hplacements⟩ :=
      Page.find_spec hb (a.pageAt s₀ texts.length) size (x :: y :: rest)
    have hshown := hspills.shown
    rw [hregions, hplacements, List.map_map, List.map_cons, List.getElem?_cons_zero]
    exact congrArg (fun e => some (⟨texts.length, e⟩ : Region)) hshown

/-- **A text that a sealed group has is served from its full page**, which stays as it is. -/
theorem Overflowed.request_sealed (h : a.Overflowed s₀ size texts) {n : Nat} {t text : List Char}
    {p : Page} (hn : n + 1 < texts.length) (ht : texts[n]? = some t) (hhas : ∀ c ∈ text, c ∈ t)
    (hfirst : ∀ i t, i < n → texts[i]? = some t → ¬∀ c ∈ text, c ∈ t) (hp : a.page? n = some p) :
    (a.regions text size).2.page? n = some p ∧
      (a.regions text size).1 = text.map fun c => ⟨n, p.shown s₀ size c⟩ := by
  have hsealed : a.groups.sealedWith? text size = some n := by
    have hlength := h.length_groups
    have hg : a.groups.groups[n]? = some a.groups.groups[n] := List.getElem?_eq_getElem (by omega)
    refine GlyphGroups.sealedWith?_eq_some_iff.mpr ⟨by omega, ⟨_, hg, ?_⟩, fun i g hi hg' => ?_⟩
    · exact (h.missing_eq_zero_iff hg ht).mpr hhas
    · obtain ⟨t', ht', -⟩ := h.groups i g hg'
      exact fun hmissing => hfirst i t' hi ht' ((h.missing_eq_zero_iff hg' ht').mp hmissing)
  have hindex : (a.choiceFor text size).index = n :=
    (GlyphGroups.select_of_sealed hsealed a.hasRoom).1
  obtain ⟨b, hb, hserves, hregions⟩ := regions_spec h.orderly text size
  rw [hindex, pageAt_of_page? hp] at hserves hregions
  obtain ⟨-, hgrows, -, hplacements⟩ := Page.find_spec hb p size text
  have hsame := hgrows.full (h.full n p hp)
  have hpage := hserves.page n
  rw [if_pos rfl, hsame] at hpage
  refine ⟨hpage, ?_⟩
  rw [hregions, hplacements, hsame, List.map_map]
  rfl

/-- An update leaves the pages full, and records what was pending. -/
theorem Overflowed.update (h : a.Overflowed s₀ size texts) (hq : a.quiet = false) (d : Device)
    (sync : Bool) (elapsed : Nat) :
    let a' := (a.update d sync elapsed).atlas
    a'.Overflowed s₀ size texts ∧ a'.settings = a.settings ∧ ∀ id p j, a.page? id = some p →
      j ∈ p.pending → j.glyph.font < s₀.fonts.length →
        a'.bench.stack.isReady j.glyph.font j.glyph.key = true := by
  obtain ⟨hgroups, hsettings, hcount, hpages⟩ := h.orderly.update_spec d sync elapsed
  refine ⟨⟨h.orderly.update d sync elapsed, hcount.trans h.count, fun i g hg => ?_,
    fun i q hq => ?_⟩, hsettings, fun id p j hp hj hfont => ?_⟩
  · exact h.groups i g (hgroups ▸ hg)
  · obtain ⟨p, hp, -, hshelf⟩ := hpages i q hq
    rw [hshelf]
    exact h.full i p hp
  · have hlt : id < a.pages.length := (List.getElem?_eq_some_iff.mp hp).1
    have hlength : a.bench.stack.fonts.length = s₀.fonts.length := by
      rw [← h.orderly.bench.bare]
      exact (List.length_map _).symm
    rw [h.orderly.update_eq, hq]
    refine (isReady_uploadPages _ _ h.orderly.bench.sound).mpr (.inr ⟨hlength ▸ hfont, ?_⟩)
    exact ⟨id, List.mem_range.mpr hlt, p, hp, j, hj, rfl, rfl⟩

end Atlas

/-! ### Spots -/

/-- A font of single pixels that maps two letters. Whatever it draws of other characters is the
placeholder, which is a single pixel as well. -/
def spotSettings : Settings :=
  ⟨[⟨"Latin", 0x41, 0x5A⟩], [], [], [⟨"spots", .table (dotFont [0x41, 0x43] 1)⟩], 1, 1⟩

/-- A font stack over this font. -/
def spots : FontStack := (FontStack.build spotSettings FontData.openAny).1

/-- Textures that have room for one spot and its margin. -/
def spotAtlas : AtlasSettings := { AtlasSettings.usual with textureSize := 16 }

section Spots

open Session

variable {c : Char} {a : Atlas}

theorem isSound_spots : spots.IsSound := FontStack.isSound_build spotSettings FontData.openAny

theorem blocks_spots : spots.coverage.blocks = [⟨"Latin", 0x41, 0x5A⟩] :=
  FontStack.blocks_build spotSettings FontData.openAny

theorem isOrdered_spots : Block.IsOrdered spots.coverage.blocks := by
  rw [blocks_spots]
  exact ⟨by decide, List.pairwise_singleton _ _⟩

/-- Single pixels with their margins crowd a texture of sixteen texels. -/
theorem crowds_of_dots {s : FontStack} (hcount : s.fonts.length = 1)
    (hnone : ∀ c, (s.drawAs none c 1).1.picture = dotPicture 1)
    (hsome : ∀ c, (s.drawAs (some 0) c 1).1.picture = dotPicture 1) : s.Crowds 1 16 := by
  intro c font hpick
  have hpicture : (s.drawAs font c 1).1.picture = dotPicture 1 := by
    cases font with
    | none => exact hnone c
    | some i =>
      have hlt := hpick.lt i rfl
      obtain rfl : i = 0 := by omega
      exact hsome c
  rw [hpicture]
  exact ⟨rfl, by decide, by decide, by decide, by decide⟩

theorem crowds_spots : spots.bare.Crowds 1 16 :=
  crowds_of_dots rfl (fun _ => rfl) fun _ => rfl

/-- The two letters have a font. -/
theorem fontForStateless_spots (hc : c ∈ ['A', 'C']) : spots.fontForStateless c = some 0 := by
  have hletter : c = 'A' ∨ c = 'C' := by simpa using hc
  have hcodes : (dotFont [0x41, 0x43] 1).face.codePoints = [0x41, 0x43] :=
    Face.codePoints_of_isStrict (by decide)
  have hrows : spots.coverage.rows = [⟨⟨"Latin", 0x41, 0x5A⟩, [2]⟩] := by
    have hadd : spots.coverage = (Coverage.ofBlocks [⟨"Latin", 0x41, 0x5A⟩]).add
        ⟨"spots", (dotFont [0x41, 0x43] 1).face.codePoints, ⟨[], []⟩⟩ := rfl
    have hspaced : Block.IsSpaced (Coverage.ofBlocks [⟨"Latin", 0x41, 0x5A⟩]).blocks :=
      List.pairwise_singleton _ _
    have hsorted : Coverage.Addition.IsSorted ⟨"spots", [0x41, 0x43], ⟨[], []⟩⟩ := by decide
    rw [hadd, hcodes, Coverage.rows_add hspaced hsorted]
    rfl
  have hfound : Block.find? spots.coverage.blocks c.toNat = some 0 := by
    refine (Block.find?_eq_some_iff isOrdered_spots).mpr ⟨⟨"Latin", 0x41, 0x5A⟩, ?_, ?_⟩
    · rw [blocks_spots]
      rfl
    · obtain rfl | rfl := hletter
      · decide
      · decide
  have hhas : spots.hasGlyph c.toNat 0 = true := by
    obtain rfl | rfl := hletter
    · rfl
    · rfl
  have hheaviest : Choice.heaviest none [2] = some (0, 2) := by decide
  rw [FontStack.fontForStateless_eq, hfound]
  change (Choice.descend (spots.coverage.weights 0) _).font = _
  rw [Coverage.weights, hrows]
  change (Choice.descend [2] _).font = _
  rw [Choice.descend, Choice.descendFrom_of_eq_some hheaviest, if_pos hhas]

/-- What is pending for a page that a letter spills is recorded under the letter. -/
theorem record_of_spills {p : Page} {e : Placement} (h : p.Spills spots.bare 1 c e)
    (hc : c ∈ ['A', 'C']) :
    ∃ j ∈ p.pending, j.glyph.font = 0 ∧ j.glyph.key = ⟨c.toNat, 1⟩ := by
  obtain ⟨font, hpick, hpending⟩ := h.drawn
  have hfont : spots.bare.fontForStateless c = some 0 :=
    (FontStack.fontForStateless_bare spots c).trans (fontForStateless_spots hc)
  obtain rfl := hpick.stateless 0 hfont
  obtain ⟨hdrawnFont, hdrawnKey⟩ :=
    FontStack.record_drawAs_some (hpick.lt 0 rfl) (by decide : (1 : Int) < 0x80000000) c
  obtain ⟨hpackedFont, hpackedKey⟩ :=
    FontStack.record_package (spots.bare.drawAs (some 0) c 1).1 spots.bare.scale .empty
  refine ⟨_, by rw [hpending]; exact List.mem_cons_self, ?_, ?_⟩
  · exact hpackedFont.trans hdrawnFont
  · exact hpackedKey.trans hdrawnKey

/-- The two letters are ready as soon as both drawings are recorded. -/
theorem areReady_spots (ho : a.Orderly spots.bare)
    (h : ∀ c ∈ ['A', 'C'], a.bench.stack.isReady 0 ⟨c.toNat, 1⟩ = true) :
    a.areReady ['A', 'C'] 1 = true := by
  refine List.all_eq_true.mpr fun c hc => ?_
  have hfont : a.bench.stack.fontForStateless c = some 0 := by
    rw [← FontStack.fontForStateless_bare, ho.bench.bare, FontStack.fontForStateless_bare,
      fontForStateless_spots hc]
  rw [hfont]
  exact h c hc

/-- Two texts, an update, and a text that has the first letters of both. -/
def overlapActs : List Act :=
  [.request [['A', 'B']] 1, .request [['C', 'D']] 1, .update true 0, .request [['\t', 'A', 'C']] 1]

/-- An atlas after these acts. -/
def overlap : Session := (start spotAtlas spots).performAll overlapActs

/-- **Each of the three texts has overflowed a page.** The two letters are ready, and the third page
has the placeholder for the tabulator, which has not been uploaded. -/
theorem overlap_spec :
    let a := overlap.atlas
    a.Overflowed spots.bare 1 [['A', 'B'], ['C', 'D'], ['\t', 'A', 'C']] ∧
      a.settings.textureSize = 16 ∧
      (∀ c ∈ ['A', 'C'], a.bench.stack.isReady 0 ⟨c.toNat, 1⟩ = true) ∧
      ∃ p e, a.page? 2 = some p ∧ p.Spills spots.bare 1 '\t' e := by
  have hs : Block.IsSpaced spots.bare.coverage.blocks := isOrdered_spots.isSpaced
  have hacts : overlap.atlas = (((((start spotAtlas spots).atlas.regions ['A', 'B'] 1).2.regions
      ['C', 'D'] 1).2.update .empty true 0).atlas.regions ['\t', 'A', 'C'] 1).2 := rfl
  intro a
  have h₀ : (start spotAtlas spots).atlas.Overflowed spots.bare 1 [] := by
    refine ⟨Atlas.orderly_ofStack spotAtlas isSound_spots, rfl, fun i g hg => ?_, fun i p hp => ?_⟩
    · contradiction
    · contradiction
  -- the first two texts
  obtain ⟨h₁, hsettings₁, -, -, p₀, e₀, hp₀, hspills₀, -⟩ :=
    h₀.request hs crowds_spots (by decide : 'B' ≠ 'A') [] (by simp)
  generalize ((start spotAtlas spots).atlas.regions ['A', 'B'] 1).2 = a₁ at hacts h₁ hsettings₁ hp₀
  obtain ⟨h₂, hsettings₂, hquiet₂, hsame₂, p₁, e₁, hp₁, hspills₁, -⟩ :=
    h₁.request hs (hsettings₁ ▸ crowds_spots) (by decide : 'D' ≠ 'C') [] (by simp)
  have hp₀' := (hsame₂ 0 (by decide)).trans hp₀
  generalize (a₁.regions ['C', 'D'] 1).2 = a₂ at hacts h₂ hsettings₂ hquiet₂ hp₀' hp₁
  -- the update uploads what is pending for their pages
  obtain ⟨h₃, hsettings₃, hready₃⟩ := h₂.update hquiet₂ .empty true 0
  have hready : ∀ c ∈ ['A', 'C'],
      (a₂.update .empty true 0).atlas.bench.stack.isReady 0 ⟨c.toNat, 1⟩ = true := by
    intro c hc
    obtain rfl | rfl : c = 'A' ∨ c = 'C' := by simpa using hc
    · obtain ⟨j, hj, hfont, hkey⟩ := record_of_spills hspills₀ hc
      have := hready₃ 0 p₀ j hp₀' hj (by rw [hfont]; decide)
      rwa [hfont, hkey] at this
    · obtain ⟨j, hj, hfont, hkey⟩ := record_of_spills hspills₁ hc
      have := hready₃ 1 p₁ j hp₁ hj (by rw [hfont]; decide)
      rwa [hfont, hkey] at this
  generalize (a₂.update .empty true 0).atlas = a₃ at hacts h₃ hsettings₃ hready
  -- neither of the two sealed groups has the third text
  have hedge : a₃.settings.textureSize = 16 := by
    rw [hsettings₃, hsettings₂, hsettings₁]
    rfl
  obtain ⟨h₄, hsettings₄, -, -, p₂, e₂, hp₂, hspills₂, -⟩ :=
    h₃.request hs (hedge ▸ crowds_spots) (by decide : 'A' ≠ '\t') ['C'] fun i t hi ht hall => by
      have hi : i + 1 < 2 := hi
      obtain rfl : i = 0 := by omega
      obtain rfl := Option.some.inj ht
      exact absurd (hall '\t' List.mem_cons_self) (by decide)
  have ha : a = (a₃.regions ['\t', 'A', 'C'] 1).2 := hacts
  rw [ha]
  exact ⟨h₄, by rw [hsettings₄, hedge],
    fun c hc => Atlas.isReady_lookup_of_isReady h₃.orderly [['\t', 'A', 'C']] 1 (hready c hc),
    p₂, e₂, hp₂, hspills₂⟩

/-- Neither of the first two texts has both letters. -/
theorem not_forall_mem_overlap {i : Nat} {t : List Char} {rest : List (List Char)} (hi : i < 2)
    (ht : (['A', 'B'] :: ['C', 'D'] :: rest)[i]? = some t) : ¬∀ c ∈ ['A', 'C'], c ∈ t := by
  intro hall
  obtain rfl | rfl : i = 0 ∨ i = 1 := by omega
  · obtain rfl := Option.some.inj ht
    exact absurd (hall 'C' (by decide)) (by decide)
  · obtain rfl := Option.some.inj ht
    exact absurd (hall 'A' (by decide)) (by decide)

/-- **A text that has both letters gets a page of its own**, although both are ready. -/
theorem request_overlap :
    let r := overlap.atlas.regions ['A', 'C'] 1
    r.2.Overflowed spots.bare 1 [['A', 'B'], ['C', 'D'], ['\t', 'A', 'C'], ['A', 'C']] ∧
      r.2.areReady ['A', 'C'] 1 = true ∧
      (∀ c ∈ ['A', 'C'], r.2.bench.stack.isReady 0 ⟨c.toNat, 1⟩ = true) ∧
      (∃ p e, r.2.page? 2 = some p ∧ p.Spills spots.bare 1 '\t' e) ∧
      ∃ p e, r.2.page? 3 = some p ∧ p.Spills spots.bare 1 'A' e ∧ r.1[0]? = some ⟨3, e⟩ := by
  intro r
  obtain ⟨h, hedge, hready, p₂, e₂, hp₂, hspills₂⟩ := overlap_spec
  obtain ⟨h', -, -, hsame, p₃, e₃, hp₃, hspills₃, hregion⟩ :=
    h.request isOrdered_spots.isSpaced (hedge ▸ crowds_spots) (by decide : 'C' ≠ 'A') []
      fun i t hi ht => not_forall_mem_overlap (Nat.lt_of_succ_lt_succ hi) ht
  have hready' : ∀ c ∈ ['A', 'C'], r.2.bench.stack.isReady 0 ⟨c.toNat, 1⟩ = true :=
    fun c hc => Atlas.isReady_lookup_of_isReady h.orderly [['A', 'C']] 1 (hready c hc)
  exact ⟨h', areReady_spots h'.orderly hready', hready',
    ⟨p₂, e₂, (hsame 2 (by decide)).trans hp₂, hspills₂⟩, p₃, e₃, hp₃, hspills₃, hregion⟩

end Spots

end Typecase
