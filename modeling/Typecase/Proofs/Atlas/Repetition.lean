import Typecase.Proofs.Atlas.Session
import Typecase.Proofs.Atlas.Shortcut

/-!
# Asking twice

A request that is made twice in a row should be given the same regions, and leave the atlas as it
is the second time. `Repeats` says so for one request; `repeats_iff` says exactly when it is true
in a session, at any point of it.

What can go wrong is that the request is *spurned* (`Spurns`): the last group has every character
of the text, so nothing needs room, and yet a new group is opened, because the last group is at the
ceiling or its page is full. The request is then drawn anew on another page. This can happen to the
second request, and it can happen to the first one, in which case the second request goes back to
the group that spurned the first.
-/

namespace Typecase

namespace Atlas

variable {a : Atlas} {s₀ : FontStack}

/-- A second request for a text gives the same regions as the first one, and leaves the number of
groups, the number of pages and the number of glyphs on every page as they are. -/
structure Repeats (a : Atlas) (text : List Char) (size : Int) : Prop where
  regions : ((a.regions text size).2.regions text size).1 = (a.regions text size).1
  groupCount : ((a.regions text size).2.regions text size).2.groupCount =
    (a.regions text size).2.groupCount
  textureCount : ((a.regions text size).2.regions text size).2.textureCount =
    (a.regions text size).2.textureCount
  glyphCount : ∀ id, (((a.regions text size).2.regions text size).2.page? id).map
      (·.index.length) = ((a.regions text size).2.page? id).map (·.index.length)

/-- A request for a text would open a new group although the last group has the whole text: no
group before it has the whole text, and the last group is at the ceiling or its page is full. -/
def Spurns (a : Atlas) (text : List Char) (size : Int) : Prop :=
  ∃ g, a.groups.groups.getLast? = some g ∧ (∀ c ∈ text, g.has c size) ∧
    (∀ i g', i + 1 < a.groupCount → a.groups.groups[i]? = some g' →
      ¬∀ c ∈ text, g'.has c size) ∧
    (a.maxGlyphs ≤ g.keys.length ∨
      ∃ id p, g.texture = some id ∧ a.page? id = some p ∧ p.shelf.full = true)

/-! ### Spurning -/

/-- A page has room for zero more glyphs unless it is full. -/
theorem hasRoom_zero_iff {id : Nat} : a.hasRoom id 0 = true ↔
    ∀ p, a.page? id = some p → p.shelf.full = false := by
  rw [hasRoom]
  cases a.page? id with
  | none => simp
  | some p => simp [Page.hasRoom]

theorem spurns_iff {text : List Char} {size : Int} :
    a.Spurns text size ↔ a.groups.Spurns a.hasRoom text size := by
  refine exists_congr fun g => and_congr_right fun _ => ?_
  rw [GlyphGroup.missing_eq_zero_iff, GlyphGroups.sealedWith?_eq_none_iff]
  refine and_congr_right fun _ => and_congr ?_ ?_
  · simp only [ne_eq, GlyphGroup.missing_eq_zero_iff, groupCount]
  · rw [GlyphGroups.mustSeal, Bool.or_eq_true, decide_eq_true_eq, Nat.add_zero]
    refine or_congr Iff.rfl ?_
    rw [GlyphGroup.hasRoom]
    cases g.texture with
    | none => simp
    | some id =>
      rw [Option.all_some, Bool.not_eq_true', ← Bool.not_eq_true, hasRoom_zero_iff]
      simp

/-! ### The second request -/

/-- The specification of a request of one text. -/
theorem regions_spec (h : a.Orderly s₀) (text : List Char) (size : Int) :
    let i := (a.choiceFor text size).index
    ∃ b : Bench Nat, b.Upholds s₀ ∧
      let f := (a.pageAt s₀ i).find b size text
      a.Serves s₀ text size i f.page (a.regions text size).2 ∧
        (a.regions text size).1 = f.placements.map fun e => ⟨i, e⟩ := by
  obtain ⟨b, hb, hserves, hregions, hlength, -⟩ := lookup_spec h [text] size
  rw [List.flatten_singleton] at *
  refine ⟨b, hb, hserves, ?_⟩
  rw [← hregions, regions]
  obtain ⟨rs, hrs⟩ := List.length_eq_one_iff.mp hlength
  dsimp only
  rw [hrs]
  simp

/-- Serving a request marks the group chosen. -/
theorem Serves.marked {text : List Char} {size : Int} {i : Nat} {p : Page} {a' : Atlas}
    (hs : a.Serves s₀ text size i p a') (h : a.Orderly s₀) :
    a.groups.Marked a'.groups text size i where
  le := h.groups ▸ hs.le
  length := by rw [hs.groups, hs.count, h.groups]
  other j hj := by rw [hs.group, if_neg hj]
  whole g hg := by
    rw [hs.group, if_pos rfl] at hg
    obtain rfl := Option.some.inj hg
    exact GlyphGroup.missing_mark _ text size

/-- A second request repeats the first one if it is given a page that exists, leaves it as it is,
and gives the same regions. -/
theorem repeats_of_serves {text : List Char} {size : Int} {i : Nat} {p : Page}
    (h : (a.regions text size).2.Orderly s₀)
    (hs : (a.regions text size).2.Serves s₀ text size i p
      ((a.regions text size).2.regions text size).2)
    (hp : (a.regions text size).2.page? i = some p)
    (hr : ((a.regions text size).2.regions text size).1 = (a.regions text size).1) :
    a.Repeats text size := by
  have hi : i < (a.regions text size).2.pages.length := (List.getElem?_eq_some_iff.mp hp).1
  have hcount : ((a.regions text size).2.regions text size).2.pages.length =
      (a.regions text size).2.pages.length := by
    rw [hs.count]
    omega
  refine ⟨hr, ?_, ?_, fun id => ?_⟩
  · rw [groupCount, hs.groups, hcount, groupCount, h.groups]
  · rw [textureCount, hs.listed, hcount, textureCount, h.listed]
  · rw [hs.page]
    split
    · rename_i hid
      rw [hid, hp]
    · rfl

/-- How the second request fares. -/
theorem Orderly.again (h : a.Orderly s₀) (text : List Char) (size : Int) :
    GlyphGroups.Again a.groups (a.regions text size).2.groups a.hasRoom
      (a.regions text size).2.hasRoom text size := by
  obtain ⟨b, -, hserves, -⟩ := regions_spec h text size
  refine (hserves.marked h).second_choice (fun _ _ hroom => ?_) (fun _ _ hroom => ?_)
  · exact hasRoom_of_le hroom (Nat.zero_le _)
  · exact hasRoom_of_le hroom (Nat.zero_le _)

/-- A second request that is given the same page repeats the first one. -/
private theorem Orderly.repeats_of_same (h : a.Orderly s₀) {text : List Char} {size : Int}
    (hi : ((a.regions text size).2.choiceFor text size).index = (a.choiceFor text size).index) :
    a.Repeats text size := by
  obtain ⟨b, hb, hserves, hregions⟩ := regions_spec h text size
  have h' := hserves.orderly h
  obtain ⟨b', hb', hserves', hregions'⟩ := regions_spec h' text size
  have hpage := hserves.page (a.choiceFor text size).index
  rw [if_pos rfl] at hpage
  rw [hi, pageAt_of_page? hpage] at hserves' hregions'
  generalize a.pageAt s₀ (a.choiceFor text size).index = p at *
  obtain ⟨-, -, hholds, hshown⟩ := Page.find_spec hb p size text
  obtain ⟨-, -, -, hshown'⟩ := Page.find_spec hb' (p.find b size text).page size text
  have hsame := Page.find_of_holds hb' hholds
  rw [hsame] at hserves' hshown'
  refine repeats_of_serves h' hserves' hpage ?_
  rw [hregions', hregions, hshown', hshown]

/-- A second request for an empty text repeats the first one if it is given a page that exists. -/
private theorem Orderly.repeats_of_nil (h : a.Orderly s₀) {size : Int}
    (hi : ((a.regions [] size).2.choiceFor [] size).index < (a.regions [] size).2.pages.length) :
    a.Repeats [] size := by
  obtain ⟨b, hb, hserves, hregions⟩ := regions_spec h [] size
  have h' := hserves.orderly h
  obtain ⟨b', hb', hserves', hregions'⟩ := regions_spec h' [] size
  obtain ⟨p, hp⟩ : ∃ p, (a.regions [] size).2.page?
      ((a.regions [] size).2.choiceFor [] size).index = some p :=
    ⟨_, List.getElem?_eq_getElem hi⟩
  rw [pageAt_of_page? hp] at hserves'
  exact repeats_of_serves h' hserves' hp (by rw [hregions', hregions]; rfl)

/-- **When a request repeats**, in an orderly atlas: it is spurned neither the first time nor the
second time. A text without characters may be spurned the first time, since it shows nothing. -/
theorem Orderly.repeats_iff (h : a.Orderly s₀) (text : List Char) (size : Int) :
    a.Repeats text size ↔
      ¬(text ≠ [] ∧ a.Spurns text size) ∧ ¬(a.regions text size).2.Spurns text size := by
  obtain ⟨b, hb, hserves, hregions⟩ := regions_spec h text size
  have h' := hserves.orderly h
  obtain ⟨b', hb', hserves', hregions'⟩ := regions_spec h' text size
  rw [spurns_iff, spurns_iff]
  rcases h.again text size with
    ⟨hbefore, hafter, hi⟩ | ⟨hbefore, hafter, hi⟩ | ⟨hbefore, hafter, hi⟩
  · exact iff_of_true (h.repeats_of_same hi) ⟨fun hs => hbefore hs.2, hafter⟩
  · -- a new group is opened, so the number of groups grows
    refine iff_of_false (fun hr => ?_) fun hs => hs.2 hafter
    have hcount : ((a.regions text size).2.regions text size).2.pages.length =
        max (a.regions text size).2.pages.length
          (((a.regions text size).2.choiceFor text size).index + 1) := hserves'.count
    have hgroups := hr.groupCount
    rw [groupCount, groupCount, hserves'.groups, h'.groups] at hgroups
    have hi' : ((a.regions text size).2.choiceFor text size).index =
        (a.regions text size).2.groups.groups.length := hi
    rw [h'.groups] at hi'
    omega
  · have hi' : ((a.regions text size).2.choiceFor text size).index + 1 =
        (a.choiceFor text size).index := hi
    cases text with
    | nil =>
      have hlt : ((a.regions [] size).2.choiceFor [] size).index <
          (a.regions [] size).2.pages.length := by
        rw [hserves.count]
        omega
      exact iff_of_true (h.repeats_of_nil hlt) ⟨fun hs => hs.1 rfl, hafter⟩
    | cons c rest =>
      -- the first request was drawn on another page than the second one
      refine iff_of_false (fun hr => ?_) fun hs => hs.1 ⟨List.cons_ne_nil c rest, hbefore⟩
      have hregion := hr.regions
      rw [hregions', hregions, Page.find, Page.find, List.map_cons, List.map_cons] at hregion
      have hid := congrArg Region.page (List.cons.inj hregion).1
      dsimp only at hid
      omega

end Atlas

/-- **When a request repeats**, at any point of any session: exactly when it is spurned neither the
first time, unless it has no characters, nor the second time. -/
theorem Session.repeats_iff_not_spurned (settings : Settings) (opener : Opener)
    (config : AtlasSettings) (acts : List Session.Act) (text : List Char) (size : Int) :
    let a := ((start config (FontStack.build settings opener).1).performAll acts).atlas
    a.Repeats text size ↔
      ¬(text ≠ [] ∧ a.Spurns text size) ∧ ¬(a.regions text size).2.Spurns text size := by
  have hstart := Atlas.orderly_ofStack config (FontStack.isSound_build settings opener)
  exact (orderly_performAll (s := start config _) hstart acts).repeats_iff text size

end Typecase
