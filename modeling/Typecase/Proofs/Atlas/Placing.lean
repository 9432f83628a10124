import Typecase.Atlas.Page
import Typecase.Proofs.Atlas.Packing
import Typecase.Proofs.FontStack.Memory

/-!
# Asking a page for characters

A page that packages in place is asked for one character after the other. `Page.Outcome` lists
what one request can come to: the entry is known, a new entry is made, or there is no room.

* **Growth.** A page only grows: entries stay, and a full page does not change at all (`Grows`).
* **Settled characters.** After a request the page *holds* the character: it has an entry, or the
  page is full. What is shown for a character that the page holds can be read off the page
  (`Page.shown`), and asking again gives the same and changes nothing (`find_of_holds`).
* **Whole texts.** `find_spec` says so for the characters of a text, read off the last page.

All statements are about a bench that `Upholds` a bare font stack: it packages in place, and its
stack is sound and differs from the bare one in what it remembers only.
-/

namespace Typecase

namespace Job

/-- A packaged job does not depend on the free buffers. -/
theorem fst_package (j : Job) (scale : Nat) {p : Pool} (h : p.IsTidy) :
    (j.package scale p).1 = ⟨j.rect, (FontStack.package j.glyph scale .empty).1⟩ := by
  change (⟨j.rect, (FontStack.package j.glyph scale p).1⟩ : Job) = _
  rw [FontStack.fst_package _ _ h]

theorem isTidy_package (j : Job) (scale : Nat) {p : Pool} (h : p.IsTidy) :
    (j.package scale p).2.IsTidy :=
  Glyph.isTidy_discard (FontStack.isTidy_package _ _ h) j.glyph

end Job

namespace Bench

/-- The bench packages in place, and draws on a sound stack with a given bare stack. -/
structure Upholds (b : Bench Nat) (s₀ : FontStack) : Prop where
  immediate : b.packager = .immediate
  sound : b.stack.IsSound
  bare : b.stack.bare = s₀
  scale : b.scale = s₀.scale

variable {b : Bench Nat} {s₀ : FontStack}

theorem Upholds.note (h : b.Upholds s₀) (n : Notice) : (b.note n).Upholds s₀ :=
  ⟨h.immediate, h.sound, h.bare, h.scale⟩

theorem Upholds.withStack (h : b.Upholds s₀) {t : FontStack} (ht : t.IsSound)
    (hb : t.bare = b.stack.bare) : { b with stack := t }.Upholds s₀ :=
  ⟨h.immediate, ht, hb.trans h.bare, h.scale⟩

theorem Upholds.discard (h : b.Upholds s₀) (g : Glyph) :
    { b with stack := b.stack.discard g }.Upholds s₀ :=
  h.withStack (h.sound.discard g) (FontStack.bare_discard b.stack g)

theorem Upholds.blocks (h : b.Upholds s₀) : b.stack.coverage.blocks = s₀.coverage.blocks := by
  rw [← h.bare]
  rfl

/-- The bare stack is sound as well. -/
theorem Upholds.sound_bare (h : b.Upholds s₀) : s₀.IsSound := h.bare ▸ h.sound.bare

/-- A job is packaged at once, and its page gets it back. -/
theorem Upholds.schedule (h : b.Upholds s₀) (t : Ticket Nat) :
    (b.schedule t).1 = [⟨t.job.rect, (FontStack.package t.job.glyph s₀.scale .empty).1⟩] ∧
      (b.schedule t).2.Upholds s₀ := by
  have hjob := t.job.fst_package b.scale h.sound.tidy
  have htidy := t.job.isTidy_package b.scale h.sound.tidy
  rw [← h.scale]
  unfold Bench.schedule
  split
  · exact ⟨congrArg (fun j => [j]) hjob, h.withStack (h.sound.withPool htidy) rfl⟩
  · rename_i hq
    rw [h.immediate] at hq
    contradiction

end Bench

namespace Page

variable {p p' : Page} {b : Bench Nat} {s₀ : FontStack} {c : Char} {size : Int}

/-- What is shown for a character that found no room. -/
def standIn (p : Page) (s₀ : FontStack) (size : Int) : Placement :=
  let g := (s₀.placeholder size).1
  (p.entry g.key).getD ⟨.blank, .blank, g.metrics⟩

/-- What a page shows for a character that it holds. -/
def shown (p : Page) (s₀ : FontStack) (size : Int) (c : Char) : Placement :=
  (p.entry ⟨c.toNat, size⟩).getD (p.standIn s₀ size)

/-- The page has an entry for a character, or it has no room for one. -/
def Holds (p : Page) (size : Int) (c : Char) : Prop :=
  (p.entry ⟨c.toNat, size⟩).isSome ∨ p.shelf.full = true

/-- A packaged glyph to upload, if it has ink. -/
def jobOf? (r : Rect) (g : Glyph) : Option Job :=
  if g.picture.data.isSome then some ⟨r, g⟩ else none

/-- The entry of a glyph that was given a rectangle. -/
def placementOf (p : Page) (g : Glyph) (r : Rect) : Placement :=
  ⟨r, (p.shelf.pack g.picture.width g.picture.height).2.coords r, g.metrics⟩

/-- The page with one more entry; the packaged glyph is pending if it has ink. -/
def withEntry (p : Page) (s₀ : FontStack) (key : GlyphKey) (g : Glyph) (r : Rect) : Page :=
  { p with
    shelf := (p.shelf.pack g.picture.width g.picture.height).2
    index := (key, p.placementOf g r) :: p.index
    pending := p.pending ++ (jobOf? r (FontStack.package g s₀.scale .empty).1).toList }

/-- The page after it had no room for a glyph. -/
def withoutRoom (p : Page) (g : Glyph) : Page :=
  { p with shelf := (p.shelf.pack g.picture.width g.picture.height).2 }

/-! ### One character -/

theorem substitute_spec (h : b.Upholds s₀) (p : Page) (size : Int) :
    (p.substitute b size).1 = p.standIn s₀ size ∧ (p.substitute b size).2.Upholds s₀ := by
  have hglyph : (b.stack.placeholder size).1 = (s₀.placeholder size).1 := by
    rw [FontStack.fst_placeholder h.sound.tidy, h.bare]
  constructor
  · change (p.entry (b.stack.placeholder size).1.key).getD
      ⟨.blank, .blank, (b.stack.placeholder size).1.metrics⟩ = _
    rw [hglyph]
    rfl
  · exact h.withStack ((h.sound.placeholder size).discard _) (FontStack.bare_placeholder _ size)

theorem noteUnpacked_upholds (h : b.Upholds s₀) (p : Page) (code : Nat) (g : Glyph) :
    (p.noteUnpacked b code g).Upholds s₀ := by
  rw [noteUnpacked]
  split
  · exact h.note _
  · exact h

/-- What a request for one character comes to. The glyph `g` is the one that is drawn if the page
has no entry yet. -/
inductive Outcome (p : Page) (s₀ : FontStack) (g : Glyph) (key : GlyphKey) : Placing → Prop
  /-- There is an entry. -/
  | known {e : Placement} {b : Bench Nat} (he : p.entry key = some e) (hb : b.Upholds s₀) :
    Outcome p s₀ g key ⟨e, false, p, b⟩
  /-- A rectangle is reserved, and an entry is made. -/
  | entered {r : Rect} {b : Bench Nat} (he : p.entry key = none)
    (hr : (p.shelf.pack g.picture.width g.picture.height).1 = some r) (hb : b.Upholds s₀) :
    Outcome p s₀ g key ⟨p.placementOf g r, true, p.withEntry s₀ key g r, b⟩
  /-- There is no room. -/
  | refused {b : Bench Nat} (he : p.entry key = none)
    (hr : (p.shelf.pack g.picture.width g.picture.height).1 = none) (hb : b.Upholds s₀) :
    Outcome p s₀ g key ⟨p.standIn s₀ key.size, false, p.withoutRoom g, b⟩

/-- Recording a glyph that has a rectangle makes an entry. -/
theorem enter_eq (h : b.Upholds s₀) (p : Page) (key : GlyphKey) (g : Glyph) (r : Rect) :
    ∃ b' : Bench Nat, b'.Upholds s₀ ∧
      p.enter b key g r (p.shelf.pack g.picture.width g.picture.height).2 =
        ⟨p.placementOf g r, true, p.withEntry s₀ key g r, b'⟩ := by
  obtain ⟨-, -, hink⟩ := FontStack.shape_package g s₀.scale .empty
  unfold enter
  cases hd : g.picture.data with
  | none =>
    refine ⟨_, h.withStack (h.sound.markReady g) (FontStack.bare_markReady b.stack g), ?_⟩
    rw [hd] at hink
    simp [withEntry, placementOf, jobOf?, hink]
  | some data =>
    obtain ⟨hjobs, hb⟩ := (h.note (.glyphScheduled key.code p.id)).schedule ⟨p.id, ⟨r, g⟩⟩
    refine ⟨_, hb, ?_⟩
    rw [hd] at hink
    simp [withEntry, placementOf, jobOf?, hink, accept, hjobs]

/-- **One request** comes to one of the outcomes. -/
theorem outcome_place (h : b.Upholds s₀) (p : Page) (c : Char) (size : Int) :
    Outcome p s₀ (b.stack.glyph c size).1 ⟨c.toNat, size⟩ (p.place b c size) := by
  unfold place
  dsimp only
  cases he : p.entry ⟨c.toNat, size⟩ with
  | some e => exact .known he h
  | none =>
    have hb : { b with stack := (b.stack.glyph c size).2 }.Upholds s₀ :=
      h.withStack (h.sound.glyph c size) (FontStack.bare_glyph b.stack c size)
    generalize (b.stack.glyph c size).1 = g
    dsimp only
    split
    · rename_i r shelf hpack
      obtain ⟨b', hb', henter⟩ := enter_eq hb p ⟨c.toNat, size⟩ g r
      rw [hpack] at henter
      rw [henter]
      exact .entered he (by rw [hpack]) hb'
    · rename_i shelf hpack
      obtain ⟨hshown, hb'⟩ := substitute_spec (noteUnpacked_upholds hb p c.toNat g) p size
      have hpage : { p with shelf } = p.withoutRoom g := by rw [withoutRoom, hpack]
      rw [hpage, hshown]
      exact .refused he (by rw [hpack]) (hb'.discard g)

/-- A glyph that is given a rectangle gets an entry. -/
theorem page_place_of_pack (h : b.Upholds s₀) {r : Rect} (he : p.entry ⟨c.toNat, size⟩ = none)
    (hr : (p.shelf.pack (b.stack.glyph c size).1.picture.width
      (b.stack.glyph c size).1.picture.height).1 = some r) :
    (p.place b c size).page = p.withEntry s₀ ⟨c.toNat, size⟩ (b.stack.glyph c size).1 r := by
  have hout := outcome_place h p c size
  generalize p.place b c size = q at hout ⊢
  cases hout with
  | known he' hb =>
    rw [he] at he'
    contradiction
  | entered he' hr' hb =>
    rw [hr] at hr'
    obtain rfl := Option.some.inj hr'
    rfl
  | refused he' hr' hb =>
    rw [hr] at hr'
    contradiction

/-- What a page keeps when it is asked for characters: its entries, its size and its texture, and,
if it is full, everything. -/
structure Grows (p p' : Page) : Prop where
  entry : ∀ key e, p.entry key = some e → p'.entry key = some e
  full : p.shelf.full = true → p' = p
  width : p'.width = p.width
  height : p'.height = p.height
  handle : p'.handle = p.handle

theorem Grows.refl (p : Page) : p.Grows p := ⟨fun _ _ h => h, fun _ => rfl, rfl, rfl, rfl⟩

theorem Grows.trans {p'' : Page} (h : p.Grows p') (h' : p'.Grows p'') : p.Grows p'' where
  entry key e he := h'.entry key e (h.entry key e he)
  full hfull := by
    obtain rfl := h.full hfull
    exact h'.full hfull
  width := h'.width.trans h.width
  height := h'.height.trans h.height
  handle := h'.handle.trans h.handle

theorem Holds.grow (hc : p.Holds size c) (h : p.Grows p') : p'.Holds size c := by
  rcases hc with hc | hc
  · obtain ⟨e, he⟩ := Option.isSome_iff_exists.mp hc
    exact .inl (by rw [h.entry _ e he]; rfl)
  · exact .inr (by rw [h.full hc]; exact hc)

/-- What is shown for a character stays once the page holds the character. -/
theorem Holds.shown_grow (hc : p.Holds size c) (h : p.Grows p') (s₀ : FontStack) :
    p'.shown s₀ size c = p.shown s₀ size c := by
  rcases hc with hc | hc
  · obtain ⟨e, he⟩ := Option.isSome_iff_exists.mp hc
    rw [shown, shown, h.entry _ e he, he, Option.getD_some, Option.getD_some]
  · rw [h.full hc]

theorem entry_withEntry (p : Page) (s₀ : FontStack) (key : GlyphKey) (g : Glyph) (r : Rect)
    (k : GlyphKey) : (p.withEntry s₀ key g r).entry k =
      if k = key then some (p.placementOf g r) else p.entry k := by
  rw [entry, withEntry, List.lookup_cons]
  by_cases h : k = key
  · rw [if_pos h, h, beq_self_eq_true]
  · rw [if_neg h, beq_false_of_ne h]
    rfl

/-- A page that is full has no room for anything. -/
theorem withoutRoom_of_full (h : p.shelf.full = true) (g : Glyph) : p.withoutRoom g = p := by
  rw [withoutRoom, Shelf.pack_of_full h]

/-- A page that refuses a glyph is full afterwards. -/
theorem full_withoutRoom {g : Glyph}
    (h : (p.shelf.pack g.picture.width g.picture.height).1 = none) :
    (p.withoutRoom g).shelf.full = true := Shelf.full_of_pack_eq_none h

/-- What one request does: the page grows and holds the character then, the answer can be read off
it, and the bench still upholds the stack. A page that held the character stays as it is. -/
theorem place_spec (h : b.Upholds s₀) (p : Page) (c : Char) (size : Int) :
    let r := p.place b c size
    r.bench.Upholds s₀ ∧ p.Grows r.page ∧ r.page.Holds size c ∧
      r.placement = r.page.shown s₀ size c ∧ (p.Holds size c → r.page = p) := by
  have hout := outcome_place h p c size
  generalize (b.stack.glyph c size).1 = g at hout
  generalize p.place b c size = r at hout ⊢
  cases hout with
  | known he hb =>
    refine ⟨hb, .refl p, .inl (by rw [he]; rfl), ?_, fun _ => rfl⟩
    rw [shown, he, Option.getD_some]
  | entered he hr hb =>
    have hentry := fun r => entry_withEntry p s₀ ⟨c.toNat, size⟩ g r
    have hfull : p.shelf.full ≠ true := fun hf => by
      rw [Shelf.pack_of_full hf] at hr
      contradiction
    refine ⟨hb, ⟨fun key e hkey => ?_, fun hf => absurd hf hfull, rfl, rfl, rfl⟩, .inl ?_, ?_,
      fun hholds => ?_⟩
    · have hne : key ≠ ⟨c.toNat, size⟩ := by
        rintro rfl
        rw [he] at hkey
        contradiction
      rw [hentry, if_neg hne, hkey]
    · rw [hentry, if_pos rfl]
      rfl
    · rw [shown, hentry, if_pos rfl, Option.getD_some]
    · rcases hholds with hc | hf
      · rw [he] at hc
        contradiction
      · exact absurd hf hfull
  | refused he hr hb =>
    have hkeep : p.Grows (p.withoutRoom g) :=
      ⟨fun _ _ hkey => hkey, fun hf => withoutRoom_of_full hf g, rfl, rfl, rfl⟩
    refine ⟨hb, hkeep, .inr (full_withoutRoom hr), ?_, fun hholds => ?_⟩
    · have hentry : (p.withoutRoom g).entry ⟨c.toNat, size⟩ = none := he
      rw [shown, hentry, Option.getD_none]
      rfl
    · rcases hholds with hc | hf
      · rw [he] at hc
        contradiction
      · exact withoutRoom_of_full hf g

/-! ### Whole texts -/

/-- **What asking for a text does.** The page grows and holds every character of the text then, the
answers can be read off it, and the bench still upholds the stack. -/
theorem find_spec (h : b.Upholds s₀) (p : Page) (size : Int) (text : List Char) :
    let f := p.find b size text
    f.bench.Upholds s₀ ∧ p.Grows f.page ∧ (∀ c ∈ text, f.page.Holds size c) ∧
      f.placements = text.map (f.page.shown s₀ size) := by
  induction text generalizing p b with
  | nil => exact ⟨h, .refl p, by simp, rfl⟩
  | cons c rest ih =>
    obtain ⟨hb, hgrows, hholds, hshown, -⟩ := place_spec h p c size
    obtain ⟨hb', hgrows', hholds', hshown'⟩ := ih hb (p.place b c size).page
    rw [find]
    refine ⟨hb', hgrows.trans hgrows', ?_, ?_⟩
    · exact List.forall_mem_cons.mpr ⟨hholds.grow hgrows', hholds'⟩
    · rw [List.map_cons, hholds.shown_grow hgrows', ← hshown, ← hshown']

/-- **Asking again changes nothing**: a page that holds every character of a text stays as it
is. -/
theorem find_of_holds (h : b.Upholds s₀) {text : List Char}
    (hholds : ∀ c ∈ text, p.Holds size c) : (p.find b size text).page = p := by
  induction text generalizing b with
  | nil => rfl
  | cons c rest ih =>
    obtain ⟨hc, hrest⟩ := List.forall_mem_cons.mp hholds
    obtain ⟨hb, -, -, -, hsame⟩ := place_spec h p c size
    rw [find, hsame hc]
    exact ih hb hrest

/-- When nothing is new, nothing more is pending. -/
theorem pending_place_of_not_isNew (h : b.Upholds s₀) (hnew : (p.place b c size).isNew = false) :
    (p.place b c size).page.pending = p.pending := by
  have hout := outcome_place h p c size
  generalize p.place b c size = r at hout hnew
  cases hout with
  | known he hb => rfl
  | entered he hr hb => contradiction
  | refused he hr hb => rfl

theorem pending_find_of_not_isNew (h : b.Upholds s₀) {text : List Char}
    (hnew : (p.find b size text).isNew = false) :
    (p.find b size text).page.pending = p.pending := by
  induction text generalizing p b with
  | nil => rfl
  | cons c rest ih =>
    rw [find] at hnew ⊢
    obtain ⟨hfirst, hothers⟩ := Bool.or_eq_false_iff.mp hnew
    obtain ⟨hb, -⟩ := place_spec h p c size
    rw [ih hb hothers, pending_place_of_not_isNew h hfirst]

/-- A text can be asked for in parts. -/
theorem find_append (p : Page) (b : Bench Nat) (size : Int) (text text' : List Char) :
    p.find b size (text ++ text') =
      let first := p.find b size text
      let others := first.page.find first.bench size text'
      { others with
        placements := first.placements ++ others.placements
        isNew := first.isNew || others.isNew } := by
  induction text generalizing p b with
  | nil => rfl
  | cons c rest ih =>
    rw [List.cons_append, find, ih, find]
    simp only [List.cons_append, Bool.or_assoc]

end Page

end Typecase
