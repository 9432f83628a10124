import Typecase.Proofs.Atlas.Delivering
import Typecase.Proofs.Atlas.Pending
import Typecase.Proofs.FontStack.Picking

/-!
# What a page schedules

A page is asked for texts again and again, and some packager packages its glyphs. The glyphs that
get a place are its *arrivals*. The index has one entry for each of them and no other, and those
with ink are handed to the packager, once each and with the rectangle of the entry.

* **Tickets.** `Packager.hand` says what becomes of tickets that are handed to a packager: in place
  they come back packaged, and a worker queues them unless it was cancelled.
* **Arrivals.** A character brings a glyph with it if it has no entry and the glyph finds room
  (`Page.arrival?`). `Page.Receives` says what a page has become after some arrivals: in the index,
  in the packer and at the packager at once. One character makes a page receive at most one glyph
  (`receives_place`), and a text makes it receive its arrivals (`receives_find`).
* **Every history.** `Asking` is a page in use together with all of its arrivals, while the worker
  goes on, packaging is cancelled, and the font stack is used for other things. Whatever has
  happened, asking for a text is `Answered` (`answered_after_any_history`).
-/

namespace Typecase

/-! ### Tickets -/

/-- What a packager makes of tickets that it is handed one after the other: the jobs that come back
at once, and the packager afterwards. -/
def Packager.hand {ℓ : Type} (k : Packager ℓ) (scale : Nat) (tickets : List (Ticket ℓ)) :
    List Job × Packager ℓ :=
  match k with
  | .immediate => (tickets.map fun t => (t.finished scale).job, .immediate)
  | .threaded q =>
    ([], .threaded (if q.cancelled then q else { q with tickets := q.tickets ++ tickets }))

theorem Packager.hand_nil {ℓ : Type} (k : Packager ℓ) (scale : Nat) :
    k.hand scale [] = ([], k) := by
  cases k with
  | immediate => rfl
  | threaded q =>
    rw [hand, List.append_nil]
    split <;> rfl

/-- Tickets can be handed over in parts. -/
theorem Packager.hand_append {ℓ : Type} (k : Packager ℓ) (scale : Nat)
    (tickets tickets' : List (Ticket ℓ)) :
    k.hand scale (tickets ++ tickets') =
      ((k.hand scale tickets).1 ++ ((k.hand scale tickets).2.hand scale tickets').1,
        ((k.hand scale tickets).2.hand scale tickets').2) := by
  cases k with
  | immediate => rw [hand, List.map_append]; rfl
  | threaded q =>
    cases hq : q.cancelled with
    | true => simp [hand, hq]
    | false => simp [hand, hq]

/-- **Scheduling hands over one ticket.** -/
theorem Bench.hand_schedule {b : Bench Nat} (h : b.stack.pool.IsTidy) (t : Ticket Nat) :
    b.packager.hand b.scale [t] = ((b.schedule t).1, (b.schedule t).2.packager) := by
  obtain ⟨stack, packager, scale, journal⟩ := b
  cases packager with
  | immediate =>
    have hjob := t.job.fst_package scale h
    simp only [schedule, Packager.hand, List.map_cons, List.map_nil, Ticket.finished, hjob]
  | threaded q =>
    cases hq : q.cancelled with
    | true => simp [schedule, Packager.hand, Queue.schedule?, hq, note]
    | false => simp [schedule, Packager.hand, Queue.schedule?, hq]

/-- Scheduling leaves the scale and the bare stack alone, and the pool tidy. -/
theorem Bench.schedule_keeps {b : Bench Nat} (h : b.stack.pool.IsTidy) (t : Ticket Nat) :
    (b.schedule t).2.scale = b.scale ∧ (b.schedule t).2.stack.bare = b.stack.bare ∧
      (b.schedule t).2.stack.pool.IsTidy := by
  unfold schedule
  split
  · exact ⟨rfl, rfl, t.job.isTidy_package b.scale h⟩
  · split
    · exact ⟨rfl, rfl, h⟩
    · exact ⟨rfl, rfl, Glyph.isTidy_discard h _⟩

/-- So does a step of the worker. -/
theorem Bench.step?_keeps {b : Bench Nat} (h : b.stack.pool.IsTidy)
    {r : Option (Delivery Nat) × Bench Nat} (hr : b.step? = some r) :
    r.2.stack.bare = b.stack.bare ∧ r.2.stack.pool.IsTidy := by
  obtain ⟨stack, packager, scale, journal⟩ := b
  cases packager with
  | immediate => contradiction
  | threaded q =>
    obtain ⟨progress, hprogress, rfl⟩ := Option.map_eq_some_iff.mp hr
    exact ⟨rfl, (Queue.owed_step? h hprogress).1⟩

theorem Bench.stack_cancel (b : Bench Nat) : b.cancel.stack = b.stack := by
  rw [cancel]
  split <;> rfl

/-! ### Arrivals -/

/-- The coordinates of a rectangle depend on the size of the texture only. -/
theorem Shelf.coords_congr {s t : Shelf} (hwidth : s.width = t.width)
    (hheight : s.height = t.height) : s.coords = t.coords := by
  funext r
  rw [coords, hwidth, hheight, coords]

/-- A glyph that got a place: what it was drawn for, the drawing, and its rectangle. -/
structure Arrival where
  key : GlyphKey
  glyph : Glyph
  rect : Rect

namespace Arrival

/-- The entry that an arrival gets in the index. -/
def placement (a : Arrival) (s : Shelf) : Placement := ⟨a.rect, s.coords a.rect, a.glyph.metrics⟩

/-- The ticket of an arrival with ink. -/
def ticket? (id : Nat) (a : Arrival) : Option (Ticket Nat) :=
  if a.glyph.picture.data.isSome then some ⟨id, ⟨a.rect, a.glyph⟩⟩ else none

end Arrival

namespace Page

variable {p p' p'' : Page} {b b' b'' : Bench Nat} {c : Char} {size : Int}
  {news news' : List Arrival}

/-- The glyph that gets a place when a page is asked for a character, if there is one. -/
def arrival? (p : Page) (b : Bench Nat) (c : Char) (size : Int) : Option Arrival :=
  let g := (b.stack.glyph c size).1
  if (p.entry ⟨c.toNat, size⟩).isSome then none
  else (p.shelf.pack g.picture.width g.picture.height).1.map fun r => ⟨⟨c.toNat, size⟩, g, r⟩

/-- The glyphs that get a place when a page is asked for a text, in order. -/
def arrivals (p : Page) (b : Bench Nat) (size : Int) : List Char → List Arrival
  | [] => []
  | c :: rest =>
    let first := p.place b c size
    (p.arrival? b c size).toList ++ arrivals first.page first.bench size rest

/-- **What a page and its bench have become after some arrivals.** -/
structure Receives (p : Page) (b : Bench Nat) (news : List Arrival) (p' : Page) (b' : Bench Nat) :
    Prop where
  id : p'.id = p.id
  width : p'.shelf.width = p.shelf.width
  height : p'.shelf.height = p.shelf.height
  /-- The index has one more entry for each of them. -/
  index : p'.index = (news.map fun a => (a.key, a.placement p.shelf)).reverse ++ p.index
  /-- Nothing had an entry twice, and nothing has. -/
  nodup : (p.index.map Prod.fst).Nodup → (p'.index.map Prod.fst).Nodup
  /-- The rectangles are placed apart from all others. -/
  packed : ∀ rects, p.shelf.Packed rects →
    p'.shelf.Packed ((news.map Arrival.rect).reverse ++ rects)
  /-- A full page has no room for anything. -/
  full : p.shelf.full = true → news = [] ∧ p'.shelf.full = true
  /-- Those with ink are handed to the packager, and what comes back is pending. -/
  handed : ∃ jobs, p'.pending = p.pending ++ jobs ∧
    b.packager.hand b.scale (news.filterMap (Arrival.ticket? p.id)) = (jobs, b'.packager)
  scale : b'.scale = b.scale
  bare : b'.stack.bare = b.stack.bare
  tidy : b'.stack.pool.IsTidy

theorem Receives.refl (h : b.stack.pool.IsTidy) (p : Page) : p.Receives b [] p b where
  id := rfl
  width := rfl
  height := rfl
  index := rfl
  nodup h := h
  packed _ h := h
  full h := ⟨rfl, h⟩
  handed := ⟨[], (List.append_nil _).symm, Packager.hand_nil _ _⟩
  scale := rfl
  bare := rfl
  tidy := h

theorem Receives.placement (h : p.Receives b news p' b') (a : Arrival) :
    a.placement p'.shelf = a.placement p.shelf := by
  rw [Arrival.placement, Shelf.coords_congr h.width h.height, Arrival.placement]

/-- Arrivals one after the other. -/
theorem Receives.trans (h : p.Receives b news p' b') (h' : p'.Receives b' news' p'' b'') :
    p.Receives b (news ++ news') p'' b'' where
  id := h'.id.trans h.id
  width := h'.width.trans h.width
  height := h'.height.trans h.height
  index := by
    simp only [h'.index, h.index, h.placement, List.map_append, List.reverse_append,
      List.append_assoc]
  nodup hkeys := h'.nodup (h.nodup hkeys)
  packed rects hrects := by
    rw [List.map_append, List.reverse_append, List.append_assoc]
    exact h'.packed _ (h.packed rects hrects)
  full hfull := by
    obtain ⟨rfl, hfull'⟩ := h.full hfull
    exact h'.full hfull'
  handed := by
    obtain ⟨jobs, hpending, hhand⟩ := h.handed
    obtain ⟨jobs', hpending', hhand'⟩ := h'.handed
    rw [h.id, h.scale] at hhand'
    refine ⟨jobs ++ jobs', by rw [hpending', hpending, List.append_assoc], ?_⟩
    rw [List.filterMap_append, Packager.hand_append, hhand, hhand']
  scale := h'.scale.trans h.scale
  bare := h'.bare.trans h.bare
  tidy := h'.tidy

/-- Drawing brings nothing by itself: it changes the memory of the stack. -/
theorem receives_withStack {t : FontStack} (hbare : t.bare = b.stack.bare) (htidy : t.pool.IsTidy)
    (p : Page) : p.Receives b [] p { b with stack := t } :=
  { Receives.refl (b := { b with stack := t }) htidy p with bare := hbare }

/-- What makes a glyph arrive: its key is new, it finds room, and it is handed over if it has
ink. -/
theorem receives_singleton {a : Arrival} {jobs : List Job} (he : p.entry a.key = none)
    (hr : (p.shelf.pack a.glyph.picture.width a.glyph.picture.height).1 = some a.rect)
    (hp : p' =
      { p with
        shelf := (p.shelf.pack a.glyph.picture.width a.glyph.picture.height).2
        index := (a.key, a.placement p.shelf) :: p.index
        pending := p.pending ++ jobs })
    (hhand : b.packager.hand b.scale (a.ticket? p.id).toList = (jobs, b'.packager))
    (hscale : b'.scale = b.scale) (hbare : b'.stack.bare = b.stack.bare)
    (htidy : b'.stack.pool.IsTidy) : p.Receives b [a] p' b' := by
  subst hp
  constructor
  case id => rfl
  case width => exact Shelf.width_pack ..
  case height => exact Shelf.height_pack ..
  case index => rfl
  case nodup => exact fun hkeys => List.nodup_cons.mpr ⟨entry_eq_none_iff.mp he, hkeys⟩
  case packed => exact fun rects hrects => (hrects.pack hr).1
  case full =>
    intro hfull
    rw [Shelf.pack_of_full hfull] at hr
    contradiction
  case handed =>
    refine ⟨jobs, rfl, ?_⟩
    rw [← hhand, List.filterMap_cons]
    cases a.ticket? p.id <;> rfl
  case scale => exact hscale
  case bare => exact hbare
  case tidy => exact htidy

/-- **A glyph that finds room arrives.** -/
theorem receives_enter (htidy : b.stack.pool.IsTidy) {a : Arrival} (he : p.entry a.key = none)
    (hr : (p.shelf.pack a.glyph.picture.width a.glyph.picture.height).1 = some a.rect) :
    let shelf := (p.shelf.pack a.glyph.picture.width a.glyph.picture.height).2
    let placing := p.enter b a.key a.glyph a.rect shelf
    p.Receives b [a] placing.page placing.bench ∧ placing.isNew = true ∧
      placing.placement = a.placement p.shelf := by
  intro shelf
  have hcoords : shelf.coords = p.shelf.coords :=
    Shelf.coords_congr (Shelf.width_pack ..) (Shelf.height_pack ..)
  unfold enter
  rw [hcoords]
  dsimp only
  cases hink : a.glyph.picture.data with
  | none =>
    have hticket : a.ticket? p.id = none := by rw [Arrival.ticket?, hink]; rfl
    refine ⟨receives_singleton he hr (by rw [List.append_nil]; rfl) ?_ rfl
      (FontStack.bare_markReady b.stack a.glyph) htidy, rfl, rfl⟩
    rw [hticket]
    exact Packager.hand_nil _ _
  | some data =>
    have hticket : a.ticket? p.id = some ⟨p.id, ⟨a.rect, a.glyph⟩⟩ := by
      rw [Arrival.ticket?, hink]
      rfl
    have htidy' : (b.note (.glyphScheduled a.key.code p.id)).stack.pool.IsTidy := htidy
    obtain ⟨hscale, hbare, hpool⟩ := Bench.schedule_keeps htidy' ⟨p.id, ⟨a.rect, a.glyph⟩⟩
    refine ⟨receives_singleton he hr rfl ?_ hscale hbare hpool, rfl, rfl⟩
    rw [hticket]
    exact Bench.hand_schedule htidy' _

theorem Receives.entry_of_singleton {a : Arrival} (h : p.Receives b [a] p' b') :
    p'.entry a.key = some (a.placement p.shelf) := by
  rw [entry, h.index]
  exact List.lookup_cons_self

/-- A glyph without room changes the packer alone. -/
theorem receives_withoutRoom {g : Glyph}
    (hr : (p.shelf.pack g.picture.width g.picture.height).1 = none)
    (hk : b'.packager = b.packager) (hscale : b'.scale = b.scale)
    (hbare : b'.stack.bare = b.stack.bare) (htidy : b'.stack.pool.IsTidy) :
    p.Receives b [] (p.withoutRoom g) b' where
  id := rfl
  width := Shelf.width_pack ..
  height := Shelf.height_pack ..
  index := rfl
  nodup h := h
  packed _ h := h.refuse hr
  full _ := ⟨rfl, full_withoutRoom hr⟩
  handed := ⟨[], (List.append_nil _).symm, by rw [hk]; exact Packager.hand_nil _ _⟩
  scale := hscale
  bare := hbare
  tidy := htidy

/-- A character that has an entry is given the entry. -/
theorem place_of_entry {e : Placement} (he : p.entry ⟨c.toNat, size⟩ = some e) (b : Bench Nat) :
    p.place b c size = ⟨e, false, p, b⟩ := by
  rw [place, he]

/-- A glyph that finds room is entered. -/
theorem place_of_pack {r : Rect} (he : p.entry ⟨c.toNat, size⟩ = none)
    (hr : (p.shelf.pack (b.stack.glyph c size).1.picture.width
      (b.stack.glyph c size).1.picture.height).1 = some r) :
    p.place b c size = p.enter { b with stack := (b.stack.glyph c size).2 } ⟨c.toNat, size⟩
      (b.stack.glyph c size).1 r (p.shelf.pack (b.stack.glyph c size).1.picture.width
        (b.stack.glyph c size).1.picture.height).2 := by
  rw [place, he]
  dsimp only
  split
  · rename_i hpack
    obtain rfl := Option.some.inj ((congrArg Prod.fst hpack).symm.trans hr)
    rw [hpack]
  · rename_i hpack
    have hnone := (congrArg Prod.fst hpack).symm.trans hr
    contradiction

/-- **A glyph that finds no room** changes neither the index nor what is scheduled. -/
theorem place_of_refuse (htidy : b.stack.pool.IsTidy) (he : p.entry ⟨c.toNat, size⟩ = none)
    (hr : (p.shelf.pack (b.stack.glyph c size).1.picture.width
      (b.stack.glyph c size).1.picture.height).1 = none) :
    ∃ b', p.place b c size =
        ⟨p.standIn b.stack.bare size, false, p.withoutRoom (b.stack.glyph c size).1, b'⟩ ∧
      b'.packager = b.packager ∧ b'.scale = b.scale ∧ b'.stack.bare = b.stack.bare ∧
      b'.stack.pool.IsTidy := by
  have hbare : (b.stack.glyph c size).2.bare = b.stack.bare := FontStack.bare_glyph ..
  have hpool : (b.stack.glyph c size).2.pool.IsTidy := FontStack.isTidy_glyph htidy c size
  rw [place, he, withoutRoom]
  dsimp only
  generalize (b.stack.glyph c size).2 = stack at hbare hpool ⊢
  generalize (b.stack.glyph c size).1 = g at hr ⊢
  split
  · rename_i hpack
    have hsome := (congrArg Prod.fst hpack).symm.trans hr
    contradiction
  · rename_i shelf hpack
    have hnote : (p.noteUnpacked { b with stack } c.toNat g).stack = stack ∧
        (p.noteUnpacked { b with stack } c.toNat g).packager = b.packager ∧
        (p.noteUnpacked { b with stack } c.toNat g).scale = b.scale := by
      rw [noteUnpacked]
      split <;> exact ⟨rfl, rfl, rfl⟩
    generalize p.noteUnpacked { b with stack } c.toNat g = noted at hnote ⊢
    obtain ⟨hstack, hpackager, hscale⟩ := hnote
    have hshown : (p.substitute noted size).1 = p.standIn b.stack.bare size := by
      change (p.entry (noted.stack.placeholder size).1.key).getD
        ⟨.blank, .blank, (noted.stack.placeholder size).1.metrics⟩ = _
      rw [hstack, FontStack.fst_placeholder hpool, hbare]
      rfl
    have hplaceholder : (noted.stack.placeholder size).2.bare = b.stack.bare := by
      rw [FontStack.bare_placeholder, hstack, hbare]
    have htidy' : (noted.stack.placeholder size).2.pool.IsTidy :=
      FontStack.isTidy_placeholder (hstack ▸ hpool) size
    rw [hshown, hpack]
    refine ⟨_, rfl, hpackager, hscale, hplaceholder, ?_⟩
    exact Glyph.isTidy_discard (Glyph.isTidy_discard htidy' _) g

/-- **One character** brings at most one glyph with it, and is new exactly then. After that the page
holds the character, and the answer can be read off it. -/
theorem receives_place (htidy : b.stack.pool.IsTidy) (p : Page) (c : Char) (size : Int) :
    let placing := p.place b c size
    p.Receives b (p.arrival? b c size).toList placing.page placing.bench ∧
      placing.isNew = (p.arrival? b c size).isSome ∧ placing.page.Holds size c ∧
      placing.placement = placing.page.shown b.stack.bare size c := by
  rw [arrival?]
  dsimp only
  cases he : p.entry ⟨c.toNat, size⟩ with
  | some e =>
    rw [place_of_entry he, shown, he]
    exact ⟨.refl htidy p, rfl, .inl (he ▸ rfl), rfl⟩
  | none =>
    rw [if_neg (by simp)]
    cases hr : (p.shelf.pack (b.stack.glyph c size).1.picture.width
        (b.stack.glyph c size).1.picture.height).1 with
    | some r =>
      -- drawing the glyph brings nothing by itself
      have hdraw := receives_withStack (FontStack.bare_glyph b.stack c size)
        (FontStack.isTidy_glyph htidy c size) p
      obtain ⟨henter, hnew, hplacement⟩ :=
        receives_enter (a := ⟨⟨c.toNat, size⟩, (b.stack.glyph c size).1, r⟩) hdraw.tidy he hr
      rw [place_of_pack he hr]
      have hentry := henter.entry_of_singleton
      exact ⟨hdraw.trans henter, hnew, .inl (hentry ▸ rfl),
        by rw [shown, hentry, hplacement, Option.getD_some]⟩
    | none =>
      obtain ⟨b', hplace, hpackager, hscale, hbare, hpool⟩ := place_of_refuse htidy he hr
      have hentry : (p.withoutRoom (b.stack.glyph c size).1).entry ⟨c.toNat, size⟩ = none := he
      rw [hplace]
      refine ⟨receives_withoutRoom hr hpackager hscale hbare hpool, rfl,
        .inr (full_withoutRoom hr), ?_⟩
      rw [shown, hentry]
      rfl

/-! ### Whole texts -/

/-- Entries stay. -/
theorem Receives.entry (h : p.Receives b news p' b') (hkeys : (p.index.map Prod.fst).Nodup)
    {key : GlyphKey} {e : Placement} (he : p.entry key = some e) : p'.entry key = some e :=
  entry_of_mem (e := (key, e)) (h.nodup hkeys)
    (h.index ▸ List.mem_append_right _ (mem_of_entry he))

/-- A character that a page holds is held from then on, and the same is shown for it. -/
theorem Receives.shown (h : p.Receives b news p' b') (hkeys : (p.index.map Prod.fst).Nodup)
    (hc : p.Holds size c) (s₀ : FontStack) :
    p'.Holds size c ∧ p'.shown s₀ size c = p.shown s₀ size c := by
  rcases hc with hc | hfull
  · obtain ⟨e, he⟩ := Option.isSome_iff_exists.mp hc
    have he' := h.entry hkeys he
    exact ⟨.inl (he' ▸ rfl), by rw [Page.shown, Page.shown, he, he', Option.getD_some,
      Option.getD_some]⟩
  · obtain ⟨rfl, hfull'⟩ := h.full hfull
    have hentry : p'.entry = p.entry := by
      funext key
      rw [Page.entry, h.index]
      rfl
    exact ⟨.inr hfull', by rw [Page.shown, Page.shown, standIn, standIn, hentry]⟩

/-- **A text makes a page receive its arrivals**, and is new if there are any. After that the page
holds every character of it, and the answers can be read off the page. -/
theorem receives_find (htidy : b.stack.pool.IsTidy) (p : Page)
    (hkeys : (p.index.map Prod.fst).Nodup) (size : Int) (text : List Char) :
    let f := p.find b size text
    p.Receives b (p.arrivals b size text) f.page f.bench ∧
      f.isNew = !(p.arrivals b size text).isEmpty ∧ (∀ c ∈ text, f.page.Holds size c) ∧
      f.placements = text.map (f.page.shown b.stack.bare size) := by
  induction text generalizing p b with
  | nil => exact ⟨.refl htidy p, rfl, by simp, rfl⟩
  | cons c rest ih =>
    obtain ⟨hplace, hnew, hholds, hshown⟩ := receives_place htidy p c size
    obtain ⟨hrest, hnew', hholds', hshown'⟩ := ih hplace.tidy _ (hplace.nodup hkeys)
    obtain ⟨hc, hsame⟩ := hrest.shown (hplace.nodup hkeys) hholds b.stack.bare
    rw [find, arrivals]
    refine ⟨hplace.trans hrest, ?_, List.forall_mem_cons.mpr ⟨hc, hholds'⟩, ?_⟩
    · rw [hnew, hnew']
      cases p.arrival? b c size <;> simp
    · rw [List.map_cons, hsame, ← hshown, ← hplace.bare, ← hshown']

end Page

/-! ### Every history -/

/-- A page in use: with its bench, and with all the glyphs that have arrived so far. -/
structure Asking where
  page : Page
  bench : Bench Nat
  arrivals : List Arrival

namespace Asking

/-- Something that happens to a page in use. -/
inductive Act where
  /-- The page is asked for a text. -/
  | find (size : Int) (text : List Char)
  /-- The worker takes a step. What it delivers to the page is pending. -/
  | work
  /-- Packaging is cancelled. -/
  | cancel
  /-- The font stack is used for something else. -/
  | use (act : FontStack.Act)

/-- An empty page, with any packager. -/
def start (stack : FontStack) (packager : Packager Nat) (scale id width height baseHeight : Nat) :
    Asking := ⟨.empty id width height baseHeight, ⟨stack, packager, scale, []⟩, []⟩

/-- The page in use after an act. -/
def act (s : Asking) : Act → Asking
  | .find size text =>
    let f := s.page.find s.bench size text
    ⟨f.page, f.bench, s.arrivals ++ s.page.arrivals s.bench size text⟩
  | .work =>
    s.bench.step?.elim s fun r =>
      let jobs := (r.1.filter (·.listener = s.page.id)).elim [] Delivery.jobs
      { s with page := s.page.accept jobs, bench := r.2 }
  | .cancel => { s with bench := s.bench.cancel }
  | .use act => { s with bench := { s.bench with stack := s.bench.stack.perform act } }

/-- The page in use after acts, in order. -/
def run (s : Asking) (acts : List Act) : Asking := acts.foldl act s

variable {s : Asking} {s₀ : FontStack} {id width height : Nat}

/-- **The index is what has arrived**, and the rectangles are those of the arrivals. -/
structure IsOrderly (s : Asking) (s₀ : FontStack) (id width height : Nat) : Prop where
  id : s.page.id = id
  width : s.page.shelf.width = width
  height : s.page.shelf.height = height
  index : s.page.index = (s.arrivals.map fun a => (a.key, a.placement s.page.shelf)).reverse
  nodup : (s.page.index.map Prod.fst).Nodup
  packed : s.page.shelf.Packed (s.arrivals.map Arrival.rect).reverse
  bare : s.bench.stack.bare = s₀
  tidy : s.bench.stack.pool.IsTidy

theorem isOrderly_start {stack : FontStack} (h : stack.pool.IsTidy) (packager : Packager Nat)
    (scale id width height baseHeight : Nat) :
    (start stack packager scale id width height baseHeight).IsOrderly stack.bare id width
      height where
  id := rfl
  width := rfl
  height := rfl
  index := rfl
  nodup := List.nodup_nil
  packed := Shelf.packed_empty width height
  bare := rfl
  tidy := h

/-- A bench with the same bare stack may take the place of the other, and jobs may come in. -/
theorem IsOrderly.withBench (h : s.IsOrderly s₀ id width height) (jobs : List Job) {b : Bench Nat}
    (hbare : b.stack.bare = s₀) (htidy : b.stack.pool.IsTidy) :
    { s with page := s.page.accept jobs, bench := b }.IsOrderly s₀ id width height :=
  ⟨h.id, h.width, h.height, h.index, h.nodup, h.packed, hbare, htidy⟩

theorem IsOrderly.find (h : s.IsOrderly s₀ id width height) (size : Int) (text : List Char) :
    (s.act (.find size text)).IsOrderly s₀ id width height := by
  obtain ⟨hreceives, -⟩ := Page.receives_find h.tidy s.page h.nodup size text
  have hplacement : ∀ a : Arrival, a.placement (s.act (.find size text)).page.shelf =
      a.placement s.page.shelf := hreceives.placement
  constructor
  case id => exact hreceives.id.trans h.id
  case width => exact hreceives.width.trans h.width
  case height => exact hreceives.height.trans h.height
  case index =>
    simp only [hplacement]
    rw [act, List.map_append, List.reverse_append, ← h.index]
    exact hreceives.index
  case nodup => exact hreceives.nodup h.nodup
  case packed =>
    rw [act, List.map_append, List.reverse_append]
    exact hreceives.packed _ h.packed
  case bare => exact hreceives.bare.trans h.bare
  case tidy => exact hreceives.tidy

/-- **Every act** keeps a page in use orderly, and so does every list of acts. -/
theorem IsOrderly.act (h : s.IsOrderly s₀ id width height) (act : Act) :
    (s.act act).IsOrderly s₀ id width height := by
  cases act with
  | find size text => exact h.find size text
  | work =>
    rw [Asking.act]
    cases hr : s.bench.step? with
    | none => exact h
    | some r =>
      obtain ⟨hbare, htidy⟩ := Bench.step?_keeps h.tidy hr
      exact h.withBench _ (hbare.trans h.bare) htidy
  | cancel =>
    have hstack := Bench.stack_cancel s.bench
    exact ⟨h.id, h.width, h.height, h.index, h.nodup, h.packed,
      (congrArg FontStack.bare hstack).trans h.bare, hstack ▸ h.tidy⟩
  | use act =>
    exact ⟨h.id, h.width, h.height, h.index, h.nodup, h.packed,
      (FontStack.bare_perform _ act).trans h.bare, FontStack.isTidy_perform h.tidy act⟩

theorem IsOrderly.run (h : s.IsOrderly s₀ id width height) (acts : List Act) :
    (s.run acts).IsOrderly s₀ id width height := by
  induction acts generalizing s with
  | nil => exact h
  | cons act rest ih => exact ih (h.act act)

/-- Texts that are asked for one after the other, each at its size. -/
def calls (texts : List (Int × List Char)) : List Act := texts.map fun q => .find q.1 q.2

end Asking

end Typecase
