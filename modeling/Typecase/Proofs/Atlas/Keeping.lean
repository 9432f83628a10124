import Typecase.Font.Data
import Typecase.Proofs.Atlas.Session

/-!
# Groups and the entries of their pages

A group is marked with all the characters of a request before its page is asked for them, and the
page decides on its own whether it has room for a glyph. So the keys of a group and the entries of
its page are two records of the same requests, and `Page.Keeps` says how far they agree.

* **No entry without a key.** A page has entries only for keys of its group.
* **A key without an entry** means that the page refused a glyph, and from then on it is full. As
  long as it is not full the two sets are the same, and once it is full they are not
  (`Page.Keeps.forall_isSome_iff`).
* **Every session** keeps it so, for every group and at every size (`keys_of_group`).
-/

namespace Typecase

/-! ### One page -/

namespace Page

variable {p : Page} {b : Bench Nat} {s₀ : FontStack} {c : Char} {size : Int}
  {keys keys' : List GlyphKey}

/-- A page has entries for some of the keys only, and if it is full, it refused one of them. -/
structure Within (p : Page) (keys : List GlyphKey) : Prop where
  listed : ∀ key, (p.entry key).isSome = true → key ∈ keys
  refused : p.shelf.full = true → ∃ key ∈ keys, p.entry key = none

/-- The entries of a page agree with some keys, as far as there was room. -/
structure Keeps (p : Page) (keys : List GlyphKey) : Prop extends p.Within keys where
  settled : ∀ key ∈ keys, (p.entry key).isSome = true ∨ p.shelf.full = true

theorem Within.mono (h : p.Within keys) (hkeys : ∀ key ∈ keys, key ∈ keys') :
    p.Within keys' where
  listed key hkey := hkeys key (h.listed key hkey)
  refused hfull := by
    obtain ⟨key, hkey, hnone⟩ := h.refused hfull
    exact ⟨key, hkeys key hkey, hnone⟩

/-- **The two records are the same until a glyph finds no room**, and not from then on. -/
theorem Keeps.forall_isSome_iff (h : p.Keeps keys) :
    (∀ key ∈ keys, (p.entry key).isSome = true) ↔ p.shelf.full = false := by
  constructor
  · intro hall
    refine Bool.eq_false_iff.mpr fun hfull => ?_
    obtain ⟨key, hkey, hnone⟩ := h.refused hfull
    have hsome := hall key hkey
    rw [hnone] at hsome
    contradiction
  · intro hfull key hkey
    rcases h.settled key hkey with hsome | hfull'
    · exact hsome
    · rw [hfull] at hfull'
      contradiction

theorem keeps_empty (id edge baseHeight : Nat) : (empty id edge edge baseHeight).Keeps [] where
  listed key hkey := by contradiction
  refused hfull := by contradiction
  settled key hkey := by contradiction

/-- Asking for a character among the keys makes no entry for any other key. -/
theorem Within.place (h : p.Within keys) (hb : b.Upholds s₀)
    (hc : (⟨c.toNat, size⟩ : GlyphKey) ∈ keys) : (p.place b c size).page.Within keys := by
  have hout := outcome_place hb p c size
  generalize (b.stack.glyph c size).1 = g at hout
  generalize p.place b c size = r at hout ⊢
  cases hout with
  | known he hb' => exact h
  | entered he hr hb' =>
    refine ⟨fun key hkey => ?_, fun hfull => ?_⟩
    · rw [entry_withEntry] at hkey
      split at hkey
      · rename_i heq
        exact heq ▸ hc
      · exact h.listed key hkey
    · obtain ⟨-, -, hroom⟩ := Shelf.spec_of_pack_eq_some hr
      exact absurd hfull (Bool.eq_false_iff.mp hroom)
  | refused he hr hb' => exact ⟨h.listed, fun _ => ⟨_, hc, he⟩⟩

theorem Within.find {text : List Char} (h : p.Within keys) (hb : b.Upholds s₀)
    (htext : ∀ c ∈ text, (⟨c.toNat, size⟩ : GlyphKey) ∈ keys) :
    (p.find b size text).page.Within keys := by
  induction text generalizing p b with
  | nil => exact h
  | cons c rest ih =>
    obtain ⟨hc, hrest⟩ := List.forall_mem_cons.mp htext
    obtain ⟨hb', -⟩ := place_spec hb p c size
    exact ih (h.place hb hc) hb' hrest

/-- **A request leaves the page of a group and the marked group in agreement.** -/
theorem Keeps.find {g : GlyphGroup Nat} (h : p.Keeps g.keys) (hb : b.Upholds s₀) (size : Int)
    (text : List Char) : (p.find b size text).page.Keeps (g.mark text size).keys := by
  obtain ⟨-, hgrows, hholds, -⟩ := find_spec hb p size text
  have hold : ∀ key ∈ g.keys, key ∈ (g.mark text size).keys :=
    fun key hkey => GlyphGroup.mem_keys_mark.mpr (.inl hkey)
  have hnew : ∀ c ∈ text, (⟨c.toNat, size⟩ : GlyphKey) ∈ (g.mark text size).keys :=
    fun c hc => GlyphGroup.mem_keys_mark.mpr (.inr ⟨c, hc, rfl⟩)
  refine ⟨(h.toWithin.mono hold).find hb hnew, fun key hkey => ?_⟩
  rcases GlyphGroup.mem_keys_mark.mp hkey with hkey | ⟨c, hc, rfl⟩
  · rcases h.settled key hkey with hsome | hfull
    · obtain ⟨e, he⟩ := Option.isSome_iff_exists.mp hsome
      exact .inl (by rw [hgrows.entry key e he]; rfl)
    · exact .inr (by rw [hgrows.full hfull, hfull])
  · exact hholds c hc

/-- Only the entries and the packer matter. -/
theorem Keeps.of_eq {p' : Page} (h : p.Keeps keys) (hindex : p'.index = p.index)
    (hshelf : p'.shelf = p.shelf) : p'.Keeps keys := by
  have hentry : ∀ key, p'.entry key = p.entry key := fun key => by rw [entry, hindex]; rfl
  constructor
  · constructor
    · simpa only [hentry] using h.listed
    · simpa only [hentry, hshelf] using h.refused
  · simpa only [hentry, hshelf] using h.settled

end Page

/-! ### Every group -/

namespace Atlas

variable {a a' : Atlas} {s₀ : FontStack} {text : List Char} {size : Int} {i : Nat}

/-- Every page agrees with the group that draws on it. -/
def IsKept (a : Atlas) : Prop :=
  ∀ i g p, a.groups.groups[i]? = some g → a.page? i = some p → p.Keeps g.keys

/-- The group that a request is served from agrees with its page before, be it a new one. -/
theorem IsKept.keeps_at (h : a.IsKept) (ho : a.Orderly s₀) (hi : i ≤ a.pages.length) :
    (a.pageAt s₀ i).Keeps (a.groupAt i).keys := by
  rw [pageAt, groupAt]
  rcases Nat.eq_or_lt_of_le hi with rfl | hlt
  · have hpage : a.page? a.pages.length = none := page?_eq_none_iff.mpr (Nat.le_refl _)
    have hgroup : a.groups.groups[a.pages.length]? = none :=
      List.getElem?_eq_none (Nat.le_of_eq ho.groups)
    rw [hpage, hgroup]
    exact Page.keeps_empty _ _ _
  · have hpage : a.page? i = some a.pages[i] := List.getElem?_eq_getElem hlt
    obtain ⟨g, hgroup⟩ : ∃ g, a.groups.groups[i]? = some g :=
      ⟨_, List.getElem?_eq_getElem (ho.groups ▸ hlt)⟩
    rw [hpage, hgroup]
    exact h i g _ hgroup hpage

theorem Serves.isKept {p : Page} (hs : a.Serves s₀ text size i p a')
    (hp : p.Keeps ((a.groupAt i).mark text size).keys) (h : a.IsKept) : a'.IsKept := by
  intro j g q hg hq
  rw [hs.group] at hg
  rw [hs.page] at hq
  split at hg
  · rename_i hj
    rw [if_pos hj] at hq
    obtain rfl := Option.some.inj hg
    obtain rfl := Option.some.inj hq
    exact hp
  · rename_i hj
    rw [if_neg hj] at hq
    exact h j g q hg hq

/-- Uploading changes neither the entries of a page nor its packer. -/
theorem shelf_uploadPages (a : Atlas) (t : Page.Transfer) (ids : List Nat) (i : Nat) :
    ((a.uploadPages t ids).1.page? i).map (fun p => (p.index, p.shelf)) =
      (a.page? i).map fun p => (p.index, p.shelf) := by
  induction ids generalizing a t with
  | nil => rfl
  | cons id rest ih =>
    rw [uploadPages]
    cases hp : a.page? id with
    | none => exact ih a t
    | some p =>
      refine (ih (a.setPage id (p.upload t).1) (p.upload t).2).trans ?_
      rw [page?_setPage hp]
      split
      · rename_i hi
        rw [hi, hp]
        rfl
      · rfl

/-- **What an update leaves alone**: the groups, the settings, the number of pages, and the entries
and the packer of every page. -/
theorem Orderly.update_spec (ho : a.Orderly s₀) (d : Device) (sync : Bool) (elapsed : Nat) :
    let a' := (a.update d sync elapsed).atlas
    a'.groups = a.groups ∧ a'.settings = a.settings ∧ a'.pages.length = a.pages.length ∧
      ∀ i q, a'.page? i = some q →
        ∃ p, a.page? i = some p ∧ q.index = p.index ∧ q.shelf = p.shelf := by
  rw [ho.update_eq]
  split
  · exact ⟨rfl, rfl, rfl, fun i q hq => ⟨q, hq, rfl, rfl⟩⟩
  · have hr := uploads_uploadPages { a with quiet := true } ⟨[], d, a.bench.stack⟩
      (List.range a.pages.length) ho.bench.sound
    have hshelf := shelf_uploadPages { a with quiet := true } ⟨[], d, a.bench.stack⟩
      (List.range a.pages.length)
    generalize { a with quiet := true }.uploadPages _ _ = r at hr hshelf
    have hgroups : r.1.groups = a.groups := by rw [hr.frame]
    have hsettings : r.1.settings = a.settings := by rw [hr.frame]
    refine ⟨hgroups, hsettings, hr.count, fun i q hq => ?_⟩
    have hq : r.1.page? i = some q := hq
    have hsame := hshelf i
    rw [hq, Option.map_some] at hsame
    obtain ⟨p, hp, heq⟩ := Option.map_eq_some_iff.mp hsame.symm
    obtain ⟨hindex, hpacker⟩ := Prod.mk.inj heq
    exact ⟨p, hp, hindex.symm, hpacker.symm⟩

theorem IsKept.update (h : a.IsKept) (ho : a.Orderly s₀) (d : Device) (sync : Bool)
    (elapsed : Nat) : (a.update d sync elapsed).atlas.IsKept := by
  obtain ⟨hgroups, -, -, hpages⟩ := ho.update_spec d sync elapsed
  intro i g q hg hq
  obtain ⟨p, hp, hindex, hshelf⟩ := hpages i q hq
  exact (h i g p (hgroups ▸ hg) hp).of_eq hindex hshelf

end Atlas

namespace Session

theorem isKept_perform {s : Session} {s₀ : FontStack} (h : s.atlas.IsKept)
    (ho : s.atlas.Orderly s₀) (act : Act) : (s.perform act).atlas.IsKept := by
  cases act with
  | request lines size =>
    obtain ⟨b, hb, hserves, -, -⟩ := Atlas.lookup_spec ho lines size
    exact hserves.isKept ((h.keeps_at ho hserves.le).find hb size lines.flatten) h
  | update sync elapsed => exact h.update ho s.device sync elapsed

theorem isKept_performAll {s : Session} {s₀ : FontStack} (h : s.atlas.IsKept)
    (ho : s.atlas.Orderly s₀) (acts : List Act) : (s.performAll acts).atlas.IsKept := by
  induction acts generalizing s with
  | nil => exact h
  | cons act acts ih => exact ih (isKept_perform h ho act) (orderly_perform ho act)

/-- **The keys of a group and the entries of its page.** In every session every group has a page.
The page has entries only for keys of the group, and it has one for every key of the group exactly
if it never refused a glyph, which is when its packer is not full. -/
theorem keys_of_group (settings : Settings) (opener : Opener) (config : AtlasSettings)
    (acts : List Act) :
    let a := ((start config (FontStack.build settings opener).1).performAll acts).atlas
    ∀ g ∈ a.groups.groups, ∃ id p, g.texture = some id ∧ a.page? id = some p ∧
      (∀ key, (p.entry key).isSome = true → key ∈ g.keys) ∧
      ((∀ key ∈ g.keys, (p.entry key).isSome = true) ↔ p.shelf.full = false) := by
  intro a g hg
  have hstart := Atlas.orderly_ofStack config (FontStack.isSound_build settings opener)
  have hkept : a.IsKept := by
    refine isKept_performAll ?_ hstart acts
    intro i g p hi
    contradiction
  have horderly : a.Orderly _ := orderly_performAll hstart acts
  obtain ⟨i, hi⟩ := List.mem_iff_getElem?.mp hg
  have hlt : i < a.pages.length := by
    rw [← horderly.groups]
    exact (List.getElem?_eq_some_iff.mp hi).1
  have hp : a.page? i = some a.pages[i] := List.getElem?_eq_getElem hlt
  have hkeeps := hkept i g _ hi hp
  exact ⟨i, a.pages[i], horderly.texture i g hi, hp, hkeeps.listed, hkeeps.forall_isSome_iff⟩

/-- A texture of sixteen texels a side has room for one pixel and its margin. When two characters
are asked for, the group has the keys of both, and its page refuses the second one. -/
theorem keys_of_group_with_refusal :
    let spot : TabulatedFont := ⟨"spot", 1, [], [], [], [], ⟨1, 1, 1, some #[255], 0, 0, 0, 0⟩⟩
    let settings : Settings := ⟨[], [], [], [⟨"spot", .table spot⟩], 1, 1⟩
    let a := ((start { AtlasSettings.usual with textureSize := 16 }
      (FontStack.build settings FontData.openAny).1).performAll [.request [['A', 'B']] 1]).atlas
    let g : GlyphGroup Nat := ⟨[⟨0x42, 1⟩, ⟨0x41, 1⟩], some 0⟩
    g ∈ a.groups.groups ∧ ∃ p, a.page? 0 = some p ∧ (p.entry ⟨0x41, 1⟩).isSome = true ∧
      p.entry ⟨0x42, 1⟩ = none ∧ p.shelf.full = true := by
  intro spot settings a g
  have hg : a.groups.groups = [g] := by decide
  have hentries : (a.page? 0).map (fun p =>
      ((p.entry ⟨0x41, 1⟩).isSome, (p.entry ⟨0x42, 1⟩).isNone)) = some (true, true) := by decide
  have hmem : g ∈ a.groups.groups := hg ▸ List.mem_singleton_self g
  obtain ⟨id, p, htexture, hp, -, hiff⟩ := keys_of_group settings FontData.openAny
    { AtlasSettings.usual with textureSize := 16 } [.request [['A', 'B']] 1] g hmem
  obtain rfl : 0 = id := Option.some.inj htexture
  rw [hp, Option.map_some, Option.some.injEq, Prod.mk.injEq] at hentries
  obtain ⟨hfirst, hsecond⟩ := hentries
  have hnone : p.entry ⟨0x42, 1⟩ = none := Option.isNone_iff_eq_none.mp hsecond
  refine ⟨hmem, p, hp, hfirst, hnone, Bool.not_eq_false _ |>.mp fun hfull => ?_⟩
  have hsome := hiff.mpr hfull ⟨0x42, 1⟩ List.mem_cons_self
  rw [hnone] at hsome
  contradiction

end Session

end Typecase
