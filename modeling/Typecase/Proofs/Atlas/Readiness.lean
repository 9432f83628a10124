import Typecase.Proofs.Atlas.Overflow

/-!
# What is ready has been uploaded

Whether a text is ready is asked of the fonts, which know nothing about pages. A drawing that they
call ready was uploaded to the texture of *some* page. The same drawing may be on several pages,
because groups overlap, so the page that a request is served from need not be that page.

* **Pages.** Every entry of a page carries a finished drawing for its key, whose texels were
  uploaded to the texture of the page or are pending (`Page.Accounts`). Asking for characters and
  uploading keep it so (`Page.Accounts.find`, `Page.Accounts.upload`).
* **Records.** Every drawing that is recorded as ready was uploaded to the texture of some page, if
  it has texels (`Atlas.Accounts`).
* **Sessions.** If a text is ready after it was asked for, then every character of it has a font,
  and what this font draws of it was uploaded; the entry of the character shows the same drawing
  (`uploaded_of_areReady`).
* **No more than that.** The drawing can be pending for the page that the text is served from, and
  what stands in for a character without an entry need not have been uploaded at all
  (`pending_of_areReady`).
-/

namespace Typecase

namespace Page

variable {p p' : Page} {b : Bench Nat} {s₀ : FontStack} {calls calls' : List DeviceCall}
  {e : Placement} {g : Glyph} {c : Char} {size : Int} {key : GlyphKey} {i : Nat}

/-! ### The drawings of a page -/

/-- The first bytes of a picture were uploaded to a rectangle of the texture of a page. -/
def HasSent (p : Page) (calls : List DeviceCall) (r : Rect) (picture : Picture) : Prop :=
  ∃ handle, p.handle = some handle ∧ .upload handle r (picture.bytes.extract 0 r.area) ∈ calls

/-- An entry carries a finished drawing: it has the shape of the drawing, and if there are texels,
they were uploaded to the texture of the page or are pending. -/
structure Carries (p : Page) (calls : List DeviceCall) (e : Placement) (g : Glyph) : Prop where
  width : e.rect.width = g.picture.width
  height : e.rect.height = g.picture.height
  sent : g.picture.data.isSome → 0 < e.rect.area →
    p.HasSent calls e.rect g.picture ∨ ⟨e.rect, g⟩ ∈ p.pending

/-- Every entry carries a finished drawing for its key, and every pending one is carried. -/
structure Accounts (p : Page) (s₀ : FontStack) (calls : List DeviceCall) : Prop where
  entry : ∀ key e, p.entry key = some e → ∃ g, s₀.Draws key g ∧ p.Carries calls e g
  pending : ∀ j ∈ p.pending, ∃ key e, p.entry key = some e ∧ s₀.Draws key j.glyph ∧
    p.Carries calls e j.glyph

theorem HasSent.mono {r : Rect} {picture : Picture} (h : p.HasSent calls r picture)
    (hhandle : ∀ n, p.handle = some n → p'.handle = some n) (hcalls : calls ⊆ calls') :
    p'.HasSent calls' r picture := by
  obtain ⟨n, hn, hcall⟩ := h
  exact ⟨n, hhandle n hn, hcalls hcall⟩

theorem Carries.mono (h : p.Carries calls e g)
    (hhandle : ∀ n, p.handle = some n → p'.handle = some n) (hcalls : calls ⊆ calls')
    (hpending : p.pending ⊆ p'.pending) : p'.Carries calls' e g where
  width := h.width
  height := h.height
  sent hink harea := by
    rcases h.sent hink harea with hsent | hpend
    · exact .inl (hsent.mono hhandle hcalls)
    · exact .inr (hpending hpend)

theorem Accounts.mono_calls (h : p.Accounts s₀ calls) (hcalls : calls ⊆ calls') :
    p.Accounts s₀ calls' where
  entry key e he := by
    obtain ⟨g, hg, hcarries⟩ := h.entry key e he
    exact ⟨g, hg, hcarries.mono (fun _ hn => hn) hcalls fun _ hj => hj⟩
  pending j hj := by
    obtain ⟨key, e, he, hg, hcarries⟩ := h.pending j hj
    exact ⟨key, e, he, hg, hcarries.mono (fun _ hn => hn) hcalls fun _ hj => hj⟩

theorem accounts_empty (id edge baseHeight : Nat) :
    (empty id edge edge baseHeight).Accounts s₀ calls where
  entry key e he := by contradiction
  pending j hj := by contradiction

/-! ### Asking for characters -/

/-- A new entry carries its drawing. -/
theorem carries_withEntry {r : Rect} (p : Page) (s₀ : FontStack) (key : GlyphKey) (g : Glyph)
    (calls : List DeviceCall)
    (hr : (p.shelf.pack g.picture.width g.picture.height).1 = some r) :
    (p.withEntry s₀ key g r).Carries calls (p.placementOf g r)
      (FontStack.package g s₀.scale .empty).1 := by
  obtain ⟨hwidth, hheight, -⟩ := Shelf.spec_of_pack_eq_some hr
  obtain ⟨hw, hh, -⟩ := FontStack.shape_package g s₀.scale .empty
  refine ⟨hwidth.trans hw.symm, hheight.trans hh.symm, fun hink _ => .inr ?_⟩
  have hjob : jobOf? r (FontStack.package g s₀.scale .empty).1 =
      some ⟨r, (FontStack.package g s₀.scale .empty).1⟩ := if_pos hink
  rw [withEntry, hjob]
  exact List.mem_append_right _ List.mem_cons_self

/-- An entry for a new key keeps the account, if its glyph is a drawing for the key. -/
theorem Accounts.withEntry {r : Rect} (h : p.Accounts s₀ calls) (hkey : p.entry key = none)
    (hdraws : s₀.Draws key (FontStack.package g s₀.scale .empty).1)
    (hr : (p.shelf.pack g.picture.width g.picture.height).1 = some r) :
    (p.withEntry s₀ key g r).Accounts s₀ calls := by
  have hnew := carries_withEntry p s₀ key g calls hr
  have hentry := entry_withEntry p s₀ key g r
  -- an old entry stays, and so does what it carries
  have hold : ∀ {k e g'}, p.entry k = some e → p.Carries calls e g' →
      (p.withEntry s₀ key g r).entry k = some e ∧
        (p.withEntry s₀ key g r).Carries calls e g' := by
    intro k e g' hk hcarries
    have hne : k ≠ key := by
      rintro rfl
      rw [hkey] at hk
      contradiction
    refine ⟨by rw [hentry, if_neg hne, hk], ?_⟩
    exact hcarries.mono (fun _ hn => hn) (fun _ hcall => hcall) (List.subset_append_left _ _)
  constructor
  case entry =>
    intro k e hk
    rw [hentry] at hk
    split at hk
    · rename_i heq
      obtain rfl := Option.some.inj hk
      exact ⟨_, heq ▸ hdraws, hnew⟩
    · obtain ⟨g', hg', hcarries⟩ := h.entry k e hk
      exact ⟨g', hg', (hold hk hcarries).2⟩
  case pending =>
    intro j hj
    rcases List.mem_append.mp hj with hj | hj
    · obtain ⟨k, e, hk, hg', hcarries⟩ := h.pending j hj
      obtain ⟨hk', hcarries'⟩ := hold hk hcarries
      exact ⟨k, e, hk', hg', hcarries'⟩
    · have hjob : j.glyph = (FontStack.package g s₀.scale .empty).1 := by
        rw [Option.mem_toList, jobOf?] at hj
        split at hj
        · exact (congrArg Job.glyph (Option.some.inj hj)).symm
        · contradiction
      exact ⟨key, _, by rw [hentry, if_pos rfl], hjob ▸ hdraws, hjob ▸ hnew⟩

/-- A glyph without room changes the packer alone. -/
theorem Accounts.withoutRoom (h : p.Accounts s₀ calls) (g : Glyph) :
    (p.withoutRoom g).Accounts s₀ calls := by
  have hsame : ∀ {e g'}, p.Carries calls e g' → (p.withoutRoom g).Carries calls e g' :=
    fun hcarries => hcarries.mono (fun _ hn => hn) (fun _ hcall => hcall) fun _ hj => hj
  constructor
  case entry =>
    intro k e hk
    obtain ⟨g', hg', hcarries⟩ := h.entry k e hk
    exact ⟨g', hg', hsame hcarries⟩
  case pending =>
    intro j hj
    obtain ⟨k, e, hk, hg', hcarries⟩ := h.pending j hj
    exact ⟨k, e, hk, hg', hsame hcarries⟩

theorem Accounts.place (h : p.Accounts s₀ calls) (hb : b.Upholds s₀)
    (hs : Block.IsSpaced s₀.coverage.blocks) (hsize : size < 0x80000000) (c : Char) :
    (p.place b c size).page.Accounts s₀ calls := by
  have hout := outcome_place hb p c size
  have hdraws := draws_glyph hb hs hsize c
  generalize (b.stack.glyph c size).1 = g at hout hdraws
  generalize p.place b c size = q at hout ⊢
  cases hout with
  | known he hb' => exact h
  | entered he hr hb' => exact h.withEntry he hdraws hr
  | refused he hr hb' => exact h.withoutRoom g

/-- **Asking for a text keeps the account of a page.** -/
theorem Accounts.find (h : p.Accounts s₀ calls) (hb : b.Upholds s₀)
    (hs : Block.IsSpaced s₀.coverage.blocks) (hsize : size < 0x80000000) (text : List Char) :
    (p.find b size text).page.Accounts s₀ calls := by
  induction text generalizing p b with
  | nil => exact h
  | cons c rest ih =>
    obtain ⟨hb', -⟩ := place_spec hb p c size
    exact ih (h.place hb hs hsize c) hb'

/-! ### Uploading -/

/-- After uploading, a page has a texture, and every pending job was uploaded to it. -/
theorem upload_spec (p : Page) (t : Transfer) :
    ∃ handle, (p.upload t).1 = { p with handle := some handle, pending := [] } ∧
      (∀ n, p.handle = some n → n = handle) ∧ t.calls ⊆ (p.upload t).2.calls ∧
      ∀ s ∈ p.pending.filterMap Job.stroke?, .upload handle s.rect s.bytes ∈ (p.upload t).2.calls := by
  have hcalls : t.calls ⊆ (p.ensureHandle t).2.calls := by
    rw [ensureHandle]
    split
    · exact fun _ hcall => hcall
    · exact List.subset_append_left _ _
  have huploads := (foldl_uploadJob (p.ensureHandle t).1 p.pending (p.ensureHandle t).2).1
  have hsame : (p.upload t).2.calls = (p.ensureHandle t).2.calls ++
    uploads (p.ensureHandle t).1 (p.pending.filterMap Job.stroke?) := huploads
  refine ⟨(p.ensureHandle t).1, rfl, fun n hn => ?_, fun call hcall => ?_, fun s hs => ?_⟩
  · rw [ensureHandle, hn]
  · rw [hsame]
    exact List.mem_append_left _ (hcalls hcall)
  · rw [hsame]
    exact List.mem_append_right _ (List.mem_map_of_mem hs)

variable {t : Transfer}

/-- **Uploading a page sends what its entries carry.** -/
theorem Carries.upload (h : p.Carries (calls ++ t.calls) e g) (hg : s₀.Draws key g)
    (hs : s₀.IsSound) (hink : g.picture.data.isSome) (harea : 0 < e.rect.area) :
    (p.upload t).1.HasSent (calls ++ (p.upload t).2.calls) e.rect g.picture := by
  obtain ⟨handle, hpage, hhandle, hcalls, hjobs⟩ := p.upload_spec t
  rw [hpage]
  rcases h.sent hink harea with ⟨n, hn, hcall⟩ | hpend
  · refine ⟨handle, rfl, ?_⟩
    rw [← hhandle n hn]
    rcases List.mem_append.mp hcall with hcall | hcall
    · exact List.mem_append_left _ hcall
    · exact List.mem_append_right _ (hcalls hcall)
  · have hbytes : e.rect.area ≤ g.picture.bytes.size := by
      rw [Rect.area, h.width, h.height]
      exact hg.area_le hs hink
    have hstroke : Job.stroke? ⟨e.rect, g⟩ =
        some ⟨e.rect, g.picture.bytes.extract 0 e.rect.area⟩ := if_pos ⟨harea, hbytes⟩
    have hmem := hjobs _ (List.mem_filterMap.mpr ⟨_, hpend, hstroke⟩)
    exact ⟨handle, rfl, List.mem_append_right _ hmem⟩

theorem Accounts.upload (h : p.Accounts s₀ (calls ++ t.calls)) (hs : s₀.IsSound) :
    (p.upload t).1.Accounts s₀ (calls ++ (p.upload t).2.calls) where
  entry key e he := by
    obtain ⟨g, hg, hcarries⟩ := h.entry key e he
    exact ⟨g, hg, hcarries.width, hcarries.height,
      fun hink harea => .inl (hcarries.upload hg hs hink harea)⟩
  pending j hj := by contradiction

end Page

/-! ### All pages -/

namespace Atlas

variable {a a' : Atlas} {s₀ stack : FontStack} {calls calls' : List DeviceCall} {p p' : Page}
  {picture : Picture} {id : Nat}

/-- A picture was uploaded to the texture of some page, which has an entry in its shape there. A
picture without texels needs no texture. -/
def HasUploaded (a : Atlas) (calls : List DeviceCall) (picture : Picture) : Prop :=
  picture.data.isSome → 0 < picture.width * picture.height → ∃ id p key e,
    a.page? id = some p ∧ p.entry key = some e ∧ e.rect.width = picture.width ∧
      e.rect.height = picture.height ∧ p.HasSent calls e.rect picture

/-- Every page is accounted for, and every drawing that is recorded was uploaded. -/
structure Accounts (a : Atlas) (s₀ stack : FontStack) (calls : List DeviceCall) : Prop where
  page : ∀ id p, a.page? id = some p → p.Accounts s₀ calls
  ready : ∀ i key, stack.isReady i key = true →
    ∃ k g, s₀.Draws k g ∧ g.font = i ∧ g.key = key ∧ a.HasUploaded calls g.picture

/-- Every page of one atlas is in another one, where it has its entries and the texture that it has
already. -/
def Retains (a a' : Atlas) : Prop :=
  ∀ id p, a.page? id = some p → ∃ p', a'.page? id = some p' ∧
    (∀ key e, p.entry key = some e → p'.entry key = some e) ∧
      ∀ n, p.handle = some n → p'.handle = some n

theorem Retains.refl (a : Atlas) : a.Retains a :=
  fun _ p hp => ⟨p, hp, fun _ _ he => he, fun _ hn => hn⟩

/-- Uploading a page takes nothing from it. -/
theorem retains_upload (hp : a.page? id = some p) (t : Page.Transfer) :
    a.Retains (a.setPage id (p.upload t).1) := by
  obtain ⟨handle, hpage, hhandle, -, -⟩ := p.upload_spec t
  intro j q hq
  rw [page?_setPage hp]
  split
  · rename_i hj
    rw [hj, hp] at hq
    obtain rfl := Option.some.inj hq
    refine ⟨_, rfl, fun key e he => ?_, fun n hn => ?_⟩
    · rw [hpage]
      exact he
    · rw [hpage, hhandle n hn]
  · exact ⟨q, hq, fun _ _ he => he, fun _ hn => hn⟩

/-- Serving a request takes nothing from the page that it is served from, if this page grows. -/
theorem Serves.retains {text : List Char} {size : Int} {i : Nat}
    (hs : a.Serves s₀ text size i p a') (hgrows : (a.pageAt s₀ i).Grows p) : a.Retains a' := by
  intro j q hq
  rw [hs.page]
  split
  · rename_i hj
    subst hj
    rw [pageAt_of_page? hq] at hgrows
    exact ⟨_, rfl, hgrows.entry, fun n hn => hgrows.handle.trans hn⟩
  · exact ⟨q, hq, fun _ _ he => he, fun _ hn => hn⟩

theorem hasUploaded_of_data_eq_none (h : picture.data = none) : a.HasUploaded calls picture := by
  intro hink
  rw [h] at hink
  contradiction

/-- What was uploaded stays uploaded while pages keep their entries and their textures. -/
theorem HasUploaded.mono (h : a.HasUploaded calls picture)
    (hpages : a.Retains a') (hcalls : calls ⊆ calls') : a'.HasUploaded calls' picture := by
  intro hink harea
  obtain ⟨id, p, key, e, hp, he, hwidth, hheight, hsent⟩ := h hink harea
  obtain ⟨p', hp', hentry, hhandle⟩ := hpages id p hp
  exact ⟨id, p', key, e, hp', hentry key e he, hwidth, hheight, hsent.mono hhandle hcalls⟩

/-- What was recorded as ready is accounted for by every atlas that retains the pages. -/
theorem Accounts.ready_mono (h : a.Accounts s₀ stack calls) (hpages : a.Retains a')
    (hcalls : calls ⊆ calls') {i : Nat} {key : GlyphKey} (hready : stack.isReady i key = true) :
    ∃ k g, s₀.Draws k g ∧ g.font = i ∧ g.key = key ∧ a'.HasUploaded calls' g.picture := by
  obtain ⟨k, g, hg, hfont, hkey, huploaded⟩ := h.ready i key hready
  exact ⟨k, g, hg, hfont, hkey, huploaded.mono hpages hcalls⟩

theorem Accounts.mono_calls (h : a.Accounts s₀ stack calls) (hcalls : calls ⊆ calls') :
    a.Accounts s₀ stack calls' where
  page id p hp := (h.page id p hp).mono_calls hcalls
  ready _ _ hready := h.ready_mono (Retains.refl a) hcalls hready

/-- Uploading one page keeps the account. -/
theorem Accounts.upload {t : Page.Transfer} (h : a.Accounts s₀ t.stack (calls ++ t.calls))
    (hs : s₀.IsSound) (hp : a.page? id = some p) :
    (a.setPage id (p.upload t).1).Accounts s₀ (p.upload t).2.stack
      (calls ++ (p.upload t).2.calls) := by
  obtain ⟨handle, hpage, -, hcalls, -⟩ := p.upload_spec t
  have hcalls' : calls ++ t.calls ⊆ calls ++ (p.upload t).2.calls :=
    List.append_subset.mpr ⟨List.subset_append_left _ _,
      fun _ hcall => List.mem_append_right _ (hcalls hcall)⟩
  constructor
  case page =>
    intro j q hq
    rw [page?_setPage hp] at hq
    split at hq
    · obtain rfl := Option.some.inj hq
      exact (h.page id p hp).upload hs
    · exact (h.page j q hq).mono_calls hcalls'
  case ready =>
    intro i key hready
    rcases (p.isReady_upload t).mp hready with hold | ⟨-, j, hj, hfont, hkey⟩
    · exact h.ready_mono (retains_upload hp t) hcalls' hold
    · -- what was pending was uploaded to this page
      obtain ⟨k, e, he, hg, hcarries⟩ := (h.page id p hp).pending j hj
      refine ⟨k, j.glyph, hg, hfont, hkey, fun hink harea => ?_⟩
      have harea : 0 < e.rect.area := by rwa [Rect.area, hcarries.width, hcarries.height]
      have hnew : (a.setPage id (p.upload t).1).page? id = some (p.upload t).1 := by
        rw [page?_setPage hp, if_pos rfl]
      have hentry : (p.upload t).1.entry k = some e := by
        rw [hpage]
        exact he
      exact ⟨id, _, k, e, hnew, hentry, hcarries.width, hcarries.height,
        hcarries.upload hg hs hink harea⟩

theorem Accounts.uploadPages {t : Page.Transfer} (h : a.Accounts s₀ t.stack (calls ++ t.calls))
    (hs : s₀.IsSound) (ids : List Nat) :
    (a.uploadPages t ids).1.Accounts s₀ (a.uploadPages t ids).2.stack
      (calls ++ (a.uploadPages t ids).2.calls) := by
  induction ids generalizing a t with
  | nil => exact h
  | cons id rest ih =>
    rw [Atlas.uploadPages]
    cases hp : a.page? id with
    | none => exact ih h
    | some p => exact ih (h.upload hs hp)

/-- **A request keeps the account.** -/
theorem Accounts.lookup (h : a.Accounts s₀ a.bench.stack calls) (ho : a.Orderly s₀)
    (hs : Block.IsSpaced s₀.coverage.blocks) {size : Int} (hsize : size < 0x80000000)
    (lines : List (List Char)) :
    (a.lookup lines size).2.Accounts s₀ (a.lookup lines size).2.bench.stack calls := by
  obtain ⟨b, hb, hserves, -, -, hstack, hbench⟩ := lookup_spec ho lines size
  generalize (a.choiceFor lines.flatten size).index = i at *
  have hat : (a.pageAt s₀ i).Accounts s₀ calls := by
    rw [pageAt]
    cases hp : a.page? i with
    | none => exact Page.accounts_empty _ _ _
    | some p => exact h.page i p hp
  obtain ⟨-, hgrows, -, -⟩ := Page.find_spec hb (a.pageAt s₀ i) size lines.flatten
  constructor
  case page =>
    intro j q hq
    rw [hserves.page] at hq
    split at hq
    · obtain rfl := Option.some.inj hq
      exact hat.find hb hs hsize lines.flatten
    · exact h.page j q hq
  case ready =>
    intro i' key hready
    rw [hbench] at hready
    rcases Page.isReady_find hb hs hsize _ _ hready with hold | ⟨k, g, hg, hfont, hkey, hink⟩
    · exact h.ready_mono (hserves.retains hgrows) (fun _ hcall => hcall) (hstack ▸ hold)
    · exact ⟨k, g, hg, hfont, hkey, hasUploaded_of_data_eq_none hink⟩

/-- **An update keeps the account.** -/
theorem Accounts.update (h : a.Accounts s₀ a.bench.stack calls) (ho : a.Orderly s₀)
    (d : Device) (sync : Bool) (elapsed : Nat) :
    (a.update d sync elapsed).atlas.Accounts s₀ (a.update d sync elapsed).atlas.bench.stack
      (calls ++ (a.update d sync elapsed).calls) := by
  rw [ho.update_eq]
  split
  · exact h.mono_calls (List.subset_append_left _ _)
  · have hstart : { a with quiet := true }.Accounts s₀ a.bench.stack (calls ++ []) := by
      rw [List.append_nil]
      exact ⟨h.page, h.ready⟩
    have hdone := hstart.uploadPages (t := ⟨[], d, a.bench.stack⟩) ho.bench.sound_bare
      (List.range a.pages.length)
    have hflush := hdone.mono_calls (List.subset_append_left _ [.flush])
    rw [List.append_assoc] at hflush
    exact ⟨hflush.page, hflush.ready⟩

/-- **What is ready was uploaded.** If the font of a character calls it ready, then what this font
draws of it was uploaded. -/
theorem Accounts.hasUploaded (h : a.Accounts s₀ stack calls) (hown : s₀.HasOwnPlaceholder)
    (htidy : s₀.pool.IsTidy) {c : Char} {size : Int} {i : Nat}
    (hfont : s₀.fontForStateless c = some i) (hready : stack.isReady i ⟨c.toNat, size⟩ = true) :
    a.HasUploaded calls (s₀.finishedAs (some i) c size).picture := by
  obtain ⟨k, g, hg, rfl, hkey, huploaded⟩ := h.ready i _ hready
  exact hg.picture_eq hown htidy hfont hkey ▸ huploaded

end Atlas

/-! ### Every session -/

namespace Session

/-- The size of a request is a signed number of thirty-two bits. Only the upper end matters. -/
def Act.IsSized : Act → Prop
  | .request _ size => size < 0x80000000
  | .update _ _ => True

/-- Nothing is recorded at the start. -/
theorem accounts_start (settings : Settings) (opener : Opener) (config : AtlasSettings) :
    let stack := (FontStack.build settings opener).1
    (start config stack).atlas.Accounts stack.bare stack [] := by
  intro stack
  constructor
  case page =>
    intro id p hp
    contradiction
  case ready =>
    intro i key h
    rw [FontStack.isReady_build] at h
    contradiction

theorem accounts_performAll {s : Session} {s₀ : FontStack}
    (h : s.atlas.Accounts s₀ s.atlas.bench.stack s.calls) (ho : s.atlas.Orderly s₀)
    (hs : Block.IsSpaced s₀.coverage.blocks) {acts : List Act} (hacts : ∀ act ∈ acts, act.IsSized) :
    (s.performAll acts).atlas.Accounts s₀ (s.performAll acts).atlas.bench.stack
      (s.performAll acts).calls := by
  induction acts generalizing s with
  | nil => exact h
  | cons act acts ih =>
    obtain ⟨hact, hrest⟩ := List.forall_mem_cons.mp hacts
    refine ih ?_ (orderly_perform ho act) hrest
    cases act with
    | request lines size => exact h.lookup ho hs hact lines
    | update sync elapsed => exact h.update ho s.device sync elapsed

/-- **What is ready after a request was uploaded, if not where the request is served from.** In
every session, whatever fonts could be opened and whatever the blocks are: if a text is ready right
after it was asked for, then each of its characters has a font, and what this font draws of it was
uploaded to the texture of some page. If the page that the request is served from has an entry for
the character, then the region returned is this entry and carries the same drawing, whose texels
were uploaded to the texture of the page or are pending. -/
theorem uploaded_of_areReady (settings : Settings) (opener : Opener) (config : AtlasSettings)
    (acts : List Act) (hacts : ∀ act ∈ acts, act.IsSized) (text : List Char) (size : Int)
    (hsize : size < 0x80000000) :
    let stack := (FontStack.build settings opener).1
    let s := (start config stack).performAll acts
    let r := s.atlas.regions text size
    r.2.areReady text size = true →
      r.1.length = text.length ∧
        ∀ (n : Nat) (c : Char) (region : Region), text[n]? = some c → r.1[n]? = some region →
          ∃ i p, r.2.bench.stack.fontForStateless c = some i ∧ r.2.page? region.page = some p ∧
            r.2.HasUploaded s.calls (stack.finishedAs (some i) c size).picture ∧
            ∀ e, p.entry ⟨c.toNat, size⟩ = some e →
              region.placement = e ∧ p.Carries s.calls e (stack.finishedAs (some i) c size) := by
  intro stack s r hready
  have hsound : stack.IsSound := FontStack.isSound_build settings opener
  have hstart := Atlas.orderly_ofStack config hsound
  have hspaced : Block.IsSpaced stack.bare.coverage.blocks :=
    FontStack.isSpaced_build settings opener
  have horderly : s.atlas.Orderly stack.bare := orderly_performAll hstart acts
  have haccounts : r.2.Accounts stack.bare r.2.bench.stack s.calls :=
    (accounts_performAll (accounts_start settings opener config) hstart hspaced hacts).lookup
      horderly hspaced hsize [text]
  obtain ⟨b, hb, hserves, hregions⟩ := Atlas.regions_spec horderly text size
  obtain ⟨-, -, -, hplacements⟩ :=
    Page.find_spec hb (s.atlas.pageAt stack.bare (s.atlas.choiceFor text size).index) size text
  have hpage := hserves.page (s.atlas.choiceFor text size).index
  rw [if_pos rfl] at hpage
  rw [hplacements, List.map_map] at hregions
  refine ⟨by rw [hregions, List.length_map], fun n c region hc hregion => ?_⟩
  -- the character is ready, so it has a font
  have hc' := List.all_eq_true.mp hready c (List.mem_of_getElem? hc)
  obtain ⟨i, hfont, hi⟩ := (Option.any_eq_true _ _).mp hc'
  have hfont' : stack.bare.fontForStateless c = some i := by
    rw [← hserves.bench.bare, FontStack.fontForStateless_bare, hfont]
  have hfinished := FontStack.finishedAs_bare hsound.tidy (some i) c size
  have huploaded := haccounts.hasUploaded (FontStack.hasOwnPlaceholder_build settings opener)
    hsound.bare.tidy hfont' hi
  -- its region is what the page shows for it
  rw [hregions, List.getElem?_map, hc] at hregion
  obtain rfl := Option.some.inj hregion
  refine ⟨i, _, hfont, hpage, hfinished ▸ huploaded, fun e he => ?_⟩
  obtain ⟨g, hdraws, hcarries⟩ := (haccounts.page _ _ hpage).entry _ e he
  rw [hdraws.eq_finishedAs hfont', hfinished] at hcarries
  refine ⟨?_, hcarries⟩
  change Page.shown _ _ _ _ = _
  rw [Page.shown, he, Option.getD_some]

/-- A text of the first letters of two earlier texts is served from a page of its own. The first
letter was uploaded, and the entry on this page carries the same drawing. -/
theorem uploaded_of_overlap :
    let r := overlap.atlas.regions ['A', 'C'] 1
    (∀ act ∈ overlapActs, act.IsSized) ∧ (1 : Int) < 0x80000000 ∧
      r.2.areReady ['A', 'C'] 1 = true ∧ r.1.length = 2 ∧
      r.2.HasUploaded overlap.calls (spots.finishedAs (some 0) 'A' 1).picture ∧
      ∃ p e, r.2.page? 3 = some p ∧ r.1[0]? = some ⟨3, e⟩ ∧
        p.Carries overlap.calls e (spots.finishedAs (some 0) 'A' 1) := by
  intro r
  obtain ⟨h, hready, -, -, p, e, hp, hspills, hregion⟩ := request_overlap
  have hacts : ∀ act ∈ overlapActs, act.IsSized := by simp [overlapActs, Act.IsSized]
  obtain ⟨hlength, hall⟩ := uploaded_of_areReady spotSettings FontData.openAny spotAtlas
    overlapActs hacts ['A', 'C'] 1 (by decide) hready
  obtain ⟨i, q, hfont, hq, huploaded, hcarries⟩ := hall 0 'A' _ rfl hregion
  obtain rfl := Option.some.inj (hp.symm.trans hq)
  have hletter : r.2.bench.stack.fontForStateless 'A' = some 0 := by
    rw [← FontStack.fontForStateless_bare, h.orderly.bench.bare, FontStack.fontForStateless_bare,
      fontForStateless_spots (by decide)]
  obtain rfl := Option.some.inj (hletter.symm.trans hfont)
  exact ⟨hacts, by decide, hready, hlength, huploaded, p, e, hp, hregion,
    (hcarries e hspills.entry_self).2⟩

/-- **The texture of a region that is ready may not even have been made.** When the text is asked
for once, its first region is an entry whose texels are pending. When it is asked for again, it is
served from the page that had no room for its letters, and its first region is the placeholder,
whose texels are pending as well. -/
theorem pending_of_areReady :
    let r := overlap.atlas.regions ['A', 'C'] 1
    let r' := r.2.regions ['A', 'C'] 1
    (r.2.areReady ['A', 'C'] 1 = true ∧ ∃ region p, r.1[0]? = some region ∧
        r.2.page? region.page = some p ∧ p.entry ⟨'A'.toNat, 1⟩ = some region.placement ∧
        p.handle = none ∧ 0 < region.placement.rect.area ∧
        region.placement.rect ∈ p.pending.map Job.rect) ∧
      r'.2.areReady ['A', 'C'] 1 = true ∧ ∃ region p, r'.1[0]? = some region ∧
        r'.2.page? region.page = some p ∧ p.entry ⟨'A'.toNat, 1⟩ = none ∧
        p.handle = none ∧ 0 < region.placement.rect.area ∧
        region.placement.rect ∈ p.pending.map Job.rect := by
  intro r r'
  obtain ⟨h, hready, hletters, ⟨p₂, e₂, hp₂, hspills₂⟩, p₃, e₃, hp₃, hspills₃, hregion⟩ :=
    request_overlap
  -- what a page spills is pending
  have hpending : ∀ {p : Page} {x : Char} {e : Placement}, p.Spills spots.bare 1 x e →
      e.rect ∈ p.pending.map Job.rect := by
    intro p x e hspills
    obtain ⟨font, -, hjobs⟩ := hspills.drawn
    rw [hjobs]
    exact List.mem_cons_self
  refine ⟨⟨hready, ⟨3, e₃⟩, p₃, hregion, hp₃, hspills₃.entry_self, hspills₃.handle, hspills₃.area,
    hpending hspills₃⟩, ?_, ⟨2, e₂⟩, p₂, ?_, ?_, hspills₂.entry_of_ne (by decide),
    hspills₂.handle, hspills₂.area, hpending hspills₂⟩
  · obtain ⟨b, -, hserves, -⟩ := Atlas.lookup_spec h.orderly [['A', 'C']] 1
    exact areReady_spots (hserves.orderly h.orderly) fun c hc =>
      Atlas.isReady_lookup_of_isReady h.orderly [['A', 'C']] 1 (hletters c hc)
  all_goals
    obtain ⟨hsame, hregions⟩ := h.request_sealed (by decide : 2 + 1 < 4) rfl
      (fun c (hc : c ∈ ['A', 'C']) => List.mem_cons_of_mem '\t' hc)
      (fun i t hi ht => not_forall_mem_overlap hi ht) hp₂
  · -- the placeholder is recorded as the tabulator
    have hstandIn : p₂.shown spots.bare 1 'A' = e₂ := by
      have hkey : (spots.bare.placeholder 1).1.key = ⟨'\t'.toNat, 1⟩ := rfl
      rw [Page.shown, hspills₂.entry_of_ne (by decide), Option.getD_none, Page.standIn, hkey,
        hspills₂.entry_self, Option.getD_some]
    rw [hregions, ← hstandIn]
    rfl
  · exact hsame

end Session

end Typecase
