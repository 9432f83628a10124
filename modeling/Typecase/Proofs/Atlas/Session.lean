import Typecase.Proofs.Atlas.Serving

/-!
# Sessions

A `Session` is an atlas that packages in place, together with the device that it draws on and the
calls made to the device so far. `Session.Act` lists what its owner can do without giving it up:
requests of one or more lines, and updates of the device. In every session that starts from a
font stack that was just built, the atlas stays orderly (`orderly_performAll`).
-/

namespace Typecase

/-- An atlas, the device that it draws on, and the calls made to the device so far. -/
structure Session where
  atlas : Atlas
  device : Device
  calls : List DeviceCall

namespace Session

/-- Something done to an atlas. A request of a single text is one of a single line. -/
inductive Act where
  | request (lines : List (List Char)) (size : Int)
  | update (sync : Bool) (elapsed : Nat)
  deriving DecidableEq, Repr

/-- A new atlas that packages in place, and a device without textures. -/
def start (settings : AtlasSettings) (stack : FontStack) : Session :=
  ⟨.ofStack settings stack .immediate, .empty, []⟩

/-- The session after an act. -/
def perform (s : Session) : Act → Session
  | .request lines size => { s with atlas := (s.atlas.lookup lines size).2 }
  | .update sync elapsed =>
    let u := s.atlas.update s.device sync elapsed
    ⟨u.atlas, u.device, s.calls ++ u.calls⟩

/-- The session after acts carried out in order. -/
def performAll (s : Session) (acts : List Act) : Session := acts.foldl perform s

end Session

/-! ### What uploading leaves alone -/

namespace Page

/-- Uploading changes the free buffers of the font stack, and the drawings that are ready. -/
theorem stack_upload (p : Page) (t : Transfer) (h : t.stack.IsSound) :
    (p.upload t).2.stack.IsSound ∧ (p.upload t).2.stack.bare = t.stack.bare ∧
      (p.upload t).2.stack.coverage = t.stack.coverage := by
  -- the texture is made first, and then job after job is uploaded
  have hjobs : ∀ (handle : Nat) (jobs : List Job) (t : Transfer), t.stack.IsSound →
      (jobs.foldl (uploadJob handle) t).stack.IsSound ∧
        (jobs.foldl (uploadJob handle) t).stack.bare = t.stack.bare ∧
        (jobs.foldl (uploadJob handle) t).stack.coverage = t.stack.coverage := by
    intro handle jobs
    induction jobs with
    | nil => exact fun t ht => ⟨ht, rfl, rfl⟩
    | cons j jobs ih =>
      intro t ht
      have hstack : (uploadJob handle t j).stack = (t.stack.markReady j.glyph).discard j.glyph := by
        rw [uploadJob]
        split <;> rfl
      have hsound : (uploadJob handle t j).stack.IsSound :=
        hstack ▸ (ht.markReady j.glyph).discard j.glyph
      obtain ⟨hs, hb, hc⟩ := ih _ hsound
      refine ⟨hs, hb.trans ?_, hc.trans ?_⟩
      · rw [hstack, FontStack.bare_discard, FontStack.bare_markReady]
      · rw [hstack]
        rfl
  have hensure : (p.ensureHandle t).2.stack = t.stack := by
    rw [ensureHandle]
    split <;> rfl
  have := hjobs (p.ensureHandle t).1 p.pending (p.ensureHandle t).2 (hensure ▸ h)
  rwa [hensure] at this

end Page

namespace Atlas

variable {a : Atlas} {s₀ : FontStack}

/-- The atlas and the transfer of `r` come from `a` and `t` by uploading: only pages change, and not
their entries, and the font stack keeps everything but free buffers and the drawings that are
ready. -/
structure Uploads (a : Atlas) (t : Page.Transfer) (r : Atlas × Page.Transfer) : Prop where
  frame : r.1 = { a with pages := r.1.pages }
  count : r.1.pages.length = a.pages.length
  index : ∀ i, (r.1.page? i).map Page.index = (a.page? i).map Page.index
  sound : r.2.stack.IsSound
  bare : r.2.stack.bare = t.stack.bare
  coverage : r.2.stack.coverage = t.stack.coverage

theorem uploads_uploadPages (a : Atlas) (t : Page.Transfer) (ids : List Nat)
    (h : t.stack.IsSound) : a.Uploads t (a.uploadPages t ids) := by
  induction ids generalizing a t with
  | nil => exact ⟨rfl, rfl, fun _ => rfl, h, rfl, rfl⟩
  | cons id rest ih =>
    rw [uploadPages]
    cases hp : a.page? id with
    | none => exact ih a t h
    | some p =>
      obtain ⟨hsound, hbare, hcoverage⟩ := p.stack_upload t h
      have hrest := ih (a.setPage id (p.upload t).1) (p.upload t).2 hsound
      refine ⟨hrest.frame, hrest.count.trans (List.length_set ..), fun i => ?_, hrest.sound,
        hrest.bare.trans hbare, hrest.coverage.trans hcoverage⟩
      refine (hrest.index i).trans ?_
      rw [page?_setPage hp]
      split
      · rename_i hi
        rw [hi, hp]
        rfl
      · rfl

/-- What an update does to an orderly atlas: nothing when it is quiet; otherwise it uploads what
is pending, page by page. -/
theorem Orderly.update_eq (h : a.Orderly s₀) (d : Device) (sync : Bool) (elapsed : Nat) :
    a.update d sync elapsed =
      if a.quiet then ⟨!sync && elapsed < a.settings.timeout, [], a, d⟩
      else
        let r := { a with quiet := true }.uploadPages ⟨[], d, a.bench.stack⟩
          (List.range a.pages.length)
        ⟨true, r.2.calls ++ [.flush],
          { r.1 with bench := { r.1.bench with stack := r.2.stack } }, r.2.device⟩ := by
  have hgate : a.gate = (a.quiet, { a with quiet := true }) := by
    rw [gate, isPackaging, h.bench.immediate]
    rfl
  rw [update, hgate]
  cases hq : a.quiet with
  | true =>
    have ha : { a with quiet := true } = a := by rw [← hq]
    simp only [↓reduceIte, ha]
  | false =>
    have hr := h.live
    have hl := h.listed
    simp only [Bool.false_eq_true, ↓reduceIte, hr, hl]

/-- An atlas stays orderly when it brings its device up to date. -/
theorem Orderly.update (h : a.Orderly s₀) (d : Device) (sync : Bool) (elapsed : Nat) :
    (a.update d sync elapsed).atlas.Orderly s₀ := by
  rw [h.update_eq]
  split
  · exact h
  · have hr := uploads_uploadPages { a with quiet := true } ⟨[], d, a.bench.stack⟩
      (List.range a.pages.length) h.bench.sound
    generalize { a with quiet := true }.uploadPages _ _ = r at *
    have hcount : r.1.pages.length = a.pages.length := hr.count
    have hbench : r.1.bench = a.bench := by rw [hr.frame]
    dsimp only
    exact {
      bench := by
        rw [hbench]
        exact h.bench.withStack hr.sound hr.bare
      live := by
        rw [hr.frame]
        exact h.live
      listed := by
        rw [hr.frame]
        exact h.listed.trans (by rw [hcount])
      groups := by
        rw [hr.frame]
        exact h.groups.trans hcount.symm
      texture := by
        rw [hr.frame]
        exact h.texture }

/-- A new atlas is orderly. -/
theorem orderly_ofStack (settings : AtlasSettings) {stack : FontStack} (h : stack.IsSound) :
    (ofStack settings stack .immediate).Orderly stack.bare where
  bench := ⟨rfl, h, rfl, rfl⟩
  live := rfl
  listed := rfl
  groups := rfl
  texture i g hg := by simp [ofStack, GlyphGroups.empty] at hg

end Atlas

namespace Session

theorem orderly_perform {s : Session} {s₀ : FontStack} (h : s.atlas.Orderly s₀) (act : Act) :
    (s.perform act).atlas.Orderly s₀ := by
  cases act with
  | request lines size =>
    obtain ⟨b, hb, hserves, -, -⟩ := Atlas.lookup_spec h lines size
    exact hserves.orderly h
  | update sync elapsed => exact h.update s.device sync elapsed

/-- **Every session keeps its atlas orderly.** -/
theorem orderly_performAll {s : Session} {s₀ : FontStack} (h : s.atlas.Orderly s₀)
    (acts : List Act) : (s.performAll acts).atlas.Orderly s₀ := by
  induction acts generalizing s with
  | nil => exact h
  | cons act acts ih => exact ih (orderly_perform h act)

end Session

end Typecase
