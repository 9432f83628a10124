import Typecase.Proofs.Atlas.Interleaving

/-!
# No glyph is stranded

An update is passed over when packaging is idle and nothing was asked for since the last one. That
is safe because then nothing is left to upload, however the steps of the owner and of the worker
are interleaved (`isSynced_of_passed_over`): no job is queued or under way, no page has a packaged
glyph left to upload, and every page has its texture.

* **The worker** is busy exactly while it holds a batch (`Queue.IsSteady`). So when packaging is
  idle, the worker waits for jobs that are not there, and cannot take a step
  (`Bench.step?_of_isSuspended`).
* **The flag.** `Call.Guards` says what the flag `quiet` promises at every point of a call: that the
  atlas is synced, unless the line under way has asked for something new, or pages are still to be
  uploaded. In the meantime the promise is suspended, and at the end it is either kept again or
  withdrawn with the flag.
* **Every move** keeps the promise (`Running.IsGated.move`).
-/

namespace Typecase

/-! ### The worker -/

namespace Queue

variable {ℓ : Type} {q : Queue ℓ} {scale : Nat} {pool : Pool}

/-- Packaging was not cancelled, the worker has not ended, and it is busy while it holds a batch. -/
structure IsSteady (q : Queue ℓ) : Prop where
  going : q.cancelled = false
  alive : q.worker ≠ .ended
  busy : q.busy = true ↔ q.worker ≠ .waiting

/-- No job is queued, and the worker is waiting. -/
structure IsAtRest (q : Queue ℓ) : Prop where
  tickets : q.tickets = []
  worker : q.worker = .waiting
  busy : q.busy = false

theorem isSteady_empty : (empty : Queue ℓ).IsSteady := ⟨rfl, by simp [empty], by simp [empty]⟩

/-- What can be seen from outside tells whether the worker is at rest. -/
theorem IsSteady.isAtRest (h : q.IsSteady) (hs : q.isSuspended = true) : q.IsAtRest := by
  obtain ⟨htickets, hbusy⟩ := Bool.and_eq_true_iff.mp hs
  have hbusy : q.busy = false := by simpa using hbusy
  refine ⟨List.isEmpty_iff.mp htickets, Classical.byContradiction fun hworker => ?_, hbusy⟩
  rw [h.busy.mpr hworker] at hbusy
  contradiction

theorem IsSteady.schedule? {q' : Queue ℓ} {t : Ticket ℓ} (h : q.IsSteady)
    (hq : q.schedule? t = some q') : q'.IsSteady := by
  obtain ⟨hgoing, halive, hbusy⟩ := h
  rw [Queue.schedule?, if_neg (by simp [hgoing])] at hq
  obtain rfl := Option.some.inj hq
  exact ⟨hgoing, halive, hbusy⟩

variable [DecidableEq ℓ]

/-- At rest, the worker waits until a job is queued. -/
theorem IsSteady.step?_of_isSuspended (h : q.IsSteady) (hs : q.isSuspended = true) :
    q.step? scale pool = none := by
  obtain ⟨htickets, hworker, -⟩ := h.isAtRest hs
  rw [step?, hworker]
  simp [h.going, htickets]

theorem IsSteady.step? {r : Progress ℓ} (h : q.IsSteady) (hr : q.step? scale pool = some r) :
    r.queue.IsSteady := by
  obtain ⟨tickets, worker, busy, cancelled⟩ := q
  obtain ⟨hgoing, halive, hbusy⟩ := h
  cases worker with
  | ended => contradiction
  | waiting =>
    obtain rfl : cancelled = false := hgoing
    simp only [Queue.step?, Bool.false_eq_true, ↓reduceIte] at hr
    split at hr
    · contradiction
    · obtain rfl := Option.some.inj hr
      exact ⟨rfl, by simp, by simp⟩
  | holding batch =>
    cases batch with
    | nil =>
      obtain rfl := Option.some.inj hr
      exact ⟨hgoing, by simp, by simp⟩
    | cons t rest =>
      obtain rfl := Option.some.inj hr
      have hbusy : busy = true := hbusy.mpr (by simp)
      exact ⟨hgoing, by simp, by simp [hbusy]⟩

end Queue

namespace Packager

/-- A worker is steady. There is nothing to say about packaging in place. -/
def IsSteady : Packager Nat → Prop
  | .immediate => True
  | .threaded q => q.IsSteady

/-- A worker is at rest. -/
def IsAtRest : Packager Nat → Prop
  | .immediate => True
  | .threaded q => q.IsAtRest

theorem IsSteady.isAtRest {k : Packager Nat} (h : k.IsSteady) (hs : k.isSuspended = true) :
    k.IsAtRest := by
  cases k with
  | immediate => trivial
  | threaded q => exact Queue.IsSteady.isAtRest h hs

end Packager

namespace Bench

variable {b : Bench Nat}

theorem steady_schedule (h : b.packager.IsSteady) (t : Ticket Nat) :
    (b.schedule t).2.packager.IsSteady := by
  obtain ⟨stack, packager, scale, journal⟩ := b
  cases packager with
  | immediate => trivial
  | threaded q =>
    have hq : q.IsSteady := h
    rw [schedule]
    dsimp only
    cases hs : q.schedule? t with
    | some q' => exact hq.schedule? hs
    | none => exact hq

/-- The worker takes no step when packaging is idle. -/
theorem step?_of_isSuspended (h : b.packager.IsSteady) (hs : b.packager.isSuspended = true) :
    b.step? = none := by
  obtain ⟨stack, packager, scale, journal⟩ := b
  cases packager with
  | immediate => rfl
  | threaded q =>
    have hq : q.IsSteady := h
    exact Option.map_eq_none_iff.mpr (hq.step?_of_isSuspended hs)

theorem steady_step? (h : b.packager.IsSteady) {r : Option (Delivery Nat) × Bench Nat}
    (hr : b.step? = some r) : r.2.packager.IsSteady := by
  obtain ⟨stack, packager, scale, journal⟩ := b
  cases packager with
  | immediate => contradiction
  | threaded q =>
    have hq : q.IsSteady := h
    obtain ⟨progress, hprogress, rfl⟩ := Option.map_eq_some_iff.mp hr
    exact hq.step? hprogress

end Bench

/-! ### One character -/

namespace Page

/-- The texture exists, and nothing is left to upload. -/
def IsDrained (p : Page) : Prop := p.pending = [] ∧ p.handle.isSome = true

theorem isDrained_upload (p : Page) (t : Transfer) : (p.upload t).1.IsDrained := ⟨rfl, rfl⟩

theorem packager_substitute (p : Page) (b : Bench Nat) (size : Int) :
    (p.substitute b size).2.packager = b.packager := rfl

theorem packager_noteUnpacked (p : Page) (b : Bench Nat) (code : Nat) (g : Glyph) :
    (p.noteUnpacked b code g).packager = b.packager := by
  rw [noteUnpacked]
  split <;> rfl

theorem steady_enter {b : Bench Nat} (h : b.packager.IsSteady) (p : Page) (key : GlyphKey)
    (g : Glyph) (r : Rect) (shelf : Shelf) : (p.enter b key g r shelf).bench.packager.IsSteady := by
  rw [enter]
  dsimp only
  split
  · exact h
  · have hnote : (b.note (.glyphScheduled key.code p.id)).packager.IsSteady := h
    exact Bench.steady_schedule hnote _

theorem isNew_enter (p : Page) (b : Bench Nat) (key : GlyphKey) (g : Glyph) (r : Rect)
    (shelf : Shelf) : (p.enter b key g r shelf).isNew = true := by
  rw [enter]
  dsimp only
  split <;> rfl

/-- **A character that is not new leaves nothing behind**: no job is scheduled or received. -/
theorem place_of_not_isNew {b : Bench Nat} (p : Page) {c : Char} {size : Int}
    (h : (p.place b c size).isNew = false) : (p.place b c size).bench.packager = b.packager ∧
      (p.place b c size).page.pending = p.pending ∧ (p.place b c size).page.handle = p.handle := by
  unfold place at h ⊢
  dsimp only at h ⊢
  split at h
  · exact ⟨rfl, rfl, rfl⟩
  · split at h
    · rw [isNew_enter] at h
      contradiction
    · exact ⟨packager_noteUnpacked .., rfl, rfl⟩

theorem steady_place {b : Bench Nat} (h : b.packager.IsSteady) (p : Page) (c : Char) (size : Int) :
    (p.place b c size).bench.packager.IsSteady := by
  unfold place
  dsimp only
  split
  · exact h
  · split
    · refine steady_enter ?_ ..
      exact h
    · rw [packager_substitute, packager_noteUnpacked]
      exact h

end Page

/-! ### The flag -/

namespace Atlas

variable {a a' : Atlas}

/-- An atlas that was not released: it lists all pages, and its worker is steady. -/
structure IsManaged (a : Atlas) : Prop where
  live : a.released = false
  listed : a.listed = List.range a.pages.length
  steady : a.bench.packager.IsSteady

/-- Packaging is idle, and no page has anything left to upload. -/
structure IsSynced (a : Atlas) : Prop where
  idle : a.bench.packager.isSuspended = true
  drained : ∀ i p, a.page? i = some p → p.IsDrained

/-- Two atlases agree in the pages and in everything that decides when these are uploaded. -/
structure Alike (a a' : Atlas) : Prop where
  pages : a'.pages = a.pages
  listed : a'.listed = a.listed
  quiet : a'.quiet = a.quiet
  released : a'.released = a.released
  packager : a'.bench.packager = a.bench.packager

theorem IsManaged.alike (h : a.IsManaged) (ha : a.Alike a') : a'.IsManaged where
  live := ha.released.trans h.live
  listed := by rw [ha.listed, ha.pages, h.listed]
  steady := ha.packager ▸ h.steady

theorem IsSynced.alike (h : a.IsSynced) (ha : a.Alike a') : a'.IsSynced where
  idle := ha.packager ▸ h.idle
  drained i p hi := h.drained i p (by rwa [page?, ← ha.pages])

theorem isManaged_ofStack (settings : AtlasSettings) (stack : FontStack) {k : Packager Nat}
    (hk : k.IsSteady) : (ofStack settings stack k).IsManaged := ⟨rfl, rfl, hk⟩

theorem alike_choose (a : Atlas) (lines : List (List Char)) (size : Int) :
    a.Alike (a.choose lines size).2 := by
  unfold choose
  dsimp only
  split <;> exact ⟨rfl, rfl, rfl, rfl, rfl⟩

/-- A page that is replaced leaves the atlas managed, if the worker is still steady. -/
theorem IsManaged.setPage (h : a.IsManaged) (id : Nat) (p : Page) {b : Bench Nat}
    (hb : b.packager.IsSteady) : { a.setPage id p with bench := b }.IsManaged where
  live := h.live
  listed := h.listed.trans (congrArg List.range (List.length_set ..).symm)
  steady := hb

/-- Replacing a page by a drained one, only the others have to be looked at. -/
theorem isDrained_of_setPage {id i : Nat} {p p' q : Page} (hp : a.page? id = some p)
    (hp' : p'.IsDrained) (hi : (a.setPage id p').page? i = some q)
    (hothers : i ≠ id → a.page? i = some q → q.IsDrained) : q.IsDrained := by
  rw [page?_setPage hp] at hi
  split at hi
  · exact Option.some.inj hi ▸ hp'
  · rename_i hne
    exact hothers hne hi

/-- A group finds its page as it is, or a page is made for it and the flag is withdrawn. -/
theorem IsManaged.pageOf (h : a.IsManaged) (group : Nat) :
    (a.pageOf group).2.IsManaged ∧
      (a.Alike (a.pageOf group).2 ∨ (a.pageOf group).2.quiet = false) := by
  rw [Atlas.pageOf]
  split
  · exact ⟨h, .inl ⟨rfl, rfl, rfl, rfl, rfl⟩⟩
  · refine ⟨⟨h.live, ?_, h.steady⟩, .inr rfl⟩
    change a.listed ++ [a.pages.length] = List.range (a.pages ++ [_]).length
    rw [h.listed, List.length_append, List.length_singleton, List.range_succ]

/-- A step of the worker changes neither the flag nor the list of pages, and it can only be taken
while packaging is under way. -/
theorem IsManaged.step? (h : a.IsManaged) (ha : a.step? = some a') :
    a'.IsManaged ∧ a'.quiet = a.quiet ∧ a.bench.packager.isSuspended ≠ true := by
  obtain ⟨⟨delivery, b⟩, hb, rfl⟩ := Option.map_eq_some_iff.mp ha
  have hsteady : b.packager.IsSteady := Bench.steady_step? h.steady hb
  refine ⟨?_, ?_, fun hs => ?_⟩
  · cases delivery with
    | none => exact ⟨h.live, h.listed, hsteady⟩
    | some d =>
      exact ⟨h.live, h.listed.trans (congrArg List.range (List.length_modify ..).symm), hsteady⟩
  · cases delivery <;> rfl
  · rw [Bench.step?_of_isSuspended h.steady hs] at hb
    contradiction

end Atlas

/-- What the flag `quiet` promises at a point of a call. -/
def Call.Guards (a : Atlas) : Call → Prop
  | .resting => a.quiet = true → a.IsSynced
  | .asking _ _ _ isNew _ => isNew = false → a.quiet = true → a.IsSynced
  | .gating => a.bench.packager.isSuspended = true ∧ (a.quiet = true → a.IsSynced)
  | .passing => a.IsSynced
  | .uploading ids => a.quiet = true →
      a.bench.packager.isSuspended = true ∧ ∀ i p, a.page? i = some p → i ∉ ids → p.IsDrained

namespace Call

variable {a a' : Atlas} {call : Call}

theorem guards_nextLine (h : a.quiet = true → a.IsSynced) (id : Nat) (size : Int)
    (lines : List (List Char)) : (nextLine id size lines).Guards a := by
  cases lines with
  | nil => exact h
  | cons line rest => exact fun _ => h

theorem Guards.alike (h : call.Guards a) (ha : a.Alike a') : call.Guards a' := by
  have hquiet : a'.quiet = true → a.quiet = true := fun hq => ha.quiet ▸ hq
  cases call with
  | resting => exact fun hq => (h (hquiet hq)).alike ha
  | asking id size line isNew rest => exact fun hnew hq => (h hnew (hquiet hq)).alike ha
  | gating => exact ⟨ha.packager ▸ h.1, fun hq => (h.2 (hquiet hq)).alike ha⟩
  | passing => exact Atlas.IsSynced.alike h ha
  | uploading ids =>
    intro hq
    obtain ⟨hidle, hdrained⟩ := h (hquiet hq)
    exact ⟨ha.packager ▸ hidle, fun i p hi => hdrained i p (by rwa [Atlas.page?, ← ha.pages])⟩

/-- While packaging is under way nothing is promised, so that nothing can be broken. -/
theorem Guards.of_not_isSuspended (h : call.Guards a) (hs : a.bench.packager.isSuspended ≠ true)
    (hq : a'.quiet = a.quiet) : call.Guards a' := by
  have hquiet : a'.quiet = true → a.quiet = true := fun hq' => hq ▸ hq'
  cases call with
  | resting => exact fun hq => absurd (h (hquiet hq)).idle hs
  | asking id size line isNew rest => exact fun hnew hq => absurd (h hnew (hquiet hq)).idle hs
  | gating => exact absurd h.1 hs
  | passing => exact absurd h.idle hs
  | uploading ids => exact fun hq => absurd (h (hquiet hq)).1 hs

end Call

/-! ### Every move -/

namespace Running

variable {r : Running}

/-- The atlas is managed, and the promise of the flag is kept. -/
structure IsGated (r : Running) : Prop where
  managed : r.session.atlas.IsManaged
  guards : r.call.Guards r.session.atlas

theorem isGated_start (settings : AtlasSettings) (stack : FontStack) {k : Packager Nat}
    (hk : k.IsSteady) : (start settings stack k).IsGated :=
  ⟨Atlas.isManaged_ofStack settings stack hk, fun hquiet => by contradiction⟩

/-- Between two calls the flag tells that the atlas is synced. -/
theorem IsGated.isSynced_of_quiet (h : r.IsGated) (hr : r.call = .resting)
    (hquiet : r.session.atlas.quiet = true) : r.session.atlas.IsSynced := by
  have hguards := h.guards
  rw [hr] at hguards
  exact hguards hquiet

theorem IsGated.ask (h : r.IsGated) (hr : r.call = .resting) (lines : List (List Char))
    (size : Int) : (r.ask lines size).IsGated := by
  have hchoose := r.session.atlas.alike_choose lines size
  rw [Running.ask, if_neg (by simp [h.managed.live])]
  dsimp only
  generalize (r.session.atlas.choose lines size).2 = a at hchoose
  obtain ⟨hmanaged, hpage⟩ := (h.managed.alike hchoose).pageOf (r.session.atlas.choose lines size).1
  generalize a.pageOf (r.session.atlas.choose lines size).1 = opened at hmanaged hpage
  have hopened : opened.2.quiet = true → opened.2.IsSynced := by
    intro hquiet
    rcases hpage with halike | hnew
    · have hold : r.session.atlas.quiet = true := by rw [← hchoose.quiet, ← halike.quiet, hquiet]
      exact ((h.isSynced_of_quiet hr hold).alike hchoose).alike halike
    · rw [hnew] at hquiet
      contradiction
  exact ⟨hmanaged, Call.guards_nextLine hopened _ size lines⟩

/-- An update that turns to the pages has all of them before it. -/
theorem isGated_turnToPages {a : Atlas} (h : a.IsManaged)
    (hidle : a.quiet = true → a.bench.packager.isSuspended = true) (r : Running) :
    (r.turnToPages a).IsGated := by
  rw [turnToPages, if_neg (by simp [h.live])]
  refine ⟨h, fun hquiet => ⟨hidle hquiet, fun i p hi hnot => ?_⟩⟩
  have hlt : i < a.pages.length := (List.getElem?_eq_some_iff.mp hi).1
  have hmem : i ∈ a.listed := by rw [h.listed, List.mem_range]; exact hlt
  exact absurd hmem hnot

theorem IsGated.beginUpdate (h : r.IsGated) (hr : r.call = .resting) : r.beginUpdate.IsGated := by
  rw [Running.beginUpdate]
  split
  · exact isGated_turnToPages h.managed (fun hquiet => (h.isSynced_of_quiet hr hquiet).idle) r
  · rename_i hidle
    have hidle : r.session.atlas.bench.packager.isSuspended = true := by
      simpa [Atlas.isPackaging] using hidle
    exact ⟨h.managed, hidle, h.isSynced_of_quiet hr⟩

section

variable {a : Atlas} {d : Device} {calls : List DeviceCall} {id : Nat} {size : Int}
  {isNew : Bool} {rest : List (List Char)} {p : Page}

/-- At the end of a line the flag goes, if anything in the line was new. -/
theorem isGated_endLine {line : List Char} (h : a.IsManaged)
    (hg : (Call.asking id size line isNew rest).Guards a) :
    IsGated ⟨⟨{ a with quiet := a.quiet && !isNew }, d, calls⟩, .nextLine id size rest⟩ := by
  refine ⟨⟨h.live, h.listed, h.steady⟩, Call.guards_nextLine (fun hquiet => ?_) id size rest⟩
  obtain ⟨hold, hnew⟩ := Bool.and_eq_true_iff.mp hquiet
  have hsynced : a.IsSynced := hg (by simpa using hnew) hold
  exact ⟨hsynced.idle, hsynced.drained⟩

/-- A character that is not new leaves the atlas synced; a new one suspends the promise. -/
theorem isGated_place {line line' : List Char} (h : a.IsManaged) (hp : a.page? id = some p)
    (c : Char) (hg : (Call.asking id size line isNew rest).Guards a) :
    IsGated ⟨⟨{ a.setPage id (p.place a.bench c size).page with
        bench := (p.place a.bench c size).bench }, d, calls⟩,
      .asking id size line' (isNew || (p.place a.bench c size).isNew) rest⟩ := by
  refine ⟨h.setPage id _ (p.steady_place h.steady c size), fun hnew hquiet => ?_⟩
  obtain ⟨hbefore, hplace⟩ := Bool.or_eq_false_iff.mp hnew
  obtain ⟨hpackager, hpending, hhandle⟩ := p.place_of_not_isNew hplace
  have hsynced : a.IsSynced := hg hbefore hquiet
  have hdrained : (p.place a.bench c size).page.IsDrained := by
    rw [Page.IsDrained, hpending, hhandle]
    exact hsynced.drained id p hp
  refine ⟨hpackager ▸ hsynced.idle, fun i q hi => ?_⟩
  exact Atlas.isDrained_of_setPage hp hdrained hi fun _ => hsynced.drained i q

/-- A page that was uploaded need not be listed any longer. -/
theorem isGated_upload {ids : List Nat} {t : Page.Transfer} (h : a.IsManaged)
    (hp : a.page? id = some p) (hg : (Call.uploading (id :: ids)).Guards a) :
    IsGated ⟨⟨{ a.setPage id (p.upload t).1 with
        bench := { a.bench with stack := (p.upload t).2.stack } }, d, calls⟩, .uploading ids⟩ := by
  have hsteady : { a.bench with stack := (p.upload t).2.stack }.packager.IsSteady := h.steady
  refine ⟨h.setPage id _ hsteady, fun hquiet => ?_⟩
  obtain ⟨hidle, hdrained⟩ := hg hquiet
  refine ⟨hidle, fun i q hi hnot => ?_⟩
  exact Atlas.isDrained_of_setPage hp (p.isDrained_upload t) hi
    fun hne hold => hdrained i q hold (by simp [hne, hnot])

end

theorem IsGated.proceed (h : r.IsGated) : r.proceed.IsGated := by
  obtain ⟨⟨a, d, calls⟩, call⟩ := r
  have hmanaged : a.IsManaged := h.managed
  have hguards : call.Guards a := h.guards
  cases call with
  | resting => exact h
  | asking id size line isNew rest =>
    cases line with
    | nil => exact isGated_endLine hmanaged hguards
    | cons c line =>
      rw [Running.proceed]
      dsimp only
      cases hp : a.page? id with
      | none => exact isGated_endLine hmanaged hguards
      | some p => exact isGated_place hmanaged hp c hguards
  | gating =>
    rw [Running.proceed]
    dsimp only
    split
    · rename_i hquiet
      exact ⟨hmanaged, hguards.2 hquiet⟩
    · have hflag : { a with quiet := true }.IsManaged :=
        ⟨hmanaged.live, hmanaged.listed, hmanaged.steady⟩
      exact isGated_turnToPages hflag (fun _ => hguards.1) _
  | passing => exact ⟨hmanaged, fun _ => hguards⟩
  | uploading ids =>
    cases ids with
    | nil =>
      refine ⟨hmanaged, fun hquiet => ?_⟩
      obtain ⟨hidle, hdrained⟩ := hguards hquiet
      exact ⟨hidle, fun i p hi => hdrained i p hi List.not_mem_nil⟩
    | cons id ids =>
      rw [Running.proceed]
      dsimp only
      cases hp : a.page? id with
      | none =>
        refine ⟨hmanaged, fun hquiet => ?_⟩
        obtain ⟨hidle, hdrained⟩ := hguards hquiet
        refine ⟨hidle, fun i p hi hnot => hdrained i p hi fun hmem => ?_⟩
        rcases List.mem_cons.mp hmem with rfl | hmem
        · rw [show a.page? i = some p from hi] at hp
          contradiction
        · exact hnot hmem
      | some p => exact isGated_upload hmanaged hp hguards

/-- **Every move keeps the promise.** -/
theorem IsGated.move (h : r.IsGated) (m : Move) : (r.move m).IsGated := by
  cases m with
  | request lines size =>
    rw [Running.move]
    split
    · rename_i hr
      exact h.ask hr lines size
    · exact h
  | update =>
    rw [Running.move]
    split
    · rename_i hr
      exact h.beginUpdate hr
    · exact h
  | proceed => exact h.proceed
  | work =>
    rw [Running.move]
    cases hstep : r.session.atlas.step? with
    | none => exact h
    | some a =>
      obtain ⟨hmanaged, hquiet, hbusy⟩ := h.managed.step? hstep
      exact ⟨hmanaged, h.guards.of_not_isSuspended hbusy hquiet⟩
  | recycle pool =>
    have halike : r.session.atlas.Alike { r.session.atlas with
      bench := { r.session.atlas.bench with
        stack := { r.session.atlas.bench.stack with pool } } } := ⟨rfl, rfl, rfl, rfl, rfl⟩
    exact ⟨h.managed.alike halike, h.guards.alike halike⟩

theorem IsGated.run (h : r.IsGated) (moves : List Move) : (r.run moves).IsGated := by
  induction moves generalizing r with
  | nil => exact h
  | cons m moves ih => exact ih (h.move m)

/-- An update is passed over: one that is under way, or one that would begin now and be left
alone. -/
def PassesOver (r : Running) : Prop :=
  r.call = .passing ∨ (r.call = .resting ∧ r.session.atlas.gate.1 = true)

theorem IsGated.isSynced (h : r.IsGated) (hr : r.PassesOver) : r.session.atlas.IsSynced := by
  rcases hr with hpassing | ⟨hresting, hgate⟩
  · have hguards := h.guards
    rwa [hpassing] at hguards
  · rw [Atlas.gate] at hgate
    split at hgate
    · contradiction
    · exact h.isSynced_of_quiet hresting hgate

/-- **No glyph is stranded.** With packaging in place or by a worker, whatever the owner asks for
and however the steps of the owner and of the worker are interleaved: when an update is passed over,
no job is queued or under way, and every page that the atlas lists has its texture and nothing left
to upload. -/
theorem isSynced_of_passed_over (settings : AtlasSettings) (stack : FontStack) {k : Packager Nat}
    (hk : k = .immediate ∨ k = .threaded .empty) (moves : List Move)
    (h : ((start settings stack k).run moves).PassesOver) :
    let a := ((start settings stack k).run moves).session.atlas
    a.bench.packager.IsAtRest ∧ a.listed = List.range a.pages.length ∧
      ∀ id ∈ a.listed, ∃ p, a.page? id = some p ∧ p.pending = [] ∧ p.handle.isSome = true := by
  intro a
  have hsteady : k.IsSteady := by
    rcases hk with rfl | rfl
    · trivial
    · exact Queue.isSteady_empty
  have hgated := (isGated_start settings stack hsteady).run moves
  have hsynced : a.IsSynced := hgated.isSynced h
  refine ⟨hgated.managed.steady.isAtRest hsynced.idle, hgated.managed.listed, fun id hid => ?_⟩
  have hlt : id < a.pages.length := by
    rw [hgated.managed.listed] at hid
    exact List.mem_range.mp hid
  have hp : a.page? id = some a.pages[id] := List.getElem?_eq_getElem hlt
  exact ⟨a.pages[id], hp, hsynced.drained id _ hp⟩

/-- A font stack without fonts, whose placeholder has ink. -/
def spotStack : FontStack :=
  ⟨[], ⟨[], 0, none⟩, ⟨.blank, ⟨1, 1, 1, 1, some #[7]⟩, 0, ⟨placeholderCode, fieldSize⟩⟩, .empty, 22, 4⟩

/-- A glyph is asked for, and an update finds the worker with the glyph in hand. The next update
uploads the glyph, and only the one after that is passed over. -/
theorem isSynced_after_late_delivery :
    let moves : List Move := [.request [['A']] 1, .proceed, .proceed, .work, .update, .proceed,
      .proceed, .work, .work, .update, .proceed, .proceed, .proceed, .update, .proceed]
    let r := (start .usual spotStack (.threaded .empty)).run moves
    r.call = .passing ∧ r.session.atlas.listed = [0] ∧
      ∃ p, r.session.atlas.page? 0 = some p ∧ p.pending = [] ∧ p.handle.isSome = true := by
  intro moves r
  have hcall : r.call = .passing := by rfl
  have hlisted : r.session.atlas.listed = [0] := by rfl
  obtain ⟨-, -, hpages⟩ :=
    isSynced_of_passed_over .usual spotStack (.inr rfl) moves (.inl hcall)
  exact ⟨hcall, hlisted, hpages 0 (hlisted ▸ List.mem_singleton_self 0)⟩

end Running

end Typecase
