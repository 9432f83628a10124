import Typecase.Proofs.Atlas.Gating

/-!
# Release is final

The owner may release an atlas between two calls, at any moment of the worker. Once the release
has returned, nothing opens again (`Service.release_is_final`): every request is answered with
nothing, no group and no page is listed, packaging is idle, and an update makes no call to the
device.

* **The steps of a release** are the flag that refuses requests, the cancelling of packaging, and,
  once the worker has ended, the dropping of the groups and pages. In between the worker goes on:
  it may still hold a batch when packaging is cancelled, and then delivers all of it. A `Service`
  is a running session with the `Stage` of its release, and a list of `Service.Event` is an
  interleaving. What one event can do is said once (`Service.Step`).
* **The way there.** Until the release returns, its stage tells what is done already
  (`Service.IsProper`): the flag is set, and then the queue is cancelled and empty. A worker
  without a queue can only finish its batch and end, so that the release returns, and by then
  it has done what `Atlas.release` does in one go (`Service.release_returns`).
* **Afterwards** four facts hold each other up (`Atlas.IsRetired`). The flag `released` keeps
  requests from making groups, pages and jobs; without jobs packaging stays idle, and without
  requests nobody withdraws the flag `quiet`; and with both of these every update is passed over.
  A further release changes none of this.
-/

namespace Typecase

/-! ### The worker -/

namespace Queue

variable {ℓ : Type} {q : Queue ℓ} {scale : Nat} {pool : Pool}

/-- Packaging was cancelled, and no job is queued. -/
structure IsCancelled (q : Queue ℓ) : Prop where
  cancelled : q.cancelled = true
  tickets : q.tickets = []

/-- Whether the worker has ended. -/
def hasEnded (q : Queue ℓ) : Bool :=
  match q.worker with
  | .ended => true
  | _ => false

variable [DecidableEq ℓ]

/-- A worker without a queue finishes its batch, and takes no other. -/
theorem IsCancelled.step? {r : Progress ℓ} (h : q.IsCancelled)
    (hr : q.step? scale pool = some r) : r.queue.IsCancelled := by
  obtain ⟨tickets, worker, busy, cancelled⟩ := q
  obtain ⟨hcancelled, htickets⟩ := h
  cases worker with
  | ended => contradiction
  | waiting =>
    obtain rfl : cancelled = true := hcancelled
    obtain rfl := Option.some.inj hr
    exact ⟨rfl, htickets⟩
  | holding batch =>
    cases batch <;> obtain rfl := Option.some.inj hr <;> exact ⟨hcancelled, htickets⟩

/-- It can go on exactly until it has ended. -/
theorem IsCancelled.step?_eq_none_iff (h : q.IsCancelled) :
    q.step? scale pool = none ↔ q.hasEnded = true := by
  obtain ⟨tickets, worker, busy, cancelled⟩ := q
  obtain rfl : cancelled = true := h.cancelled
  cases worker with
  | ended => exact iff_of_true rfl rfl
  | waiting => exact iff_of_false (Option.some_ne_none _) Bool.false_ne_true
  | holding batch =>
    cases batch <;> exact iff_of_false (Option.some_ne_none _) Bool.false_ne_true

/-- Letting the worker go on is letting it take its steps one by one. -/
theorem settle_of_step?_eq_none (hr : q.step? scale pool = none) :
    q.settle scale pool = ([], q, pool) := by
  rw [settle]
  split
  · rfl
  · rename_i r hsome
    rw [hr] at hsome
    contradiction

theorem settle_of_step? {r : Progress ℓ} (hr : q.step? scale pool = some r) :
    q.settle scale pool =
      (r.delivery.toList ++ (r.queue.settle scale r.pool).1, (r.queue.settle scale r.pool).2) := by
  rw [settle]
  split
  · rename_i hnone
    rw [hr] at hnone
    contradiction
  · rename_i r' hsome
    rw [hr] at hsome
    obtain rfl := Option.some.inj hsome
    rfl

end Queue

namespace Packager

/-- Packaging was cancelled. There is nothing to cancel when it is done in place. -/
def IsCancelled : Packager Nat → Prop
  | .immediate => True
  | .threaded q => q.IsCancelled

/-- Whether there is no worker to wait for. -/
def hasEnded : Packager Nat → Bool
  | .immediate => true
  | .threaded q => q.hasEnded

/-- Packaging was cancelled, the worker has ended, and nothing is under way. -/
structure IsOver (k : Packager Nat) : Prop where
  cancelled : k.IsCancelled
  ended : k.hasEnded = true
  idle : k.isSuspended = true

end Packager

namespace Bench

variable {b : Bench Nat}

theorem isCancelled_cancel (b : Bench Nat) : b.cancel.packager.IsCancelled := by
  obtain ⟨stack, packager, scale, journal⟩ := b
  cases packager with
  | immediate => trivial
  | threaded q => exact ⟨rfl, rfl⟩

/-- Cancelling again changes nothing. -/
theorem isOver_cancel (h : b.packager.IsOver) : b.cancel.packager.IsOver := by
  refine ⟨b.isCancelled_cancel, ?_, ?_⟩
  · obtain ⟨stack, packager, scale, journal⟩ := b
    cases packager <;> exact h.ended
  · obtain ⟨stack, packager, scale, journal⟩ := b
    cases packager with
    | immediate => rfl
    | threaded q => exact (Bool.and_eq_true_iff.mp h.idle).2

/-- Once the worker has ended, it remains to be noted that it is not busy any more. -/
theorem isOver_finish (h : b.packager.IsCancelled) (hended : b.packager.hasEnded = true) :
    b.finish.packager.IsOver := by
  obtain ⟨stack, packager, scale, journal⟩ := b
  cases packager with
  | immediate => exact ⟨trivial, rfl, rfl⟩
  | threaded q =>
    have hq : q.IsCancelled := h
    have hidle : q.finish.isSuspended = true := by
      simp [Queue.finish, Queue.isSuspended, hq.tickets]
    exact ⟨⟨hq.cancelled, hq.tickets⟩, hended, hidle⟩

/-- A step on a bench is a step of its worker. -/
theorem progress_of_step? {r : Option (Delivery Nat) × Bench Nat} (hr : b.step? = some r) :
    ∃ q progress, b.packager = .threaded q ∧ q.step? b.scale b.stack.pool = some progress ∧
      r = (progress.delivery, { b with
        stack := { b.stack with pool := progress.pool }, packager := .threaded progress.queue }) := by
  obtain ⟨stack, packager, scale, journal⟩ := b
  cases packager with
  | immediate => contradiction
  | threaded q =>
    obtain ⟨progress, hprogress, rfl⟩ := Option.map_eq_some_iff.mp hr
    exact ⟨q, progress, rfl, hprogress, rfl⟩

theorem isCancelled_step? {r : Option (Delivery Nat) × Bench Nat} (h : b.packager.IsCancelled)
    (hr : b.step? = some r) : r.2.packager.IsCancelled := by
  obtain ⟨q, progress, hq, hprogress, rfl⟩ := progress_of_step? hr
  rw [hq] at h
  exact Queue.IsCancelled.step? h hprogress

theorem step?_eq_none_iff (h : b.packager.IsCancelled) :
    b.step? = none ↔ b.packager.hasEnded = true := by
  obtain ⟨stack, packager, scale, journal⟩ := b
  cases packager with
  | immediate => exact iff_of_true rfl rfl
  | threaded q =>
    have hq : q.IsCancelled := h
    exact Option.map_eq_none_iff.trans hq.step?_eq_none_iff

/-- The work that is left. -/
def work (b : Bench Nat) : Nat :=
  match b.packager with
  | .immediate => 0
  | .threaded q => q.work

theorem work_lt_of_step? {r : Option (Delivery Nat) × Bench Nat} (hr : b.step? = some r) :
    r.2.work < b.work := by
  obtain ⟨q, progress, hq, hprogress, rfl⟩ := progress_of_step? hr
  simp only [work, hq]
  exact Queue.work_lt_of_step? hprogress

theorem settle_of_step?_eq_none (hr : b.step? = none) : b.settle = ([], b) := by
  obtain ⟨stack, packager, scale, journal⟩ := b
  cases packager with
  | immediate => rfl
  | threaded q =>
    have hq : q.step? scale stack.pool = none := Option.map_eq_none_iff.mp hr
    rw [settle]
    dsimp only
    rw [Queue.settle_of_step?_eq_none hq]

theorem settle_of_step? {r : Option (Delivery Nat) × Bench Nat} (hr : b.step? = some r) :
    b.settle = (r.1.toList ++ r.2.settle.1, r.2.settle.2) := by
  obtain ⟨q, progress, hq, hprogress, rfl⟩ := progress_of_step? hr
  simp only [settle, hq, Queue.settle_of_step? hprogress]

end Bench

/-! ### The atlas -/

namespace Atlas

variable {a a' : Atlas}

/-- The end of a release: what it drops once the worker has ended. -/
def close (a : Atlas) : Atlas :=
  { a with bench := a.bench.finish, groups := a.groups.clear, listed := [], quiet := true }

/-- Deliveries change nothing but the pages. -/
theorem foldl_receive (a : Atlas) (deliveries : List (Delivery Nat)) :
    deliveries.foldl receive a = { a with
      pages := deliveries.foldl
        (fun pages d => pages.modify d.listener fun p => p.accept d.jobs) a.pages } := by
  induction deliveries generalizing a with
  | nil => rfl
  | cons d rest ih => rw [List.foldl_cons, ih]; rfl

theorem settle_of_step?_eq_none (ha : a.step? = none) : a.settle = a := by
  have hb : a.bench.step? = none := Option.map_eq_none_iff.mp ha
  rw [settle, Bench.settle_of_step?_eq_none hb]
  rfl

theorem settle_of_step? (ha : a.step? = some a') : a.settle = a'.settle := by
  obtain ⟨⟨delivery, b⟩, hb, rfl⟩ := Option.map_eq_some_iff.mp ha
  rw [settle, settle, Bench.settle_of_step? hb]
  dsimp only
  rw [foldl_receive, foldl_receive]
  cases delivery <;> rfl

/-- A release in one go lets the worker end after cancelling, and then closes the atlas. -/
theorem release_eq (a : Atlas) :
    a.release = ({ a with released := true, bench := a.bench.cancel } : Atlas).settle.close := by
  rw [release, Bench.shutDown, settle]
  dsimp only
  rw [foldl_receive, foldl_receive]
  rfl

/-- A step of the worker is a step on the bench, and does not take back a release. -/
theorem bench_step? (ha : a.step? = some a') :
    (∃ delivery, a.bench.step? = some (delivery, a'.bench)) ∧ a'.released = a.released := by
  obtain ⟨⟨delivery, b⟩, hb, rfl⟩ := Option.map_eq_some_iff.mp ha
  cases delivery <;> exact ⟨⟨_, hb⟩, rfl⟩

/-! ### Afterwards -/

/-- An atlas that was released, with packaging over. -/
structure IsRetired (a : Atlas) : Prop where
  released : a.released = true
  groups : a.groups.groups = []
  listed : a.listed = []
  quiet : a.quiet = true
  packager : a.bench.packager.IsOver

/-- Packaging that is over may be replaced by packaging that is over, and notices may be added. -/
theorem IsRetired.withBench (h : a.IsRetired) {b : Bench Nat} (hb : b.packager.IsOver) :
    { a with bench := b }.IsRetired := ⟨h.released, h.groups, h.listed, h.quiet, hb⟩

/-- A retired atlas has nothing to give. -/
theorem IsRetired.lookup (h : a.IsRetired) (lines : List (List Char)) (size : Int) :
    a.lookup lines size = ([], a.note .lookupAfterRelease) := if_pos h.released

theorem IsRetired.isPackaging (h : a.IsRetired) : a.isPackaging = false := by
  rw [Atlas.isPackaging, h.packager.idle]
  rfl

/-- An update of a retired atlas is passed over. -/
theorem IsRetired.update (h : a.IsRetired) (d : Device) (sync : Bool) (elapsed : Nat) :
    a.update d sync elapsed = ⟨!sync && elapsed < a.settings.timeout, [], a, d⟩ := by
  have hflag : { a with quiet := true } = a := by rw [← h.quiet]
  have hgate : a.gate = (true, a) := by
    rw [gate, h.isPackaging, if_neg Bool.false_ne_true, h.quiet, hflag]
  rw [Atlas.update, hgate]
  rfl

theorem IsRetired.step? (h : a.IsRetired) : a.step? = none :=
  Option.map_eq_none_iff.mpr ((Bench.step?_eq_none_iff h.packager.cancelled).mpr h.packager.ended)

/-- Closing retires an atlas that was released, if the worker has ended. -/
theorem isRetired_close (hreleased : a.released = true) (h : a.bench.packager.IsCancelled)
    (hended : a.bench.packager.hasEnded = true) : a.close.IsRetired :=
  ⟨hreleased, rfl, rfl, rfl, Bench.isOver_finish h hended⟩

end Atlas

namespace Running

variable {r : Running} {d : Device} {calls : List DeviceCall}

/-- A session with a retired atlas, in which no request is under way and no upload: the device and
the calls made to it stay as they are. -/
structure IsRetired (r : Running) (d : Device) (calls : List DeviceCall) : Prop where
  atlas : r.session.atlas.IsRetired
  call : r.call = .resting ∨ r.call = .gating ∨ r.call = .passing
  device : r.session.device = d
  calls : r.session.calls = calls

/-- The atlas may be replaced by one that is retired as well. -/
theorem IsRetired.withAtlas (h : r.IsRetired d calls) {a : Atlas} (ha : a.IsRetired) {call : Call}
    (hcall : call = .resting ∨ call = .gating ∨ call = .passing) :
    (r.withAtlas a call).IsRetired d calls := ⟨ha, hcall, h.device, h.calls⟩

theorem IsRetired.proceed (h : r.IsRetired d calls) : r.proceed.IsRetired d calls := by
  rw [Running.proceed]
  rcases h.call with hcall | hcall | hcall <;> simp only [hcall]
  · exact h
  · rw [if_pos h.atlas.quiet]
    exact h.withAtlas h.atlas (.inr (.inr rfl))
  · exact h.withAtlas h.atlas (.inl rfl)

/-- **Nothing opens again**, whatever happens in the session. -/
theorem IsRetired.move (h : r.IsRetired d calls) (m : Move) : (r.move m).IsRetired d calls := by
  have ha := h.atlas
  cases m with
  | request lines size =>
    rw [Running.move]
    split
    · have hnote : (r.session.atlas.note .lookupAfterRelease).IsRetired := ha.withBench ha.packager
      rw [ask, if_pos ha.released]
      exact h.withAtlas hnote (.inl rfl)
    · exact h
  | update =>
    rw [Running.move]
    split
    · rw [beginUpdate, ha.isPackaging, if_neg Bool.false_ne_true]
      exact h.withAtlas ha (.inr (.inl rfl))
    · exact h
  | proceed => exact h.proceed
  | work =>
    rw [Running.move, ha.step?]
    exact h
  | recycle pool =>
    have hbench := ha.withBench (b := { r.session.atlas.bench with
      stack := { r.session.atlas.bench.stack with pool } }) ha.packager
    exact h.withAtlas hbench h.call

/-- Left alone, the worker does what `Atlas.settle` does, and then cannot go on. -/
theorem exists_run_work_eq_settle (r : Running) :
    ∃ n, r.run (List.replicate n .work) = r.withAtlas r.session.atlas.settle r.call ∧
      r.session.atlas.settle.step? = none := by
  -- The induction is on the work that is left.
  induction hwork : r.session.atlas.bench.work using Nat.strongRecOn generalizing r with
  | ind work ih =>
    cases hstep : r.session.atlas.step? with
    | none =>
      rw [Atlas.settle_of_step?_eq_none hstep]
      exact ⟨0, rfl, hstep⟩
    | some a =>
      obtain ⟨⟨delivery, hbench⟩, -⟩ := Atlas.bench_step? hstep
      have hmove : r.move .work = r.withAtlas a r.call := by rw [Running.move, hstep]; rfl
      have hless : a.bench.work < work := hwork ▸ Bench.work_lt_of_step? hbench
      obtain ⟨n, hrun, hend⟩ := ih _ hless (r.withAtlas a r.call) rfl
      rw [Atlas.settle_of_step? hstep]
      refine ⟨n + 1, ?_, hend⟩
      rw [List.replicate_succ, run, List.foldl_cons, hmove]
      exact hrun

end Running

/-! ### A release, step by step -/

/-- How far the release of an atlas has come. -/
inductive Stage where
  /-- No release has begun. -/
  | serving
  /-- A release has begun: requests are refused. -/
  | flagged
  /-- Packaging is cancelled, and the worker is waited for. -/
  | awaiting
  /-- A release has returned. -/
  | returned
  deriving DecidableEq, Repr

/-- Whether a release is under way. -/
def Stage.isUnderWay : Stage → Bool
  | .flagged | .awaiting => true
  | _ => false

/-- A running session with the stage of its release. -/
structure Service where
  running : Running
  stage : Stage

namespace Service

/-- Something that happens to a session that can be released. -/
inductive Event where
  /-- The owner begins a release. -/
  | release
  /-- Something that happens in a running session. -/
  | move (m : Move)

/-- The session before any release. -/
def start (settings : AtlasSettings) (stack : FontStack) (packager : Packager Nat) : Service :=
  ⟨.start settings stack packager, .serving⟩

/-- The owner has neither a call nor a release under way. -/
def isFree (s : Service) : Bool := !s.stage.isUnderWay && s.running.call = .resting

/-- The same session at another stage, with another atlas. -/
def withAtlas (s : Service) (a : Atlas) (stage : Stage) : Service :=
  ⟨s.running.withAtlas a s.running.call, stage⟩

/-- The owner takes the next step of the release or of the call under way. -/
def proceed (s : Service) : Service :=
  let a := s.running.session.atlas
  match s.stage with
  | .flagged => s.withAtlas { a with bench := a.bench.cancel } .awaiting
  | .awaiting => if a.bench.packager.hasEnded then s.withAtlas a.close .returned else s
  | .serving | .returned => ⟨s.running.proceed, s.stage⟩

/-- The session after an event. -/
def step (s : Service) : Event → Service
  | .release =>
    if s.isFree then s.withAtlas { s.running.session.atlas with released := true } .flagged else s
  | .move .proceed => s.proceed
  | .move (.request lines size) =>
    if s.isFree then ⟨s.running.move (.request lines size), s.stage⟩ else s
  | .move .update => if s.isFree then ⟨s.running.move .update, s.stage⟩ else s
  | .move m => ⟨s.running.move m, s.stage⟩

/-- The session after events in order. -/
def run (s : Service) (events : List Event) : Service := events.foldl step s

theorem run_append (s : Service) (events events' : List Event) :
    s.run (events ++ events') = (s.run events).run events' := List.foldl_append

/-! ### The way to the end -/

variable {s : Service} {d : Device} {calls : List DeviceCall}

theorem isFree_iff : s.isFree = true ↔ s.stage.isUnderWay = false ∧ s.running.call = .resting := by
  simp [isFree]

/-- **All that an event can do**: nothing, one of the three steps of a release, or a move. While a
release is under way only the worker moves, and the pool. -/
inductive Step (s : Service) : Service → Prop where
  | same : Step s s
  | flag (hs : s.isFree = true) :
    Step s (s.withAtlas { s.running.session.atlas with released := true } .flagged)
  | cancel (hs : s.stage = .flagged) :
    Step s (s.withAtlas { s.running.session.atlas with
      bench := s.running.session.atlas.bench.cancel } .awaiting)
  | close (hs : s.stage = .awaiting)
    (hended : s.running.session.atlas.bench.packager.hasEnded = true) :
    Step s (s.withAtlas s.running.session.atlas.close .returned)
  | move (m : Move)
    (hm : s.stage.isUnderWay = false ∨ m = .work ∨ ∃ pool, m = .recycle pool) :
    Step s ⟨s.running.move m, s.stage⟩

theorem step_proceed (s : Service) : s.Step s.proceed := by
  obtain ⟨r, stage⟩ := s
  cases stage with
  | serving | returned => exact .move .proceed (.inl rfl)
  | flagged => exact .cancel rfl
  | awaiting =>
    rw [proceed]
    dsimp only
    split
    · rename_i hended
      exact .close rfl hended
    · exact .same

theorem step_step (s : Service) (e : Event) : s.Step (s.step e) := by
  cases e with
  | release =>
    rw [step]
    split
    · rename_i hfree
      exact .flag hfree
    · exact .same
  | move m =>
    cases m with
    | request | update =>
      rw [step]
      split
      · rename_i hfree
        exact .move _ (.inl (isFree_iff.mp hfree).1)
      · exact .same
    | proceed => exact s.step_proceed
    | work => exact .move .work (.inr (.inl rfl))
    | recycle pool => exact .move (.recycle pool) (.inr (.inr ⟨pool, rfl⟩))

/-- What has been done at a stage of the release. -/
def IsProper (s : Service) : Prop :=
  match s.stage with
  | .serving => True
  | .flagged => s.running.call = .resting ∧ s.running.session.atlas.released = true
  | .awaiting => s.running.call = .resting ∧ s.running.session.atlas.released = true ∧
      s.running.session.atlas.bench.packager.IsCancelled
  | .returned => ∃ d calls, s.running.IsRetired d calls

/-- What happens while no release is under way. -/
theorem IsProper.free (h : s.IsProper) (hs : s.stage.isUnderWay = false) (m : Move) :
    IsProper ⟨s.running.move m, s.stage⟩ := by
  obtain ⟨r, stage⟩ := s
  cases stage with
  | serving => trivial
  | flagged => contradiction
  | awaiting => contradiction
  | returned =>
    obtain ⟨d, calls, hretired⟩ := h
    exact ⟨d, calls, hretired.move m⟩

/-- The worker goes on, whether a release is under way or not. -/
theorem IsProper.work (h : s.IsProper) : IsProper ⟨s.running.move .work, s.stage⟩ := by
  obtain ⟨r, stage⟩ := s
  rw [Running.move]
  cases hstep : r.session.atlas.step? with
  | none => exact h
  | some a =>
    obtain ⟨⟨delivery, hbench⟩, hreleased⟩ := Atlas.bench_step? hstep
    cases stage with
    | serving => trivial
    | flagged => exact ⟨h.1, hreleased.trans h.2⟩
    | awaiting => exact ⟨h.1, hreleased.trans h.2.1, Bench.isCancelled_step? h.2.2 hbench⟩
    | returned =>
      obtain ⟨d, calls, hretired⟩ := h
      rw [hretired.atlas.step?] at hstep
      contradiction

theorem IsProper.recycle (h : s.IsProper) (pool : Pool) :
    IsProper ⟨s.running.move (.recycle pool), s.stage⟩ := by
  obtain ⟨r, stage⟩ := s
  cases stage with
  | serving => trivial
  | flagged => exact h
  | awaiting => exact h
  | returned =>
    obtain ⟨d, calls, hretired⟩ := h
    exact ⟨d, calls, hretired.move (.recycle pool)⟩

/-- **Every event leaves a release where its stage says it is.** -/
theorem IsProper.step {s' : Service} (h : s.IsProper) (hs : s.Step s') : s'.IsProper := by
  cases hs with
  | same => exact h
  | flag hfree => exact ⟨(isFree_iff.mp hfree).2, rfl⟩
  | cancel hstage =>
    rw [IsProper, hstage] at h
    exact ⟨h.1, h.2, Bench.isCancelled_cancel _⟩
  | close hstage hended =>
    rw [IsProper, hstage] at h
    exact ⟨_, _, Atlas.isRetired_close h.2.1 h.2.2 hended, .inl h.1, rfl, rfl⟩
  | move m hm =>
    rcases hm with hfree | rfl | ⟨pool, rfl⟩
    · exact h.free hfree m
    · exact h.work
    · exact h.recycle pool

theorem IsProper.run (h : s.IsProper) (events : List Event) : (s.run events).IsProper := by
  induction events generalizing s with
  | nil => exact h
  | cons e events ih => exact ih (h.step (s.step_step e))

theorem run_work (r : Running) (stage : Stage) (n : Nat) :
    run ⟨r, stage⟩ (List.replicate n (.move .work)) = ⟨r.run (List.replicate n .work), stage⟩ := by
  induction n generalizing r with
  | zero => rfl
  | succ n ih =>
    rw [List.replicate_succ, List.replicate_succ]
    exact ih (r.move .work)

/-- A release that is left alone: once packaging is cancelled, the worker takes some steps. -/
def releasing (n : Nat) : List Event :=
  [.release, .move .proceed] ++ List.replicate n (.move .work) ++ [.move .proceed]

/-- **A release that is left alone returns**, and has done what `Atlas.release` does in one go. -/
theorem release_returns (hs : s.isFree = true) :
    ∃ n, s.run (releasing n) = s.withAtlas s.running.session.atlas.release .returned := by
  let cancelled : Service := s.withAtlas { s.running.session.atlas with
    released := true, bench := s.running.session.atlas.bench.cancel } .awaiting
  have hcancelled : s.run [.release, .move .proceed] = cancelled := by
    change Service.proceed (if s.isFree then _ else s) = _
    rw [if_pos hs]
    rfl
  have hproper : cancelled.IsProper :=
    ⟨(isFree_iff.mp hs).2, rfl, Bench.isCancelled_cancel s.running.session.atlas.bench⟩
  obtain ⟨n, hrun, hend⟩ := cancelled.running.exists_run_work_eq_settle
  refine ⟨n, ?_⟩
  have hsettled : cancelled.run (List.replicate n (.move .work)) =
      cancelled.withAtlas cancelled.running.session.atlas.settle .awaiting := by
    rw [withAtlas, ← hrun]
    exact run_work cancelled.running .awaiting n
  -- the worker cannot go on, so that it has ended
  have hworked := hproper.run (List.replicate n (.move .work))
  rw [hsettled] at hworked
  have hended := (Bench.step?_eq_none_iff hworked.2.2).mp (Option.map_eq_none_iff.mp hend)
  rw [releasing, run_append, run_append, hcancelled, hsettled, Atlas.release_eq]
  exact if_pos hended

/-! ### Afterwards -/

/-- Nothing opens again, whatever happens, further releases included. -/
theorem isRetired_of_step {s' : Service} (h : s.running.IsRetired d calls) (hs : s.Step s') :
    s'.running.IsRetired d calls := by
  have ha := h.atlas
  cases hs with
  | same => exact h
  | flag =>
    have hflag : { s.running.session.atlas with released := true }.IsRetired :=
      ⟨rfl, ha.groups, ha.listed, ha.quiet, ha.packager⟩
    exact h.withAtlas hflag h.call
  | cancel => exact h.withAtlas (ha.withBench (Bench.isOver_cancel ha.packager)) h.call
  | close =>
    have hclose := Atlas.isRetired_close ha.released ha.packager.cancelled ha.packager.ended
    exact h.withAtlas hclose h.call
  | move m => exact h.move m

theorem run_of_isRetired (h : s.running.IsRetired d calls) (events : List Event) :
    (s.run events).running.IsRetired d calls := by
  induction events generalizing s with
  | nil => exact h
  | cons e events ih => exact ih (isRetired_of_step h (s.step_step e))

/-- **Release is final.** With packaging in place or by a worker, and whatever happened before: a
release that begins now returns, wherever the worker is. Once it has returned, and whatever happens
then, every request is answered with nothing, there is no group and no page, packaging is idle, and
an update calls nothing on the device but the question whether uploads can be seen at once; if so,
it asks for no redrawing. The device and the calls made to it are as they were when the release
returned. -/
theorem release_is_final (settings : AtlasSettings) (stack : FontStack) (k : Packager Nat)
    (before : List Event) :
    let s := (start settings stack k).run before
    (s.isFree = true →
      ∃ n, s.run (releasing n) = s.withAtlas s.running.session.atlas.release .returned) ∧
    (s.stage = .returned → ∀ after,
      let session := (s.run after).running.session
      (∀ lines size, (session.atlas.lookup lines size).1 = []) ∧
        (∀ text size, (session.atlas.regions text size).1 = []) ∧
        session.atlas.groupCount = 0 ∧ session.atlas.textureCount = 0 ∧
        session.atlas.isPackaging = false ∧
        (∀ d sync elapsed, let u := session.atlas.update d sync elapsed
          u.calls = [] ∧ u.device = d ∧ (sync = true → u.redraw = false)) ∧
        session.calls = s.running.session.calls ∧
        session.device = s.running.session.device) := by
  intro s
  refine ⟨release_returns, fun hreturned after => ?_⟩
  have hproper : s.IsProper := IsProper.run (s := start settings stack k) trivial before
  rw [IsProper, hreturned] at hproper
  obtain ⟨d, calls, hretired⟩ := hproper
  have hafter : (s.run after).running.IsRetired d calls := run_of_isRetired hretired after
  have ha : (s.run after).running.session.atlas.IsRetired := hafter.atlas
  refine ⟨fun lines size => ?_, fun text size => ?_, ?_, ?_, ha.isPackaging,
    fun d sync elapsed => ?_, hafter.calls.trans hretired.calls.symm,
    hafter.device.trans hretired.device.symm⟩
  · rw [ha.lookup]
  · rw [Atlas.regions, ha.lookup]
    rfl
  · rw [Atlas.groupCount, ha.groups]
    rfl
  · rw [Atlas.textureCount, ha.listed]
    rfl
  · rw [ha.update]
    exact ⟨rfl, rfl, fun hsync => by rw [hsync]; rfl⟩

/-- A release that begins while the worker has a glyph in hand returns after three steps of the
worker, which delivers the glyph and ends; and it stays final. -/
theorem final_with_work_in_flight :
    let before : List Event := [.move (.request [['A']] 1), .move .proceed, .move .proceed,
      .move .work]
    let after : List Event := [.move (.request [['B']] 1), .move .update, .move .proceed,
      .move .proceed, .release, .move .proceed, .move .proceed]
    let s := (start .usual Running.spotStack (.threaded .empty)).run before
    let released := (start .usual Running.spotStack (.threaded .empty)).run (before ++ releasing 3)
    let session := (released.run after).running.session
    s.isFree = true ∧
      (∃ n, s.run (releasing n) = s.withAtlas s.running.session.atlas.release .returned) ∧
      released.stage = .returned ∧
      (session.atlas.regions ['A'] 1).1 = [] ∧ session.atlas.textureCount = 0 := by
  intro before after s released session
  have hfree : s.isFree = true := by rfl
  have hreturned : released.stage = .returned := by rfl
  obtain ⟨hreturns, -⟩ := release_is_final .usual Running.spotStack (.threaded .empty) before
  obtain ⟨-, hfinal⟩ :=
    release_is_final .usual Running.spotStack (.threaded .empty) (before ++ releasing 3)
  obtain ⟨-, hregions, -, hcount, -⟩ := hfinal hreturned after
  exact ⟨hfree, hreturns hfree, hreturned, hregions ['A'] 1, hcount⟩

end Service

end Typecase
