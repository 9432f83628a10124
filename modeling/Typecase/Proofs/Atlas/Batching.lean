import Typecase.Proofs.Atlas.Delivering
import Typecase.Proofs.Atlas.Releasing

/-!
# Batches

A worker takes all queued jobs as a batch. While it holds one it is past cancelling: packaging may
be cancelled at any time, but a batch that was taken is delivered.

* **Cancelled queues.** After cancelling, nothing is queued, and once the worker has ended and this
  was noted, packaging is idle for good (`Queue.IsOver`).
* **Taken and held.** `Queue.taken` is the batch that a step of the worker takes, and `Queue.held`
  what is left of it. A batch comes from the front of the queue (`Queue.tickets_step?`), and a step
  delivers the first jobs that the worker holds (`Queue.held_step?`). After cancelling no batch is
  taken (`Queue.IsCancelled.taken`).
* **Books.** What was delivered, followed by what the worker holds, is what it has taken
  (`Dispatch.IsBooked`). Everything that happens to a packager keeps this, cancelling included.
-/

namespace Typecase

variable {ℓ : Type}

namespace Queue

variable {q : Queue ℓ} {scale : Nat} {p : Pool}

/-! ### Cancelled queues -/

/-- Packaging was cancelled, the worker has ended, and it is not busy. -/
structure IsOver (q : Queue ℓ) : Prop where
  cancelled : q.IsCancelled
  ended : q.hasEnded = true
  idle : q.busy = false

theorem isCancelled_cancel (q : Queue ℓ) : q.cancel.IsCancelled := ⟨rfl, rfl⟩

/-- Cancelling again changes nothing. -/
theorem IsOver.cancel (h : q.IsOver) : q.cancel.IsOver :=
  ⟨q.isCancelled_cancel, h.ended, h.idle⟩

theorem IsCancelled.finish (h : q.IsCancelled) (hended : q.hasEnded = true) : q.finish.IsOver :=
  ⟨⟨h.cancelled, h.tickets⟩, hended, rfl⟩

theorem IsOver.isSuspended (h : q.IsOver) : q.isSuspended = true := by
  rw [Queue.isSuspended, h.cancelled.tickets, h.idle]
  rfl

/-- The rest of the batch that the worker holds. -/
def held (q : Queue ℓ) : List (Ticket ℓ) :=
  match q.worker with
  | .holding batch => batch
  | _ => []

theorem owed_eq (q : Queue ℓ) : q.owed = q.held ++ q.tickets := by
  obtain ⟨tickets, worker, busy, cancelled⟩ := q
  cases worker <;> rfl

theorem held_of_hasEnded (h : q.hasEnded = true) : q.held = [] := by
  obtain ⟨tickets, worker, busy, cancelled⟩ := q
  cases worker with
  | ended => rfl
  | waiting => contradiction
  | holding batch => contradiction

/-- The batch that the worker has taken on the way from one state to another: it was waiting, and
now it holds one. -/
def taken (q q' : Queue ℓ) : List (List (Ticket ℓ)) :=
  match q.worker, q'.worker with
  | .waiting, .holding batch => [batch]
  | _, _ => []

variable [DecidableEq ℓ]

theorem step?_of_hasEnded (h : q.hasEnded = true) : q.step? scale p = none := by
  obtain ⟨tickets, worker, busy, cancelled⟩ := q
  cases worker with
  | ended => rfl
  | waiting => contradiction
  | holding batch => contradiction

/-- A batch is taken from the front of the queue. -/
theorem tickets_step? {r : Progress ℓ} (h : q.step? scale p = some r) :
    q.tickets = (q.taken r.queue).flatten ++ r.queue.tickets := by
  obtain ⟨tickets, worker, busy, cancelled⟩ := q
  cases worker with
  | ended => contradiction
  | waiting =>
    simp only [step?] at h
    split at h
    · obtain rfl := Option.some.inj h
      rfl
    · split at h
      · contradiction
      · obtain rfl := Option.some.inj h
        exact (List.append_nil _).symm.trans (congrArg (· ++ []) (List.append_nil _).symm)
  | holding batch => cases batch <;> obtain rfl := Option.some.inj h <;> rfl

/-- After cancelling, no batch is taken. -/
theorem IsCancelled.taken {r : Progress ℓ} (h : q.IsCancelled) (hr : q.step? scale p = some r) :
    q.taken r.queue = [] := by
  obtain ⟨tickets, worker, busy, cancelled⟩ := q
  obtain rfl : cancelled = true := h.cancelled
  cases worker with
  | ended => contradiction
  | waiting =>
    obtain rfl := Option.some.inj hr
    rfl
  | holding batch => rfl

/-- **A step of the worker delivers the first jobs that it holds**, or takes a batch. -/
theorem held_step? {r : Progress ℓ} (hp : p.IsTidy) (h : q.step? scale p = some r) :
    r.pool.IsTidy ∧ ∃ run, q.held ++ (q.taken r.queue).flatten = run ++ r.queue.held ∧
      r.delivery.toList.flatMap Delivery.tickets = run.map (Ticket.finished scale) := by
  obtain ⟨htidy, run, howed, hrun⟩ := owed_step? hp h
  refine ⟨htidy, run, ?_, hrun⟩
  rw [owed_eq, owed_eq, tickets_step? h, ← List.append_assoc, ← List.append_assoc] at howed
  exact List.append_cancel_right howed

end Queue

/-! ### Books -/

namespace Dispatch

/-- The queue of the worker. When packaging is done in place, nothing is ever queued. -/
def queue (d : Dispatch ℓ) : Queue ℓ :=
  match d.bench.packager with
  | .immediate => .empty
  | .threaded q => q

/-- **What was delivered and what the worker holds is what it has taken**, packaged at a scale. -/
structure IsBooked (d : Dispatch ℓ) (scale : Nat) (batches : List (List (Ticket ℓ))) : Prop where
  threaded : d.bench.packager = .threaded d.queue
  tidy : d.bench.stack.pool.IsTidy
  enlarged : d.bench.scale = scale
  kept : d.delivered ++ d.queue.held.map (Ticket.finished scale) =
    batches.flatten.map (Ticket.finished scale)

variable {d : Dispatch ℓ} {scale : Nat} {batches : List (List (Ticket ℓ))}

theorem IsBooked.withPool (h : d.IsBooked scale batches) {p : Pool} (hp : p.IsTidy) :
    (d.withPool p).IsBooked scale batches := ⟨h.threaded, hp, h.enlarged, h.kept⟩

/-- Packaging is cancelled. -/
def cancel (d : Dispatch ℓ) : Dispatch ℓ := { d with bench := d.bench.cancel }

/-- It is noted that the worker has ended. -/
def finish (d : Dispatch ℓ) : Dispatch ℓ := { d with bench := d.bench.finish }

theorem IsBooked.cancel (h : d.IsBooked scale batches) :
    d.cancel.queue = d.queue.cancel ∧ d.cancel.IsBooked scale batches := by
  obtain ⟨⟨stack, packager, scale', journal⟩, deliveries⟩ := d
  cases packager with
  | immediate => nomatch h.threaded
  | threaded q => exact ⟨rfl, rfl, h.tidy, h.enlarged, h.kept⟩

theorem IsBooked.finish (h : d.IsBooked scale batches) :
    d.finish.queue = d.queue.finish ∧ d.finish.IsBooked scale batches := by
  obtain ⟨⟨stack, packager, scale', journal⟩, deliveries⟩ := d
  cases packager with
  | immediate => nomatch h.threaded
  | threaded q => exact ⟨rfl, rfl, h.tidy, h.enlarged, h.kept⟩

variable [DecidableEq ℓ]

/-- The worker goes on until it waits for jobs or has ended. -/
def settle (d : Dispatch ℓ) : Dispatch ℓ := ⟨d.bench.settle.2, d.deliveries ++ d.bench.settle.1⟩

/-- Packaging is cancelled in one go. -/
def shutDown (d : Dispatch ℓ) : Dispatch ℓ :=
  ⟨d.bench.shutDown.2, d.deliveries ++ d.bench.shutDown.1⟩

/-- The worker goes on. -/
theorem IsBooked.work {r : Queue.Progress ℓ} (h : d.IsBooked scale batches)
    (hr : d.queue.step? d.bench.scale d.bench.stack.pool = some r) :
    (d.move .work).queue = r.queue ∧
      (d.move .work).IsBooked scale (batches ++ d.queue.taken r.queue) := by
  obtain ⟨⟨stack, packager, scale', journal⟩, deliveries⟩ := d
  obtain ⟨hthreaded, htidy, rfl, hkept⟩ := h
  cases packager with
  | immediate => contradiction
  | threaded q =>
    have hstep : q.step? scale' stack.pool = some r := hr
    obtain ⟨htidy', run, hheld, hrun⟩ := Queue.held_step? htidy hstep
    have hkept' : deliveries.flatMap Delivery.tickets ++ q.held.map (Ticket.finished scale') =
      batches.flatten.map (Ticket.finished scale') := hkept
    rw [move_work hstep]
    refine ⟨rfl, rfl, htidy', rfl, ?_⟩
    change (deliveries ++ r.delivery.toList).flatMap Delivery.tickets ++ r.queue.held.map _ =
      (batches ++ q.taken r.queue).flatten.map _
    rw [List.flatMap_append, hrun, List.append_assoc, ← List.map_append, ← hheld, List.map_append,
      ← List.append_assoc, hkept', List.flatten_append, List.map_append]

/-- A job is queued, or refused after cancelling. -/
theorem IsBooked.schedule (h : d.IsBooked scale batches) (t : Ticket ℓ) :
    (d.move (.schedule t)).queue = (d.queue.schedule? t).getD d.queue ∧
      (d.move (.schedule t)).IsBooked scale batches ∧
      (d.move (.schedule t)).deliveries = d.deliveries := by
  obtain ⟨⟨stack, packager, scale', journal⟩, deliveries⟩ := d
  obtain ⟨hthreaded, htidy, rfl, hkept⟩ := h
  cases packager with
  | immediate => contradiction
  | threaded q =>
    cases hq : q.schedule? t with
    | none =>
      have hmove : move ⟨⟨stack, .threaded q, scale', journal⟩, deliveries⟩ (.schedule t) =
          ⟨⟨stack.discard t.job.glyph, .threaded q, scale',
            .glyphRefused t.job.glyph.key.code :: journal⟩, deliveries⟩ := by
        simp [move, Bench.schedule, Bench.note, hq]
      rw [hmove]
      refine ⟨?_, ⟨rfl, Glyph.isTidy_discard htidy _, rfl, hkept⟩, rfl⟩
      exact (congrArg (·.getD q) hq).symm
    | some q' =>
      have hmove : move ⟨⟨stack, .threaded q, scale', journal⟩, deliveries⟩ (.schedule t) =
          ⟨⟨stack, .threaded q', scale', journal⟩, deliveries⟩ := by
        simp [move, Bench.schedule, hq]
      have hheld : q'.held = q.held := by
        rw [Queue.schedule?] at hq
        split at hq
        · contradiction
        · obtain rfl := Option.some.inj hq
          rfl
      rw [hmove]
      refine ⟨(congrArg (·.getD q) hq).symm, ⟨rfl, htidy, rfl, ?_⟩, rfl⟩
      change deliveries.flatMap Delivery.tickets ++ q'.held.map _ = _
      rw [hheld]
      exact hkept

end Dispatch

end Typecase
