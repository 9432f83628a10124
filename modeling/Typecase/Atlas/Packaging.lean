import Typecase.Atlas.Shelf
import Typecase.FontStack.Basic

/-!
# Packaging glyphs

Turning a drawn glyph into the bytes for a texture takes time, so it can be left to a worker.
A `Job` is a glyph with the rectangle reserved for it; jobs are queued together with a listener,
who gets them back packaged, in one `Delivery` for each run of consecutive jobs.

`Queue.step?` is one step of the worker: it takes all queued jobs as a batch, delivers the
batch run by run, and reports that it is idle again. `Queue.settle` lets it work until it has
to wait. Cancelling clears the queue (`Queue.cancel`) and then waits for the worker to end
(`Queue.finish`); afterwards nothing is queued any more.

A `Packager` either packages in place or leaves the work to a worker.
-/

namespace Typecase

/-- A glyph and the rectangle reserved for it. -/
structure Job where
  rect : Rect
  glyph : Glyph
  deriving Repr

/-- A job for a listener. -/
structure Ticket (ℓ : Type) where
  listener : ℓ
  job : Job
  deriving Repr

/-- Packaged jobs handed to a listener in one call. -/
structure Delivery (ℓ : Type) where
  listener : ℓ
  jobs : List Job
  deriving Repr

/-- Packages a job and gives the buffer of the drawn glyph back. -/
def Job.package (j : Job) (scale : Nat) (p : Pool) : Job × Pool :=
  let (g, p) := FontStack.package j.glyph scale p
  (⟨j.rect, g⟩, j.glyph.discard p)

/-- Packages jobs in order. -/
def Job.packageAll (scale : Nat) : List Job → Pool → List Job × Pool
  | [], p => ([], p)
  | j :: rest, p =>
    let (j, p) := j.package scale p
    let (rest, p) := packageAll scale rest p
    (j :: rest, p)

/-- What the worker is doing. -/
inductive Worker (ℓ : Type) where
  /-- It waits for jobs. -/
  | waiting
  /-- It holds the rest of a batch. -/
  | holding (batch : List (Ticket ℓ))
  /-- It has ended. -/
  | ended
  deriving Repr

/-- The jobs queued for the worker, what it is doing, and two flags: it is busy with a batch,
and packaging has been cancelled. -/
structure Queue (ℓ : Type) where
  tickets : List (Ticket ℓ)
  worker : Worker ℓ
  busy : Bool
  cancelled : Bool
  deriving Repr

namespace Queue

variable {ℓ : Type} [DecidableEq ℓ]

/-- A new worker without jobs. -/
def empty : Queue ℓ := ⟨[], .waiting, false, false⟩

/-- Queues a job; after cancelling, the job is refused. -/
def schedule? (q : Queue ℓ) (t : Ticket ℓ) : Option (Queue ℓ) :=
  if q.cancelled then none else some { q with tickets := q.tickets ++ [t] }

/-- Whether no job is queued or being worked on. -/
def isSuspended (q : Queue ℓ) : Bool := q.tickets.isEmpty && !q.busy

/-- Asks for the end: queued jobs are dropped and no more are taken. -/
def cancel (q : Queue ℓ) : Queue ℓ := { q with tickets := [], cancelled := true }

/-- A worker that has ended is not busy any more. -/
def finish (q : Queue ℓ) : Queue ℓ := { q with busy := false }

/-- Splits the first run of jobs for one listener off a batch that starts with `t`. -/
def firstRun (t : Ticket ℓ) (rest : List (Ticket ℓ)) : List (Ticket ℓ) × List (Ticket ℓ) :=
  let same := fun u : Ticket ℓ => decide (u.listener = t.listener)
  (t :: rest.takeWhile same, rest.dropWhile same)

/-- The outcome of a step: what was delivered, and the state afterwards. -/
structure Progress (ℓ : Type) where
  delivery : Option (Delivery ℓ)
  queue : Queue ℓ
  pool : Pool

/-- One step of the worker; none if it waits for jobs or has ended. -/
def step? (q : Queue ℓ) (scale : Nat) (p : Pool) : Option (Progress ℓ) :=
  match q.worker with
  | .ended => none
  | .waiting =>
    if q.cancelled then some ⟨none, { q with worker := .ended }, p⟩
    else if q.tickets.isEmpty then none
    else some ⟨none, { q with tickets := [], worker := .holding q.tickets, busy := true }, p⟩
  | .holding [] => some ⟨none, { q with worker := .waiting, busy := false }, p⟩
  | .holding (t :: rest) =>
    let run := firstRun t rest
    let (jobs, p) := Job.packageAll scale (run.1.map Ticket.job) p
    some ⟨some ⟨t.listener, jobs⟩, { q with worker := .holding run.2 }, p⟩

/-- A bound for the number of steps that the worker still takes on its own. -/
def work (q : Queue ℓ) : Nat :=
  3 * q.tickets.length +
    match q.worker with
    | .waiting => 1
    | .holding batch => batch.length + 2
    | .ended => 0

theorem work_lt_of_step? {q : Queue ℓ} {scale : Nat} {p : Pool} {r : Progress ℓ}
    (h : q.step? scale p = some r) : r.queue.work < q.work := by
  obtain ⟨tickets, worker, busy, cancelled⟩ := q
  cases worker with
  | ended => simp [step?] at h
  | waiting =>
    simp only [step?] at h
    split at h
    · obtain rfl := Option.some.inj h
      simp [work]
    · split at h
      · contradiction
      · rename_i hne
        obtain rfl := Option.some.inj h
        cases tickets with
        | nil => simp at hne
        | cons t rest => simp only [work, List.length_nil, List.length_cons]; omega
  | holding batch =>
    cases batch with
    | nil =>
      obtain rfl := Option.some.inj h
      simp [work]
    | cons t rest =>
      obtain rfl := Option.some.inj h
      have hle := List.IsSuffix.length_le
        (List.dropWhile_suffix (fun u : Ticket ℓ => decide (u.listener = t.listener)) (l := rest))
      simp only [work, firstRun, List.length_cons]
      omega

/-- Lets the worker go on until it waits for jobs or has ended; gives the deliveries in
order. -/
def settle (q : Queue ℓ) (scale : Nat) (p : Pool) : List (Delivery ℓ) × Queue ℓ × Pool :=
  match h : q.step? scale p with
  | none => ([], q, p)
  | some r =>
    have := work_lt_of_step? h
    let (deliveries, q, p) := r.queue.settle scale r.pool
    (r.delivery.toList ++ deliveries, q, p)
termination_by q.work

/-- The text that describes a queue. -/
def describe (q : Queue ℓ) : String :=
  "ThreadedGlyphGenerator \x7b queued: " ++ toString q.tickets.length ++ ", busy: " ++
    toString q.busy ++ ", cancelled: " ++ toString q.cancelled ++ " \x7d"

end Queue

/-- Packaging in place, or by a worker. -/
inductive Packager (ℓ : Type) where
  | immediate
  | threaded (queue : Queue ℓ)
  deriving Repr

namespace Packager

variable {ℓ : Type} [DecidableEq ℓ]

/-- Whether no job is queued or being worked on. -/
def isSuspended : Packager ℓ → Bool
  | .immediate => true
  | .threaded q => q.isSuspended

end Packager

/-- What textures draw on: a font stack, a packager with its enlargement, and the notices that
arose so far, the latest first. -/
structure Bench (ℓ : Type) where
  stack : FontStack
  packager : Packager ℓ
  scale : Nat
  journal : List Notice

namespace Bench

variable {ℓ : Type} [DecidableEq ℓ]

/-- Adds a notice. -/
def note (b : Bench ℓ) (n : Notice) : Bench ℓ := { b with journal := n :: b.journal }

/-- Hands a job to the packager. A packager that works in place gives the packaged job back to
its listener at once. -/
def schedule (b : Bench ℓ) (t : Ticket ℓ) : List Job × Bench ℓ :=
  match b.packager with
  | .immediate =>
    let (job, pool) := t.job.package b.scale b.stack.pool
    ([job], { b with stack := { b.stack with pool } })
  | .threaded q =>
    match q.schedule? t with
    | some q => ([], { b with packager := .threaded q })
    | none =>
      ([], { b with stack := b.stack.discard t.job.glyph }.note (.glyphRefused t.job.glyph.key.code))

/-- One step of the worker, if there is one and it can go on. -/
def step? (b : Bench ℓ) : Option (Option (Delivery ℓ) × Bench ℓ) :=
  match b.packager with
  | .immediate => none
  | .threaded q =>
    (q.step? b.scale b.stack.pool).map fun r =>
      (r.delivery, { b with stack := { b.stack with pool := r.pool }, packager := .threaded r.queue })

/-- Lets the worker go on until it waits; gives the deliveries in order. -/
def settle (b : Bench ℓ) : List (Delivery ℓ) × Bench ℓ :=
  match b.packager with
  | .immediate => ([], b)
  | .threaded q =>
    let (deliveries, q, pool) := q.settle b.scale b.stack.pool
    (deliveries, { b with stack := { b.stack with pool }, packager := .threaded q })

/-- Asks the worker to end. A packager that works in place has nothing to cancel. -/
def cancel (b : Bench ℓ) : Bench ℓ :=
  match b.packager with
  | .immediate => b
  | .threaded q => { b with packager := .threaded q.cancel }

/-- Takes note that the worker has ended. -/
def finish (b : Bench ℓ) : Bench ℓ :=
  match b.packager with
  | .immediate => b
  | .threaded q => { b with packager := .threaded q.finish }

/-- Cancels packaging and waits for the worker to end; gives what it still delivered. -/
def shutDown (b : Bench ℓ) : List (Delivery ℓ) × Bench ℓ :=
  let (deliveries, b) := b.cancel.settle
  (deliveries, b.finish)

end Bench

end Typecase
