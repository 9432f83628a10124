import Typecase.Proofs.Atlas.Gating

/-!
# What the packager delivers

A packager gets jobs for listeners and hands them back packaged. One that packages in place does so
at once; a worker collects jobs, takes all of them as a batch and delivers the batch run by run,
while more jobs come in. A `Dispatch` is a packager at work together with everything that it has
delivered, and a list of its moves is an interleaving of the caller, the worker and the others who
share the pool.

* **Conservation.** What was delivered, followed by what the packager still owes, is what was
  scheduled, each job packaged (`IsFair`). Owed are the rest of the batch that the worker holds and
  then the jobs that are queued (`Queue.owed`). Every move keeps this (`IsFair.move`).
* **Order.** So the deliveries are a prefix of what was scheduled at any moment. When packaging is
  idle nothing is owed: every listener has its own jobs, in order and each of them once, as if they
  had been packaged in place (`received_of_isSuspended`).
* **Progress.** Left alone, the worker becomes idle after finitely many steps
  (`IsFair.exists_isSuspended`).
-/

namespace Typecase

variable {ℓ : Type}

/-- The jobs of a delivery, each with its listener. -/
def Delivery.tickets (d : Delivery ℓ) : List (Ticket ℓ) := d.jobs.map fun j => ⟨d.listener, j⟩

/-- The same ticket for the packaged job. -/
def Ticket.finished (scale : Nat) (t : Ticket ℓ) : Ticket ℓ :=
  ⟨t.listener, ⟨t.job.rect, (FontStack.package t.job.glyph scale .empty).1⟩⟩

/-! ### Owed jobs -/

theorem Job.packageAll_spec (scale : Nat) {p : Pool} (h : p.IsTidy) (jobs : List Job) :
    (Job.packageAll scale jobs p).1 =
        jobs.map (fun j => ⟨j.rect, (FontStack.package j.glyph scale .empty).1⟩) ∧
      (Job.packageAll scale jobs p).2.IsTidy := by
  induction jobs generalizing p with
  | nil => exact ⟨rfl, h⟩
  | cons j rest ih =>
    obtain ⟨hjobs, htidy⟩ := ih (j.isTidy_package scale h)
    refine ⟨?_, htidy⟩
    rw [Job.packageAll, List.map_cons, ← hjobs, ← j.fst_package scale h]

namespace Queue

variable {q : Queue ℓ} {scale : Nat} {p : Pool}

/-- The jobs that were scheduled and not delivered yet, in order: what the worker holds, and what is
queued behind it. -/
def owed (q : Queue ℓ) : List (Ticket ℓ) :=
  (match q.worker with
    | .holding batch => batch
    | _ => []) ++ q.tickets

/-- At rest, nothing is owed. -/
theorem IsAtRest.owed_eq_nil (h : q.IsAtRest) : q.owed = [] := by
  rw [owed, h.worker, h.tickets]
  rfl

theorem owed_schedule? {q' : Queue ℓ} {t : Ticket ℓ} (h : q.schedule? t = some q') :
    q'.owed = q.owed ++ [t] := by
  rw [Queue.schedule?] at h
  split at h
  · contradiction
  · obtain rfl := Option.some.inj h
    rw [owed, owed, List.append_assoc]

variable [DecidableEq ℓ]

theorem firstRun_append (t : Ticket ℓ) (rest : List (Ticket ℓ)) :
    (firstRun t rest).1 ++ (firstRun t rest).2 = t :: rest :=
  congrArg (t :: ·) List.takeWhile_append_dropWhile

theorem listener_of_mem_firstRun {t u : Ticket ℓ} {rest : List (Ticket ℓ)}
    (h : u ∈ (firstRun t rest).1) : u.listener = t.listener := by
  rcases List.mem_cons.mp h with rfl | hmem
  · rfl
  · exact of_decide_eq_true (List.all_eq_true.mp List.all_takeWhile u hmem)

/-- **A step of the worker delivers the first jobs that are owed**, packaged and in order; a step
that delivers nothing leaves everything owed. -/
theorem owed_step? {r : Progress ℓ} (hp : p.IsTidy) (h : q.step? scale p = some r) :
    r.pool.IsTidy ∧ ∃ run, q.owed = run ++ r.queue.owed ∧
      r.delivery.toList.flatMap Delivery.tickets = run.map (Ticket.finished scale) := by
  obtain ⟨tickets, worker, busy, cancelled⟩ := q
  cases worker with
  | ended => contradiction
  | waiting =>
    simp only [step?] at h
    split at h
    · obtain rfl := Option.some.inj h
      exact ⟨hp, [], rfl, rfl⟩
    · split at h
      · contradiction
      · obtain rfl := Option.some.inj h
        exact ⟨hp, [], (List.append_nil tickets).symm, rfl⟩
  | holding batch =>
    cases batch with
    | nil =>
      obtain rfl := Option.some.inj h
      exact ⟨hp, [], rfl, rfl⟩
    | cons t rest =>
      obtain rfl := Option.some.inj h
      obtain ⟨hjobs, htidy⟩ := Job.packageAll_spec scale hp ((firstRun t rest).1.map Ticket.job)
      refine ⟨htidy, (firstRun t rest).1, ?_, ?_⟩
      · change (t :: rest) ++ tickets = _ ++ (_ ++ tickets)
        rw [← List.append_assoc, firstRun_append]
      · rw [Option.toList_some, List.flatMap_singleton, Delivery.tickets, hjobs, List.map_map,
          List.map_map]
        refine List.map_congr_left fun u hu => ?_
        rw [Ticket.finished, listener_of_mem_firstRun hu]
        rfl

/-- A worker that is not idle can go on. -/
theorem IsSteady.exists_step? (h : q.IsSteady) (hs : q.isSuspended = false) :
    ∃ r, q.step? scale p = some r := by
  obtain ⟨tickets, worker, busy, cancelled⟩ := q
  obtain ⟨hgoing, halive, hbusy⟩ := h
  cases worker with
  | ended => exact absurd rfl halive
  | holding batch => cases batch <;> exact ⟨_, rfl⟩
  | waiting =>
    obtain rfl : cancelled = false := hgoing
    obtain rfl : busy = false := Bool.eq_false_iff.mpr fun hb => hbusy.mp hb rfl
    cases tickets with
    | nil => contradiction
    | cons t rest => exact ⟨_, rfl⟩

end Queue

/-! ### A packager at work -/

/-- A packager with the bench that it works on, and what it has delivered so far. -/
structure Dispatch (ℓ : Type) where
  bench : Bench ℓ
  deliveries : List (Delivery ℓ)

namespace Dispatch

/-- Something that happens to a packager at work. -/
inductive Move (ℓ : Type) where
  /-- The caller schedules a job. -/
  | schedule (t : Ticket ℓ)
  /-- The worker takes a step. -/
  | work
  /-- Someone else takes a buffer from the pool. -/
  | take (size : Nat)
  /-- Someone else gives a buffer back. -/
  | give (b : Bytes)

/-- A packager without work. The pool starts out empty. -/
def start (stack : FontStack) (scale : Nat) (packager : Packager ℓ) : Dispatch ℓ :=
  ⟨⟨{ stack with pool := .empty }, packager, scale, []⟩, []⟩

/-- The same packager with another pool. -/
def withPool (s : Dispatch ℓ) (p : Pool) : Dispatch ℓ :=
  { s with bench := { s.bench with stack := { s.bench.stack with pool := p } } }

/-- What was delivered, job by job. -/
def delivered (s : Dispatch ℓ) : List (Ticket ℓ) := s.deliveries.flatMap Delivery.tickets

/-- The jobs that are scheduled by a list of moves, in order. -/
def scheduled (moves : List (Move ℓ)) : List (Ticket ℓ) :=
  moves.filterMap fun
    | .schedule t => some t
    | _ => none

/-! ### Conservation -/

/-- The jobs that a packager still owes. In place, nothing is left over. -/
def owed (s : Dispatch ℓ) : List (Ticket ℓ) :=
  match s.bench.packager with
  | .immediate => []
  | .threaded q => q.owed

/-- **What was delivered and what is owed is what is due**, packaged at a scale. The worker is
steady, and the pool is tidy. -/
structure IsFair (s : Dispatch ℓ) (scale : Nat) (due : List (Ticket ℓ)) : Prop where
  tidy : s.bench.stack.pool.IsTidy
  enlarged : s.bench.scale = scale
  steady : ∀ q, s.bench.packager = .threaded q → q.IsSteady
  conserved : s.delivered ++ s.owed.map (Ticket.finished scale) = due.map (Ticket.finished scale)

variable {s : Dispatch ℓ} {scale : Nat} {due : List (Ticket ℓ)}

theorem isFair_start (stack : FontStack) (scale : Nat) {k : Packager ℓ}
    (hk : k = .immediate ∨ k = .threaded .empty) : (start stack scale k).IsFair scale [] := by
  refine ⟨Pool.isTidy_empty, rfl, fun q hq => ?_, ?_⟩
  · rcases hk with rfl | rfl
    · contradiction
    · obtain rfl := Packager.threaded.inj hq
      exact Queue.isSteady_empty
  · rcases hk with rfl | rfl <;> rfl

theorem IsFair.withPool (h : s.IsFair scale due) {p : Pool} (hp : p.IsTidy) :
    (s.withPool p).IsFair scale due := ⟨hp, h.enlarged, h.steady, h.conserved⟩

/-- When packaging is idle, nothing is owed. -/
theorem IsFair.delivered_eq (h : s.IsFair scale due) (hs : s.bench.packager.isSuspended = true) :
    s.delivered = due.map (Ticket.finished scale) := by
  have hnone : s.owed = [] := by
    rw [owed]
    split
    · rfl
    · rename_i q hq
      rw [hq] at hs
      exact ((h.steady q hq).isAtRest hs).owed_eq_nil
  rw [← h.conserved, hnone, List.map_nil, List.append_nil]

variable [DecidableEq ℓ]

/-- The packager after a move. The jobs that come back from scheduling are a delivery. -/
def move (s : Dispatch ℓ) : Move ℓ → Dispatch ℓ
  | .schedule t =>
    let (jobs, bench) := s.bench.schedule t
    ⟨bench, s.deliveries ++ if jobs.isEmpty then [] else [⟨t.listener, jobs⟩]⟩
  | .work => s.bench.step?.elim s fun r => ⟨r.2, s.deliveries ++ r.1.toList⟩
  | .take size => s.withPool (s.bench.stack.pool.reserve size).2
  | .give b => s.withPool (s.bench.stack.pool.release b)

/-- The packager after moves made in order. -/
def run (s : Dispatch ℓ) (moves : List (Move ℓ)) : Dispatch ℓ := moves.foldl move s

theorem move_work {stack : FontStack} {q : Queue ℓ} {journal : List Notice}
    {deliveries : List (Delivery ℓ)} {r : Queue.Progress ℓ}
    (hr : q.step? scale stack.pool = some r) :
    move ⟨⟨stack, .threaded q, scale, journal⟩, deliveries⟩ .work =
      ⟨⟨{ stack with pool := r.pool }, .threaded r.queue, scale, journal⟩,
        deliveries ++ r.delivery.toList⟩ := by
  simp [move, Bench.step?, hr]

/-- A job that is scheduled is delivered at once or owed. -/
theorem IsFair.schedule (h : s.IsFair scale due) (t : Ticket ℓ) :
    (s.move (.schedule t)).IsFair scale (due ++ [t]) := by
  obtain ⟨⟨stack, packager, scale, journal⟩, deliveries⟩ := s
  obtain ⟨htidy, rfl, hsteady, hconserved⟩ := h
  cases packager with
  | immediate =>
    have hjob := t.job.fst_package scale htidy
    have htidy' := t.job.isTidy_package scale htidy
    have hmove : move ⟨⟨stack, .immediate, scale, journal⟩, deliveries⟩ (.schedule t) =
        ⟨⟨{ stack with pool := (t.job.package scale stack.pool).2 }, .immediate, scale, journal⟩,
          deliveries ++ [⟨t.listener, [(t.job.package scale stack.pool).1]⟩]⟩ := rfl
    rw [hmove, hjob]
    have hdue : deliveries.flatMap Delivery.tickets = due.map (Ticket.finished scale) := by
      rw [← hconserved]
      exact (List.append_nil _).symm
    refine ⟨htidy', rfl, fun q hq => by contradiction, ?_⟩
    simp [delivered, owed, hdue, Delivery.tickets, Ticket.finished]
  | threaded q =>
    have hq : q.IsSteady := hsteady q rfl
    obtain ⟨q', hq'⟩ : ∃ q', q.schedule? t = some q' :=
      ⟨_, if_neg (Bool.eq_false_iff.mp hq.going)⟩
    have hmove : move ⟨⟨stack, .threaded q, scale, journal⟩, deliveries⟩ (.schedule t) =
        ⟨⟨stack, .threaded q', scale, journal⟩, deliveries⟩ := by
      simp [move, Bench.schedule, hq']
    rw [hmove]
    refine ⟨htidy, rfl, fun q'' h'' => Packager.threaded.inj h'' ▸ hq.schedule? hq', ?_⟩
    change deliveries.flatMap Delivery.tickets ++ q'.owed.map _ = _
    rw [Queue.owed_schedule? hq', List.map_append, List.map_append, ← List.append_assoc]
    exact congrArg (· ++ _) hconserved

/-- The worker delivers what it owes. -/
theorem IsFair.work (h : s.IsFair scale due) : (s.move .work).IsFair scale due := by
  obtain ⟨⟨stack, packager, scale, journal⟩, deliveries⟩ := s
  obtain ⟨htidy, rfl, hsteady, hconserved⟩ := h
  cases packager with
  | immediate => exact ⟨htidy, rfl, hsteady, hconserved⟩
  | threaded q =>
    have hq : q.IsSteady := hsteady q rfl
    cases hr : q.step? scale stack.pool with
    | none =>
      have hmove : move ⟨⟨stack, .threaded q, scale, journal⟩, deliveries⟩ .work =
          ⟨⟨stack, .threaded q, scale, journal⟩, deliveries⟩ := by
        simp [move, Bench.step?, hr]
      rw [hmove]
      exact ⟨htidy, rfl, hsteady, hconserved⟩
    | some r =>
      obtain ⟨htidy', run, howed, hrun⟩ := Queue.owed_step? htidy hr
      rw [move_work hr]
      refine ⟨htidy', rfl, fun q'' h'' => Packager.threaded.inj h'' ▸ hq.step? hr, ?_⟩
      change (deliveries ++ r.delivery.toList).flatMap Delivery.tickets ++ r.queue.owed.map _ = _
      rw [List.flatMap_append, hrun, List.append_assoc, ← List.map_append, ← howed]
      exact hconserved

/-- **Every move is fair**: what becomes due is what the move schedules. -/
theorem IsFair.move (h : s.IsFair scale due) (m : Move ℓ) :
    (s.move m).IsFair scale (due ++ scheduled [m]) := by
  cases m with
  | schedule t => exact h.schedule t
  | work => exact (List.append_nil due).symm ▸ h.work
  | take size => exact (List.append_nil due).symm ▸ h.withPool (h.tidy.reserve size)
  | give b => exact (List.append_nil due).symm ▸ h.withPool (h.tidy.release b)

theorem IsFair.run (h : s.IsFair scale due) (moves : List (Move ℓ)) :
    (s.run moves).IsFair scale (due ++ scheduled moves) := by
  induction moves generalizing s due with
  | nil => exact (List.append_nil due).symm ▸ h
  | cons m rest ih =>
    have hsplit : scheduled (m :: rest) = scheduled [m] ++ scheduled rest :=
      List.filterMap_append (l := [m])
    rw [hsplit, ← List.append_assoc]
    exact ih (h.move m)

/-- **Left alone, the worker becomes idle.** Every step of it leaves less work. -/
theorem IsFair.exists_isSuspended (h : s.IsFair scale due) :
    ∃ n, (s.run (List.replicate n .work)).bench.packager.isSuspended = true := by
  obtain ⟨⟨stack, packager, scale, journal⟩, deliveries⟩ := s
  cases packager with
  | immediate => exact ⟨0, rfl⟩
  | threaded q =>
    -- The induction is on the work that is left, over everything that a step changes.
    induction hwork : q.work using Nat.strongRecOn generalizing stack q deliveries with
    | ind work ih =>
      cases hs : q.isSuspended with
      | true => exact ⟨0, hs⟩
      | false =>
        have hstep : ∃ r, q.step? scale stack.pool = some r := (h.steady q rfl).exists_step? hs
        obtain ⟨r, hr⟩ := hstep
        have hnext := h.work
        rw [move_work hr] at hnext
        obtain ⟨n, hn⟩ := ih _ (hwork ▸ Queue.work_lt_of_step? hr) _ _ _ hnext rfl
        refine ⟨n + 1, ?_⟩
        rw [List.replicate_succ, Dispatch.run, List.foldl_cons, move_work hr]
        exact hn

/-! ### Listeners -/

/-- In place, packaging is always idle. -/
theorem immediate_run (hs : s.bench.packager = .immediate) (moves : List (Move ℓ)) :
    (s.run moves).bench.packager = .immediate := by
  induction moves generalizing s with
  | nil => exact hs
  | cons m rest ih =>
    refine ih ?_
    obtain ⟨⟨stack, packager, scale, journal⟩, deliveries⟩ := s
    obtain rfl : packager = .immediate := hs
    cases m <;> rfl

/-- What a listener has received: its deliveries one after the other. -/
def received (s : Dispatch ℓ) (listener : ℓ) : List Job :=
  (s.deliveries.filter (·.listener = listener)).flatMap Delivery.jobs

theorem received_eq (s : Dispatch ℓ) (listener : ℓ) :
    s.received listener = (s.delivered.filter (·.listener = listener)).map Ticket.job := by
  rw [received, delivered]
  induction s.deliveries with
  | nil => rfl
  | cons d rest ih =>
    have hfirst : (d.tickets.filter (·.listener = listener)).map Ticket.job =
        if d.listener = listener then d.jobs else [] := by
      rw [Delivery.tickets, List.filter_map, List.map_map]
      by_cases hd : d.listener = listener <;> simp [Function.comp_def, hd]
    rw [List.flatMap_cons, List.filter_append, List.map_append, ← ih, hfirst, List.filter_cons]
    by_cases hd : d.listener = listener <;> simp [hd]

/-- **Whatever the interleaving, every listener gets its own jobs.** Jobs are scheduled one after
the other for a worker that is not cancelled, while the worker goes on and others use the pool. In
place they would all be delivered at once, packaged, in order. What the worker has delivered so far
is a prefix of this. When packaging is idle it is all of it, and each listener has received the jobs
that were scheduled for it. Left alone, the worker gets there. -/
theorem received_of_isSuspended (stack : FontStack) (scale : Nat) (moves : List (Move ℓ)) :
    let s := (start stack scale (.threaded .empty)).run moves
    let inPlace := (start stack scale .immediate).run moves
    inPlace.delivered = (scheduled moves).map (Ticket.finished scale) ∧
      s.delivered <+: inPlace.delivered ∧
      (s.bench.packager.isSuspended = true →
        s.delivered = inPlace.delivered ∧
        ∀ l, s.received l = ((scheduled moves).filter (·.listener = l)).map (fun t =>
            ⟨t.job.rect, (FontStack.package t.job.glyph scale .empty).1⟩) ∧
          s.received l = inPlace.received l) ∧
      ∃ n, (s.run (List.replicate n .work)).bench.packager.isSuspended = true := by
  intro s inPlace
  have h : s.IsFair scale (scheduled moves) := (isFair_start stack scale (.inr rfl)).run moves
  have hplace : inPlace.IsFair scale (scheduled moves) :=
    (isFair_start stack scale (.inl rfl)).run moves
  have hidle : inPlace.bench.packager = .immediate := immediate_run rfl moves
  have hall := hplace.delivered_eq (by rw [hidle]; rfl)
  refine ⟨hall, ?_, fun hs => ⟨?_, fun l => ⟨?_, ?_⟩⟩, h.exists_isSuspended⟩
  · exact ⟨_, h.conserved.trans hall.symm⟩
  · rw [h.delivered_eq hs, hall]
  · rw [received_eq, h.delivered_eq hs, List.filter_map, List.map_map]
    rfl
  · rw [received_eq, received_eq, h.delivered_eq hs, hall]

end Dispatch

end Typecase
