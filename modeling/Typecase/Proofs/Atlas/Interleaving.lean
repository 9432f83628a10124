import Typecase.Proofs.Atlas.Session

/-!
# Calls and the worker, step by step

Requests and updates take a while, and the packaging worker goes on in the meantime. A `Running`
session has at most one call under way, and `Running.move` is one move in it: the owner begins a
call or takes the next step of it, the worker takes a step, or free buffers change hands. A list of
moves is an interleaving; a move that cannot be made changes nothing.

* **The steps of a request** are the choice of the page, every single character, and the end of
  every line, where it is noted that something new was asked for.
* **The steps of an update** are the question whether packaging is idle, the exchange of the flag
  `quiet`, the pages one by one, and the flush. An update that is passed over is `passing`.
* **The steps of the worker** are those of `Atlas.step?`: it takes all queued jobs, delivers them
  run by run, and reports that it is idle. The pool is shared with everyone who still holds a
  buffer, so that free buffers may come and go at any moment.

Left alone, a call does what `Session.perform` does in one go (`leads_perform`), so that the runs of
whole calls are among the interleavings (`exists_run_eq_performAll`).
-/

namespace Typecase

/-- How far the call of the owner has come. -/
inductive Call where
  /-- No call is under way. -/
  | resting
  /-- A request looks up the rest of a line in a page; whether something in the line was new, and
  the lines that follow. -/
  | asking (id : Nat) (size : Int) (line : List Char) (isNew : Bool) (rest : List (List Char))
  /-- An update has seen that packaging is idle. -/
  | gating
  /-- An update is passed over. -/
  | passing
  /-- An update still has pages to upload. -/
  | uploading (ids : List Nat)
  deriving DecidableEq, Repr

namespace Call

/-- The next line of a request, or its end. -/
def nextLine (id : Nat) (size : Int) : List (List Char) → Call
  | [] => .resting
  | line :: rest => .asking id size line false rest

end Call

/-- Something that happens in a running session. -/
inductive Move where
  /-- The owner begins a request. -/
  | request (lines : List (List Char)) (size : Int)
  /-- The owner begins an update. -/
  | update
  /-- The owner takes the next step of the call under way. -/
  | proceed
  /-- The worker takes a step. -/
  | work
  /-- Free buffers come or go. -/
  | recycle (pool : Pool)

/-- A session with the call that is under way. -/
structure Running where
  session : Session
  call : Call

namespace Running

variable {r r' r'' : Running}

/-- A new session with a packager, and no call under way. -/
def start (settings : AtlasSettings) (stack : FontStack) (packager : Packager Nat) : Running :=
  ⟨⟨.ofStack settings stack packager, .empty, []⟩, .resting⟩

/-- The same session with another atlas. -/
def withAtlas (r : Running) (a : Atlas) (call : Call) : Running :=
  ⟨{ r.session with atlas := a }, call⟩

/-- A request begins: it finds its page, and turns to the first line. -/
def ask (r : Running) (lines : List (List Char)) (size : Int) : Running :=
  let a := r.session.atlas
  if a.released then r.withAtlas (a.note .lookupAfterRelease) .resting
  else
    let (group, a) := a.choose lines size
    let (id, a) := a.pageOf group
    r.withAtlas a (.nextLine id size lines)

/-- An update turns to the pages, unless the atlas was released. -/
def turnToPages (r : Running) (a : Atlas) : Running :=
  r.withAtlas a (if a.released then .resting else .uploading a.listed)

/-- An update begins: if packaging is under way it goes on at once. -/
def beginUpdate (r : Running) : Running :=
  let a := r.session.atlas
  if a.isPackaging then r.turnToPages a else r.withAtlas a .gating

/-- The next step of the call under way. -/
def proceed (r : Running) : Running :=
  let a := r.session.atlas
  match r.call with
  | .resting => r
  | .asking id size [] isNew rest =>
    r.withAtlas { a with quiet := a.quiet && !isNew } (.nextLine id size rest)
  | .asking id size (c :: line) isNew rest =>
    match a.page? id with
    | none => r.withAtlas { a with quiet := a.quiet && !isNew } (.nextLine id size rest)
    | some p =>
      let f := p.place a.bench c size
      r.withAtlas { a.setPage id f.page with bench := f.bench }
        (.asking id size line (isNew || f.isNew) rest)
  | .gating =>
    if a.quiet then r.withAtlas a .passing else r.turnToPages { a with quiet := true }
  | .passing => r.withAtlas a .resting
  | .uploading [] => ⟨{ r.session with calls := r.session.calls ++ [.flush] }, .resting⟩
  | .uploading (id :: ids) =>
    match a.page? id with
    | none => r.withAtlas a (.uploading ids)
    | some p =>
      let (p, t) := p.upload ⟨r.session.calls, r.session.device, a.bench.stack⟩
      ⟨⟨{ a.setPage id p with bench := { a.bench with stack := t.stack } }, t.device, t.calls⟩,
        .uploading ids⟩

/-- The session after a move. -/
def move (r : Running) : Move → Running
  | .request lines size => if r.call = .resting then r.ask lines size else r
  | .update => if r.call = .resting then r.beginUpdate else r
  | .proceed => r.proceed
  | .work => (r.session.atlas.step?).elim r fun a => r.withAtlas a r.call
  | .recycle pool =>
    let a := r.session.atlas
    r.withAtlas { a with bench := { a.bench with stack := { a.bench.stack with pool } } } r.call

/-- The session after moves made in order. -/
def run (r : Running) (moves : List Move) : Running := moves.foldl move r

theorem run_append (r : Running) (moves moves' : List Move) :
    r.run (moves ++ moves') = (r.run moves).run moves' := List.foldl_append

/-! ### A call that is left alone -/

/-- Left alone, the owner gets from one state to another. -/
def Leads (r r' : Running) : Prop := ∃ n, r.run (List.replicate n .proceed) = r'

theorem Leads.refl (r : Running) : r.Leads r := ⟨0, rfl⟩

theorem Leads.trans (h : r.Leads r') (h' : r'.Leads r'') : r.Leads r'' := by
  obtain ⟨n, rfl⟩ := h
  obtain ⟨m, rfl⟩ := h'
  exact ⟨n + m, by rw [← List.replicate_append_replicate, run_append]⟩

theorem leads_of_proceed (h : r.proceed = r') : r.Leads r' := ⟨1, h⟩

variable {a : Atlas} {d : Device} {calls : List DeviceCall} {id : Nat} {p : Page}

/-- The characters of a line are looked up as `Page.find` looks them up. -/
theorem leads_line (hp : a.page? id = some p) (size : Int) (line : List Char) (isNew : Bool)
    (rest : List (List Char)) :
    Leads ⟨⟨a, d, calls⟩, .asking id size line isNew rest⟩
      ⟨⟨{ a.setPage id (p.find a.bench size line).page with
          bench := (p.find a.bench size line).bench
          quiet := a.quiet && !(isNew || (p.find a.bench size line).isNew) }, d, calls⟩,
        .nextLine id size rest⟩ := by
  induction line generalizing a p isNew with
  | nil =>
    refine leads_of_proceed ?_
    change _ = (⟨⟨{ a.setPage id p with
      bench := a.bench, quiet := a.quiet && !(isNew || false) }, d, calls⟩, _⟩ : Running)
    rw [Atlas.setPage_self hp, Bool.or_false]
    rfl
  | cons c line ih =>
    let first := p.place a.bench c size
    let placed : Atlas := { a.setPage id first.page with bench := first.bench }
    have hstep : proceed ⟨⟨a, d, calls⟩, .asking id size (c :: line) isNew rest⟩ =
        ⟨⟨placed, d, calls⟩, .asking id size line (isNew || first.isNew) rest⟩ := by
      rw [proceed]
      simp only [hp]
      rfl
    have hp' : placed.page? id = some first.page := by
      have hset := Atlas.page?_setPage hp first.page id
      rwa [if_pos rfl] at hset
    have hrest := ih hp' (isNew || first.isNew)
    -- of the two times that the page was replaced only the second one counts
    simp only [placed, Atlas.setPage, List.set_set, Bool.or_assoc] at hrest
    exact (leads_of_proceed hstep).trans hrest

/-- The lines are looked up as `Atlas.regionsOfLines` looks them up. -/
theorem leads_lines (a : Atlas) (id : Nat) (size : Int) (lines : List (List Char)) :
    Leads ⟨⟨a, d, calls⟩, .nextLine id size lines⟩
      ⟨⟨(a.regionsOfLines id size lines).2, d, calls⟩, .resting⟩ := by
  induction lines generalizing a with
  | nil => exact Leads.refl _
  | cons line rest ih =>
    refine Leads.trans ?_ (ih (a.regionsIn id size line).2)
    cases hp : a.page? id with
    | some p =>
      rw [Atlas.regionsIn_eq hp]
      exact leads_line hp size line false rest
    | none =>
      have hregions : (a.regionsIn id size line).2 = a := by rw [Atlas.regionsIn, hp]
      rw [hregions, Call.nextLine]
      -- a page that does not exist ends the line at once
      have hstep : proceed ⟨⟨a, d, calls⟩, .asking id size line false rest⟩ =
          ⟨⟨{ a with quiet := a.quiet && true }, d, calls⟩, .nextLine id size rest⟩ := by
        cases line with
        | nil => rfl
        | cons c line =>
          rw [proceed]
          simp only [hp]
          rfl
      rw [Bool.and_true] at hstep
      exact leads_of_proceed hstep

theorem leads_request (s : Session) (lines : List (List Char)) (size : Int) :
    Leads (ask ⟨s, .resting⟩ lines size) ⟨s.perform (.request lines size), .resting⟩ := by
  obtain ⟨a, d, calls⟩ := s
  change Leads _ ⟨⟨(a.lookup lines size).2, d, calls⟩, .resting⟩
  rw [ask, Atlas.lookup]
  dsimp only
  split
  · exact Leads.refl _
  · exact leads_lines _ _ size lines

end Running

/-! ### Uploading page by page -/

namespace Page

/-- A transfer with calls that were made before. -/
def Transfer.after (t : Transfer) (calls : List DeviceCall) : Transfer :=
  { t with calls := calls ++ t.calls }

theorem uploadJob_after (handle : Nat) (t : Transfer) (calls : List DeviceCall) (j : Job) :
    uploadJob handle (t.after calls) j = (uploadJob handle t j).after calls := by
  unfold uploadJob Transfer.after
  dsimp only
  split
  · rw [List.append_assoc]
  · rfl

theorem ensureHandle_after (p : Page) (t : Transfer) (calls : List DeviceCall) :
    p.ensureHandle (t.after calls) =
      ((p.ensureHandle t).1, (p.ensureHandle t).2.after calls) := by
  unfold ensureHandle Transfer.after
  cases p.handle with
  | some handle => rfl
  | none =>
    dsimp only
    rw [List.append_assoc]

/-- What is uploaded does not depend on the calls that were made before. -/
theorem upload_after (p : Page) (t : Transfer) (calls : List DeviceCall) :
    p.upload (t.after calls) = ((p.upload t).1, (p.upload t).2.after calls) := by
  have hjobs : ∀ (handle : Nat) (jobs : List Job) (t : Transfer),
      jobs.foldl (uploadJob handle) (t.after calls) =
        (jobs.foldl (uploadJob handle) t).after calls := by
    intro handle jobs
    induction jobs with
    | nil => exact fun t => rfl
    | cons j jobs ih =>
      intro t
      rw [List.foldl_cons, uploadJob_after, ih]
      rfl
  unfold upload
  rw [ensureHandle_after]
  dsimp only
  rw [hjobs]

end Page

namespace Running

/-- The pages are uploaded as `Atlas.uploadPages` uploads them; the stack of the atlas is kept up to
date on the way. -/
theorem leads_pages (a : Atlas) (t : Page.Transfer) (calls : List DeviceCall) (ids : List Nat) :
    Leads
      ⟨⟨{ a with bench := { a.bench with stack := t.stack } }, t.device, calls ++ t.calls⟩,
        .uploading ids⟩
      ⟨⟨{ (a.uploadPages t ids).1 with
          bench := { (a.uploadPages t ids).1.bench with stack := (a.uploadPages t ids).2.stack } },
        (a.uploadPages t ids).2.device, calls ++ ((a.uploadPages t ids).2.calls ++ [.flush])⟩,
        .resting⟩ := by
  induction ids generalizing a t with
  | nil =>
    refine leads_of_proceed ?_
    rw [← List.append_assoc]
    rfl
  | cons id ids ih =>
    rw [Atlas.uploadPages]
    cases hp : a.page? id with
    | none =>
      refine (leads_of_proceed ?_).trans (ih a t)
      rw [proceed]
      simp only [show ({ a with bench := { a.bench with stack := t.stack } } : Atlas).page? id = none
        from hp]
      rfl
    | some p =>
      refine (leads_of_proceed ?_).trans (ih (a.setPage id (p.upload t).1) (p.upload t).2)
      have hp' : ({ a with bench := { a.bench with stack := t.stack } } : Atlas).page? id = some p := hp
      have hupload := p.upload_after t calls
      rw [proceed]
      simp only [hp']
      rw [Page.Transfer.after] at hupload
      rw [hupload]
      rfl

/-- An update that is not passed over uploads the pages, unless the atlas was released. -/
theorem leads_turnToPages (s : Session) (call : Call) (a : Atlas) :
    Leads (turnToPages ⟨s, call⟩ a)
      (if a.released then ⟨⟨a, s.device, s.calls⟩, .resting⟩
       else
        let r := a.uploadPages ⟨[], s.device, a.bench.stack⟩ a.listed
        ⟨⟨{ r.1 with bench := { r.1.bench with stack := r.2.stack } }, r.2.device,
          s.calls ++ (r.2.calls ++ [.flush])⟩, .resting⟩) := by
  rw [turnToPages]
  split
  · exact Leads.refl _
  · have hpages := leads_pages a ⟨[], s.device, a.bench.stack⟩ s.calls a.listed
    rwa [List.append_nil] at hpages

theorem leads_update (s : Session) (sync : Bool) (elapsed : Nat) :
    Leads (beginUpdate ⟨s, .resting⟩) ⟨s.perform (.update sync elapsed), .resting⟩ := by
  change Leads _ ⟨⟨(s.atlas.update s.device sync elapsed).atlas,
    (s.atlas.update s.device sync elapsed).device,
    s.calls ++ (s.atlas.update s.device sync elapsed).calls⟩, .resting⟩
  rw [beginUpdate, Atlas.update, Atlas.gate]
  dsimp only
  split
  · -- packaging is under way, so that the update is not passed over
    refine (leads_turnToPages s .resting s.atlas).trans ?_
    simp only [Bool.false_eq_true, ↓reduceIte]
    split
    · rw [List.append_nil]
      exact Leads.refl _
    · exact Leads.refl _
  · cases hquiet : s.atlas.quiet with
    | true =>
      have hflag : { s.atlas with quiet := true } = s.atlas := by rw [← hquiet]
      have hpass : proceed (withAtlas ⟨s, .resting⟩ s.atlas .gating) = ⟨s, .passing⟩ := by
        rw [proceed]
        simp only [withAtlas, hquiet, ↓reduceIte]
      refine (leads_of_proceed hpass).trans (leads_of_proceed ?_)
      simp only [↓reduceIte, hflag, List.append_nil]
      rfl
    | false =>
      have hgate : proceed (withAtlas ⟨s, .resting⟩ s.atlas .gating) =
          turnToPages ⟨s, .gating⟩ { s.atlas with quiet := true } := by
        rw [proceed]
        simp only [withAtlas, hquiet, Bool.false_eq_true, ↓reduceIte]
      refine (leads_of_proceed hgate).trans ?_
      refine (leads_turnToPages s .gating { s.atlas with quiet := true }).trans ?_
      simp only [Bool.false_eq_true, ↓reduceIte]
      split
      · rw [List.append_nil]
        exact Leads.refl _
      · exact Leads.refl _

/-! ### Whole calls -/

/-- The move that begins an act. -/
def begins : Session.Act → Move
  | .request lines size => .request lines size
  | .update _ _ => .update

/-- **A call that is left alone does what it does in one go.** -/
theorem leads_perform (s : Session) (act : Session.Act) :
    Leads (move ⟨s, .resting⟩ (begins act)) ⟨s.perform act, .resting⟩ := by
  cases act with
  | request lines size => exact leads_request s lines size
  | update sync elapsed => exact leads_update s sync elapsed

/-- **The runs of whole calls are interleavings.** -/
theorem exists_run_eq_performAll (s : Session) (acts : List Session.Act) :
    ∃ moves, run ⟨s, .resting⟩ moves = ⟨s.performAll acts, .resting⟩ := by
  induction acts generalizing s with
  | nil => exact ⟨[], rfl⟩
  | cons act acts ih =>
    obtain ⟨n, hfirst⟩ := leads_perform s act
    obtain ⟨moves, hrest⟩ := ih (s.perform act)
    refine ⟨begins act :: (List.replicate n .proceed ++ moves), ?_⟩
    change run (move _ _) (_ ++ moves) = _
    rw [run_append, hfirst, hrest]
    rfl

end Running

end Typecase
