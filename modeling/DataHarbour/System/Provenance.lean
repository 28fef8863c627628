import DataHarbour.JobService.KafkaAgreement
import DataHarbour.System.Network

/-!
# Where a stored status comes from

On an unreliable network nothing guarantees that a job ever reaches the status that it should
have. What is guaranteed is that no status, container id, retry or error is stored without a
cause: everything that a row says about its job was brought about by the job's own containers and
launches, or by a cancellation.

A cause, once there, stays there; so each message and each open transaction is accompanied by its
cause from the moment it is sent or opened, however late it takes effect.
-/

namespace DataHarbour.System

open Python Relational Machine JobService Orchestrator

/-! ## Causes -/

/-- The submission event for a row, with the retry keys of an attempt. -/
def eventOf (job : Job) (retry : Option ℕ) : JobEvent :=
  { retryEvent job with retry := retry }

/-- The text that `create_job` stores when its publish fails. -/
def enqueueFailedText : String := "Kafka enqueue failed; job is still pending"

namespace Network

variable {ι : Type*} (s : Network ι)

/-- A submission event of the job has been published. -/
def Announced (jobId : JobId) : Prop := ∃ e ∈ s.world.jobTopic, e.jobId = jobId

/-- A container of the job has come to such a phase. -/
def Ran (jobId : JobId) (p : ContainerPhase → Prop) : Prop :=
  ∃ c ∈ s.containers, c.request.jobId = jobId ∧ p c.phase

/-- A task with this ARN has been launched for the job. -/
def Launched (jobId : JobId) (arn : String) : Prop :=
  ∃ c ∈ s.containers, c.request.jobId = jobId ∧ c.arn.text = arn

/-- The number of `RunTask` calls for the job that were not accepted. -/
def failedCalls (jobId : JobId) : ℕ :=
  s.calls.countP fun call => decide (call.1.jobId = jobId) && !call.2.accepted

/-- A container of the job exited with another code than 0, or all the launches of one of its
events failed. -/
def AttemptFailed (jobId : JobId) : Prop :=
  s.Ran jobId (fun phase => ∃ code, code ≠ 0 ∧ phase = .exited code) ∨
    ∃ e ∈ s.world.jobTopic, e.jobId = jobId ∧ e.maxRetries ≤ s.failedCalls jobId

/-- What brings a status about. -/
def Cause (jobId : JobId) : JobStatus → Prop
  | .pending => ¬ s.Announced jobId
  | .queued | .provisioning => s.Announced jobId
  | .running => s.Ran jobId (· ≠ .started)
  | .success => s.Ran jobId (· = .exited 0)
  | .failed | .dead => s.AttemptFailed jobId
  | .cancelled => jobId ∈ s.cancelled

/-- What a row says about its job has a cause. -/
structure Justified (job : Job) : Prop where
  status : s.Cause job.jobId job.status
  /-- A failed attempt is queued again or the last one; it is never left at `FAILED`. -/
  notFailed : job.status ≠ .failed
  retryCount : job.retryCount ≠ 0 → s.AttemptFailed job.jobId
  budget : job.retryCount ≤ job.maxRetries
  containerId : ∀ arn, job.containerId = some arn → s.Launched job.jobId arn
  /-- The error is that of `create_job`, or of a consumer that gave up after `max_retries`
  launches. -/
  errorMessage : ∀ text, job.errorMessage = some text →
    text = enqueueFailedText ∧ ¬ s.Announced job.jobId ∨
      (∃ lastError, text = launchFailedText job.maxRetries lastError) ∧
        job.maxRetries ≤ s.failedCalls job.jobId

/-- A status callback has a cause. -/
structure Backed (jobId : JobId) (u : JobStatusUpdate) : Prop where
  announced : s.Announced jobId
  status : s.Cause jobId u.status
  containerId : ∀ arn, u.containerId = some arn → s.Launched jobId arn
  errorMessage : ∀ text, u.errorMessage = some text → ∃ e ∈ s.world.jobTopic, e.jobId = jobId ∧
    (∃ lastError, text = launchFailedText e.maxRetries lastError) ∧
      e.maxRetries ≤ s.failedCalls jobId

end Network

/-! ## The course of `_process_message` -/

/-- The effect is a `RunTask` call that is not accepted. -/
def failsLaunch : Effect → Bool
  | .runTask _ outcome => !outcome.accepted
  | _ => false

/-- The effects that can follow what has been done for an event. -/
inductive CanFollow (e : JobEvent) (done : List Effect) : Effect → Prop
  | provisioning : CanFollow e done (.callback (.str e.jobId) { status := .provisioning })
  | runTask (outcome : RunTaskOutcome) : CanFollow e done (.runTask (requestOf e) outcome)
  | launched (arn : TaskArn) (h : .runTask (requestOf e) (.task arn) ∈ done) :
    CanFollow e done
      (.callback (.str e.jobId) { status := .provisioning, containerId := some arn.text })
  | sleep (seconds : ℕ) : CanFollow e done (.sleep seconds)
  | failed (lastError : Option Exc) (h : e.maxRetries ≤ done.countP failsLaunch) :
    CanFollow e done (.callback (.str e.jobId)
      { status := .failed, errorMessage := some (launchFailedText e.maxRetries lastError) })
  | deadLetter (lastError : Option Exc) (h : e.maxRetries ≤ done.countP failsLaunch) :
    CanFollow e done (.deadLetter
      ⟨.str e.jobId, e.toJson, launchFailedText e.maxRetries lastError, e.maxRetries⟩)

/-- Every effect can follow what was done before it. -/
def Course (e : JobEvent) (done : List Effect) : List Effect → Prop
  | [] => True
  | effect :: rest => CanFollow e done effect ∧ Course e (done ++ [effect]) rest

private theorem course_append {e : JobEvent} {done first second : List Effect} :
    Course e done (first ++ second) ↔ Course e done first ∧ Course e (done ++ first) second := by
  induction first generalizing done with
  | nil => simp [Course]
  | cons effect first ih => simp [Course, ih, and_assoc]

/-- The launch loop, with enough launches ahead to use up the budget. -/
theorem course_launchAttempts (e : JobEvent) (outcomes : ℕ → RunTaskOutcome)
    (remaining attempt : ℕ) (lastError : Option Exc) {done : List Effect}
    (hdone : e.maxRetries ≤ done.countP failsLaunch + remaining) :
    Course e done (launchAttempts e.toJson (.str e.jobId) e.maxRetries outcomes remaining attempt
      lastError) := by
  induction remaining generalizing attempt lastError done with
  | zero =>
    refine ⟨.failed lastError hdone, .deadLetter lastError ?_, trivial⟩
    rw [List.countP_append]
    exact hdone.trans (Nat.le_add_right _ _)
  | succ remaining ih =>
    cases haccepted : (outcomes attempt).accepted with
    | true =>
      obtain ⟨arn, harn⟩ := RunTaskOutcome.accepted_iff.mp haccepted
      rw [launchAttempts_of_task harn]
      exact ⟨.provisioning, .runTask _, .launched arn (by simp), trivial⟩
    | false =>
      obtain ⟨err, hstep⟩ := launchAttempts_of_failure haccepted remaining lastError
      rw [hstep, course_append]
      constructor
      · refine ⟨.provisioning, .runTask _, ?_⟩
        unfold backoff
        split
        · exact ⟨.sleep _, trivial⟩
        · trivial
      · refine ih (attempt + 1) (some err) ?_
        -- the failed call counts
        have hone : 1 ≤ (failedAttempt e outcomes attempt).countP failsLaunch :=
          List.countP_pos_iff.mpr
            ⟨.runTask (requestOf e) (outcomes attempt), by simp [failedAttempt],
              by simp [failsLaunch, haccepted]⟩
        rw [List.countP_append]
        omega

private theorem course_handleEvent (e : JobEvent) (outcomes : ℕ → RunTaskOutcome) :
    Course e [] (handleEvent e outcomes) :=
  course_launchAttempts e outcomes e.maxRetries 1 none (by simp)

/-! ## Causes stay -/

/-- A container in the one phase may later be in the other. -/
structure Later (phase phase' : ContainerPhase) : Prop where
  running : phase ≠ .started → phase' ≠ .started
  exited : ∀ code, phase = .exited code → phase' = .exited code

/-- A phase may stay as it is. -/
theorem Later.refl (phase : ContainerPhase) : Later phase phase := ⟨id, fun _ => id⟩

namespace Network

variable {ι : Type*} {s t : Network ι}

/-- What a step can only add to. -/
structure Grows (s t : Network ι) : Prop where
  topic : ∀ e ∈ s.world.jobTopic, e ∈ t.world.jobTopic := by exact fun _ h => h
  /-- A new event is the first of its job, or repeats one for another attempt. -/
  events : ∀ e ∈ t.world.jobTopic, e ∈ s.world.jobTopic ∨ e.jobId ∉ s.drawn ∨
    ∃ old ∈ s.world.jobTopic, e = { old with retry := e.retry } := by exact fun _ h => .inl h
  drawn : ∀ jobId ∈ s.drawn, jobId ∈ t.drawn := by exact fun _ h => h
  rows : ∀ jobId row, s.world.jobs.find? jobId = some row →
    ∃ row', t.world.jobs.find? jobId = some row' ∧ row'.maxRetries = row.maxRetries := by
      exact fun _ row h => ⟨row, h, rfl⟩
  containers : ∀ c ∈ s.containers, ∃ c' ∈ t.containers,
    c'.request = c.request ∧ c'.arn = c.arn ∧ Later c.phase c'.phase := by
      exact fun c h => ⟨c, h, rfl, rfl, .refl c.phase⟩
  failedCalls : ∀ jobId, s.failedCalls jobId ≤ t.failedCalls jobId := by exact fun _ => le_rfl
  cancelled : ∀ jobId ∈ s.cancelled, jobId ∈ t.cancelled := by exact fun _ h => h

variable {jobId : JobId}

/-- An announced job stays announced. -/
theorem Announced.mono (h : s.Announced jobId) (hgrows : Grows s t) : t.Announced jobId := by
  obtain ⟨e, he, hid⟩ := h
  exact ⟨e, hgrows.topic e he, hid⟩

/-- A job whose id is drawn is not announced later, if it was not from the start. -/
theorem not_announced_mono (h : ¬ s.Announced jobId) (hdrawn : jobId ∈ s.drawn)
    (hgrows : Grows s t) : ¬ t.Announced jobId := by
  rintro ⟨e, he, rfl⟩
  rcases hgrows.events e he with hold | hfresh | ⟨old, hold, heq⟩
  · exact h ⟨e, hold, rfl⟩
  · exact hfresh hdrawn
  · exact h ⟨old, hold, (congrArg JobEvent.jobId heq).symm⟩

/-- A container that ran has run, whatever phase it enters later. -/
theorem Ran.mono {p : ContainerPhase → Prop} (h : s.Ran jobId p)
    (hp : ∀ phase phase', Later phase phase' → p phase → p phase') (hgrows : Grows s t) :
    t.Ran jobId p := by
  obtain ⟨c, hc, hid, hphase⟩ := h
  obtain ⟨c', hc', hrequest, -, hlater⟩ := hgrows.containers c hc
  exact ⟨c', hc', hrequest.symm ▸ hid, hp _ _ hlater hphase⟩

/-- A launch is not taken back. -/
theorem Launched.mono {arn : String} (h : s.Launched jobId arn) (hgrows : Grows s t) :
    t.Launched jobId arn := by
  obtain ⟨c, hc, hid, harn⟩ := h
  obtain ⟨c', hc', hrequest, hsame, -⟩ := hgrows.containers c hc
  exact ⟨c', hc', hrequest.symm ▸ hid, hsame.symm ▸ harn⟩

/-- A failed attempt stays failed. -/
theorem AttemptFailed.mono (h : s.AttemptFailed jobId) (hgrows : Grows s t) :
    t.AttemptFailed jobId := by
  rcases h with hran | ⟨e, he, hid, hcalls⟩
  · refine .inl (hran.mono ?_ hgrows)
    rintro phase phase' hlater ⟨code, hcode, hphase⟩
    exact ⟨code, hcode, hlater.exited code hphase⟩
  · exact .inr ⟨e, hgrows.topic e he, hid, hcalls.trans (hgrows.failedCalls jobId)⟩

/-- A status keeps its cause. -/
theorem Cause.mono {status : JobStatus} (h : s.Cause jobId status) (hdrawn : jobId ∈ s.drawn)
    (hgrows : Grows s t) : t.Cause jobId status := by
  cases status with
  | pending => exact not_announced_mono h hdrawn hgrows
  | queued | provisioning => exact Announced.mono h hgrows
  | running =>
    have hran : s.Ran jobId (· ≠ .started) := h
    exact hran.mono (fun _ _ hlater => hlater.running) hgrows
  | success =>
    have hran : s.Ran jobId (· = .exited 0) := h
    exact hran.mono (fun _ _ hlater => hlater.exited 0) hgrows
  | failed | dead => exact AttemptFailed.mono h hgrows
  | cancelled => exact hgrows.cancelled jobId h

/-- A justified row stays justified. -/
theorem Justified.mono {job : Job} (h : s.Justified job) (hdrawn : job.jobId ∈ s.drawn)
    (hgrows : Grows s t) : t.Justified job where
  status := h.status.mono hdrawn hgrows
  notFailed := h.notFailed
  retryCount hcount := (h.retryCount hcount).mono hgrows
  budget := h.budget
  containerId arn harn := (h.containerId arn harn).mono hgrows
  errorMessage text htext := by
    rcases h.errorMessage text htext with ⟨htext, hnone⟩ | ⟨herror, hcalls⟩
    · exact .inl ⟨htext, not_announced_mono hnone hdrawn hgrows⟩
    · exact .inr ⟨herror, hcalls.trans (hgrows.failedCalls _)⟩

/-- An update keeps what backs it. -/
theorem Backed.mono {u : JobStatusUpdate} (h : s.Backed jobId u) (hdrawn : jobId ∈ s.drawn)
    (hgrows : Grows s t) : t.Backed jobId u where
  announced := h.announced.mono hgrows
  status := h.status.mono hdrawn hgrows
  containerId arn harn := (h.containerId arn harn).mono hgrows
  errorMessage text htext := by
    obtain ⟨e, he, hid, herror, hcalls⟩ := h.errorMessage text htext
    exact ⟨e, hgrows.topic e he, hid, herror, hcalls.trans (hgrows.failedCalls jobId)⟩

/-! ## The invariant -/

/-- A row that is stored, or about to be. -/
structure Entered (s : Network ι) (job : Job) : Prop extends s.Justified job where
  drawn : job.jobId ∈ s.drawn
  /-- The events of the job ask for what the row says. -/
  events : ∀ e ∈ s.world.jobTopic, e.jobId = job.jobId → e = eventOf job e.retry

/-- A row stays entered. -/
theorem Entered.mono {job : Job} (h : s.Entered job) (hgrows : Grows s t) : t.Entered job where
  toJustified := h.toJustified.mono h.drawn hgrows
  drawn := hgrows.drawn _ h.drawn
  events e he hid := by
    rcases hgrows.events e he with hold | hfresh | ⟨old, hold, heq⟩
    · exact h.events e hold hid
    · exact absurd (hid ▸ h.drawn) hfresh
    · have hsame : old.jobId = job.jobId := (congrArg JobEvent.jobId heq).symm.trans hid
      rw [h.events old hold hsame] at heq
      exact heq

/-- What an open transaction will write has a cause. -/
def Prepared (s : Network ι) : Session → Prop
  | .insert row => s.Entered row
  | .write loaded assigned => s.Justified assigned ∧ assigned.jobId = loaded.jobId ∧
    loaded.jobId ∈ s.drawn ∧ ∃ row, s.world.jobs.find? loaded.jobId = some row ∧
      row.maxRetries = assigned.maxRetries

/-- A prepared session stays prepared. -/
theorem Prepared.mono {session : Session} (h : s.Prepared session) (hgrows : Grows s t) :
    t.Prepared session := by
  cases session with
  | insert row => exact Entered.mono h hgrows
  | write loaded assigned =>
    obtain ⟨hassigned, hid, hdrawn, row, hrow, hmax⟩ := h
    obtain ⟨row', hrow', hsame⟩ := hgrows.rows _ _ hrow
    exact ⟨hassigned.mono (hid ▸ hdrawn) hgrows, hid, hgrows.drawn _ hdrawn, row', hrow',
      hsame.trans hmax⟩

/-- What has been done for an event has left its traces. -/
structure Done (s : Network ι) (e : JobEvent) (done : List Effect) : Prop where
  launched : ∀ arn, .runTask (requestOf e) (.task arn) ∈ done → s.Launched e.jobId arn.text
  failed : done.countP failsLaunch ≤ s.failedCalls e.jobId

/-- What has been done of a message stays done. -/
theorem Done.mono {e : JobEvent} {done : List Effect} (h : s.Done e done) (hgrows : Grows s t) :
    t.Done e done where
  launched arn harn := (h.launched arn harn).mono hgrows
  failed := h.failed.trans (hgrows.failedCalls e.jobId)

/-- What is still to do continues the work on an event. -/
def Working (s : Network ι) (effects : List Effect) : Prop :=
  ∃ e ∈ s.world.jobTopic, ∃ done, s.Done e done ∧ Course e done effects

/-- Work in hand stays justified. -/
theorem Working.mono {effects : List Effect} (h : s.Working effects) (hgrows : Grows s t) :
    t.Working effects := by
  obtain ⟨e, he, done, hdone, hcourse⟩ := h
  exact ⟨e, hgrows.topic e he, done, hdone.mono hgrows, hcourse⟩

/-- An event was dead-lettered after all its launches failed. -/
def GivenUp (s : Network ι) (record : DeadLetter) : Prop :=
  ∃ e ∈ s.world.jobTopic, record.jobId = .str e.jobId ∧ record.originalEvent = e.toJson ∧
    record.attempts = e.maxRetries ∧ e.maxRetries ≤ s.failedCalls e.jobId

/-- Everything that is stored, open, sent or in hand has its cause. -/
structure Sound (s : Network ι) : Prop where
  rows : ∀ job ∈ s.world.jobs.rows, s.Entered job
  sessions : ∀ session ∈ s.sessions, s.Prepared session
  drawn : ∀ e ∈ s.world.jobTopic, e.jobId ∈ s.drawn
  tags : ∀ e ∈ s.world.jobTopic, e.retry.getD 0 ≤ e.maxRetries
  sent : ∀ m ∈ s.sent, s.Backed m.1 m.2
  inHand : ∀ i, s.inHand i ≠ [] → s.Working (s.inHand i)
  containers : ∀ c ∈ s.containers, ∃ e ∈ s.world.jobTopic, c.request = requestOf e
  deadLetters : ∀ record ∈ s.deadLetters, s.GivenUp record

/-- An update that is backed is about a drawn id. -/
theorem Backed.drawn {u : JobStatusUpdate} (h : s.Backed jobId u) (hs : s.Sound) :
    jobId ∈ s.drawn := by
  obtain ⟨e, he, rfl⟩ := h.announced
  exact hs.drawn e he

/-- A step keeps the invariant if what it adds has its cause. -/
structure Adds (s t : Network ι) : Prop extends Grows s t where
  newRows : ∀ job ∈ t.world.jobs.rows, job ∈ s.world.jobs.rows ∨ t.Entered job := by
    exact fun _ h => .inl h
  newSessions : ∀ session ∈ t.sessions, session ∈ s.sessions ∨ t.Prepared session := by
    exact fun _ h => .inl h
  newEvents : ∀ e ∈ t.world.jobTopic, e ∈ s.world.jobTopic ∨
    e.jobId ∈ t.drawn ∧ e.retry.getD 0 ≤ e.maxRetries := by exact fun _ h => .inl h
  newSent : ∀ m ∈ t.sent, m ∈ s.sent ∨ t.Backed m.1 m.2 := by exact fun _ h => .inl h
  newInHand : ∀ i, t.inHand i = s.inHand i ∨ t.inHand i = [] ∨ t.Working (t.inHand i) := by
    exact fun _ => .inl rfl
  newContainers : ∀ c ∈ t.containers, (∃ old ∈ s.containers, c.request = old.request) ∨
    ∃ e ∈ t.world.jobTopic, c.request = requestOf e := by exact fun c h => .inl ⟨c, h, rfl⟩
  newDeadLetters : ∀ record ∈ t.deadLetters, record ∈ s.deadLetters ∨ t.GivenUp record := by
    exact fun _ h => .inl h

/-- A step that adds only what is justified keeps the network sound. -/
theorem Sound.adds (h : s.Sound) (hadds : Adds s t) : t.Sound where
  rows job hjob := by
    rcases hadds.newRows job hjob with hold | hnew
    · exact (h.rows job hold).mono hadds.toGrows
    · exact hnew
  sessions session hsession := by
    rcases hadds.newSessions session hsession with hold | hnew
    · exact (h.sessions session hold).mono hadds.toGrows
    · exact hnew
  drawn e he := by
    rcases hadds.newEvents e he with hold | ⟨hdrawn, -⟩
    · exact hadds.drawn _ (h.drawn e hold)
    · exact hdrawn
  tags e he := by
    rcases hadds.newEvents e he with hold | ⟨-, htag⟩
    · exact h.tags e hold
    · exact htag
  sent m hm := by
    rcases hadds.newSent m hm with hold | hnew
    · exact (h.sent m hold).mono ((h.sent m hold).drawn h) hadds.toGrows
    · exact hnew
  inHand i hi := by
    rcases hadds.newInHand i with hold | hnone | hnew
    · rw [hold] at hi ⊢
      exact (h.inHand i hi).mono hadds.toGrows
    · exact absurd hnone hi
    · exact hnew
  containers c hc := by
    rcases hadds.newContainers c hc with ⟨old, hold, heq⟩ | hnew
    · obtain ⟨e, he, hrequest⟩ := h.containers old hold
      exact ⟨e, hadds.topic e he, heq.trans hrequest⟩
    · exact hnew
  deadLetters record hrecord := by
    rcases hadds.newDeadLetters record hrecord with hold | hnew
    · obtain ⟨e, he, hid, hevent, hattempts, hcalls⟩ := h.deadLetters record hold
      exact ⟨e, hadds.topic e he, hid, hevent, hattempts,
        hcalls.trans (hadds.failedCalls e.jobId)⟩
    · exact hnew

/-! ## The job service -/

/-- A row that is created. -/
theorem justified_newJob {now : Time} {request : JobCreateRequest} {delivery : Delivery}
    (h : s.Announced jobId ↔ delivery = .delivered) :
    s.Justified ((newJob jobId now request).afterEnqueue delivery) := by
  cases delivery with
  | delivered =>
    exact ⟨h.mpr rfl, JobStatus.noConfusion, fun hcount => absurd rfl hcount, Nat.zero_le _,
      fun _ harn => (by cases harn), fun _ htext => (by cases htext)⟩
  | failed =>
    have hnone : ¬ s.Announced jobId := fun hannounced => (by cases h.mp hannounced)
    exact ⟨hnone, JobStatus.noConfusion, fun hcount => absurd rfl hcount, Nat.zero_le _,
      fun _ harn => (by cases harn), fun text htext => .inl ⟨(Option.some.inj htext).symm, hnone⟩⟩

private theorem overwrite_cases {new old : Option String} {text : String}
    (h : overwrite new old = some text) : old = some text ∨ new = some text := by
  unfold overwrite at h
  split at h
  · split at h
    · exact .inl h
    · exact .inr h
  · exact .inl h

/-- A row that a callback was assigned to. -/
theorem Entered.updated {job : Job} (h : s.Entered job) {u : JobStatusUpdate}
    (hu : s.Backed job.jobId u) (now : Time) : s.Justified (job.updated u now) := by
  have hcontainer : ∀ arn, (job.record u now).containerId = some arn →
      s.Launched job.jobId arn := fun arn harn =>
    (overwrite_cases harn).elim (h.containerId arn) (hu.containerId arn)
  have herror : ∀ text, (job.record u now).errorMessage = some text →
      text = enqueueFailedText ∧ ¬ s.Announced job.jobId ∨
        (∃ lastError, text = launchFailedText job.maxRetries lastError) ∧
          job.maxRetries ≤ s.failedCalls job.jobId := by
    intro text htext
    rcases overwrite_cases htext with hold | hnew
    · exact h.errorMessage text hold
    · obtain ⟨e, he, hid, htext, hcalls⟩ := hu.errorMessage text hnew
      have hmax : e.maxRetries = job.maxRetries :=
        congrArg JobEvent.maxRetries (h.events e he hid)
      exact .inr (hmax ▸ ⟨htext, hcalls⟩)
  rcases updated_cases job u now with
    ⟨hfailed, hbudget, hrow, -⟩ | ⟨hfailed, -, hrow, -⟩ | ⟨hfailed, hrow, -⟩
  · have hcause : s.Cause job.jobId .failed := hfailed ▸ hu.status
    rw [hrow]
    exact ⟨hu.announced, JobStatus.noConfusion, fun _ => hcause, hbudget, hcontainer, herror⟩
  · have hcause : s.Cause job.jobId .failed := hfailed ▸ hu.status
    rw [hrow]
    exact ⟨hcause, JobStatus.noConfusion, h.retryCount, h.budget, hcontainer, herror⟩
  · rw [hrow]
    exact ⟨hu.status, hfailed, h.retryCount, h.budget, hcontainer, herror⟩

private theorem flushColumn_cases {α : Type*} [DecidableEq α] (loaded assigned current : α) :
    flushColumn loaded assigned current = assigned ∨
      flushColumn loaded assigned current = current := by
  unfold flushColumn
  split
  · exact .inr rfl
  · exact .inl rfl

/-- A row that is flushed over another version of itself. -/
theorem Justified.flush {loaded assigned current : Job} (h : s.Justified assigned)
    (h' : s.Justified current) (hid : assigned.jobId = current.jobId)
    (hmax : assigned.maxRetries = current.maxRetries) :
    s.Justified (loaded.flush assigned current) := by
  have hstatus := flushColumn_cases loaded.status assigned.status current.status
  have hcount := flushColumn_cases loaded.retryCount assigned.retryCount current.retryCount
  have hcontainer := flushColumn_cases loaded.containerId assigned.containerId current.containerId
  have herror := flushColumn_cases loaded.errorMessage assigned.errorMessage current.errorMessage
  refine ⟨?_, ?_, ?_, ?_, ?_, ?_⟩ <;> simp only [Job.flush]
  · rcases hstatus with heq | heq <;> rw [heq]
    · exact hid ▸ h.status
    · exact h'.status
  · rcases hstatus with heq | heq <;> rw [heq]
    · exact h.notFailed
    · exact h'.notFailed
  · rcases hcount with heq | heq <;> rw [heq]
    · exact hid ▸ h.retryCount
    · exact h'.retryCount
  · rcases hcount with heq | heq <;> rw [heq]
    · exact hmax ▸ h.budget
    · exact h'.budget
  · rcases hcontainer with heq | heq <;> rw [heq]
    · exact hid ▸ h.containerId
    · exact h'.containerId
  · rcases herror with heq | heq <;> rw [heq]
    · exact hid ▸ hmax ▸ h.errorMessage
    · exact h'.errorMessage

/-- A row that is found is entered, under the id it is looked up by. -/
theorem Sound.find? (h : s.Sound) {job : Job} (hfind : s.world.jobs.find? jobId = some job) :
    s.Entered job ∧ job.jobId = jobId :=
  ⟨h.rows job (Table.mem_of_find? hfind), Table.key_of_find? hfind⟩

/-- An id that is not drawn has no row and no event. -/
theorem Sound.fresh (h : s.Sound) (hdrawn : jobId ∉ s.drawn) :
    s.world.jobs.find? jobId = none ∧ ¬ s.Announced jobId := by
  constructor
  · by_contra hstored
    obtain ⟨job, hjob⟩ := Option.ne_none_iff_exists'.mp hstored
    obtain ⟨hentered, rfl⟩ := h.find? hjob
    exact hdrawn hentered.drawn
  · rintro ⟨e, he, rfl⟩
    exact hdrawn (h.drawn e he)

private theorem adds_create (h : s.Sound) (jobId : JobId) (now : Time) (delivery : Delivery)
    (request : JobCreateRequest) : Adds s (s.create jobId now delivery request) := by
  unfold Network.create
  split
  · exact {}
  · next hdrawn =>
    obtain ⟨hfresh, hunannounced⟩ := h.fresh hdrawn
    have htopic : (createJob s.world jobId now delivery request).1.jobTopic =
        delivery.publish s.world.jobTopic (originalEvent jobId request) := by
      have hstep := jobTopic_create s.world jobId now delivery request
      rwa [if_pos hfresh] at hstep
    have hevents : ∀ e ∈ (createJob s.world jobId now delivery request).1.jobTopic,
        e ∈ s.world.jobTopic ∨ delivery = .delivered ∧ e = originalEvent jobId request :=
      fun e he => mem_publish.mp (htopic ▸ he)
    exact {
      topic := fun e he => htopic.symm ▸ mem_publish_of_mem he
      events := by
        intro e he
        rcases hevents e he with hold | ⟨-, rfl⟩
        · exact .inl hold
        · exact .inr (.inl hdrawn)
      drawn := fun _ => List.mem_cons_of_mem jobId
      newEvents := by
        intro e he
        rcases hevents e he with hold | ⟨-, rfl⟩
        · exact .inl hold
        · exact .inr ⟨List.mem_cons_self, Nat.zero_le _⟩
      newSessions := by
        intro session hsession
        refine (List.mem_append.mp hsession).imp_right fun hnew => ?_
        obtain rfl := List.mem_singleton.mp hnew
        refine ⟨justified_newJob ⟨?_, ?_⟩, ?_, ?_⟩
        · rintro ⟨e, he, hid⟩
          exact (hevents e he).elim (fun hold => absurd ⟨e, hold, hid⟩ hunannounced) And.left
        · rintro rfl
          exact ⟨_, htopic.symm ▸ mem_publish.mpr (.inr ⟨rfl, rfl⟩), rfl⟩
        · rw [afterEnqueue_jobId]
          exact List.mem_cons_self
        · intro e he hid
          rw [afterEnqueue_jobId] at hid
          rcases hevents e he with hold | ⟨rfl, rfl⟩
          · exact absurd ⟨e, hold, hid⟩ hunannounced
          · rfl }

private theorem adds_update (h : s.Sound) {u : JobStatusUpdate} (hu : s.Backed jobId u) (now : Time)
    (delivery : Delivery) : Adds s (s.update jobId now delivery u) := by
  unfold Network.update
  split
  · exact {}
  · next job hjob =>
    obtain ⟨hentered, rfl⟩ := h.find? hjob
    obtain ⟨old, hold, hid⟩ := hu.announced
    have hsame := hentered.events old hold hid
    have htopic := jobTopic_update s.world job.jobId now delivery u
    rw [hjob, Option.bind_some] at htopic
    have hevents : ∀ e ∈ (updateJobStatus s.world job.jobId now delivery u).1.jobTopic,
        e ∈ s.world.jobTopic ∨ e = eventOf job (some (job.retryCount + 1)) ∧
          job.retryCount + 1 ≤ job.maxRetries := by
      intro e he
      replace he : e ∈ (step s.world (.update job.jobId now delivery u)).jobTopic := he
      rw [htopic] at he
      rcases updated_cases job u now with
        ⟨-, hbudget, hrow, hevent⟩ | ⟨-, -, -, hevent⟩ | ⟨-, -, hevent⟩
      · rw [hevent] at he
        rcases mem_publish.mp he with hold | ⟨-, rfl⟩
        · exact .inl hold
        · rw [hrow]
          exact .inr ⟨rfl, hbudget⟩
      · rw [hevent] at he
        exact .inl he
      · rw [hevent] at he
        exact .inl he
    have hgrows : Grows s { s with
        world := { (updateJobStatus s.world job.jobId now delivery u).1 with jobs := s.world.jobs }
        sessions := s.sessions ++ [.write job (job.updated u now)] } :=
      { topic := fun e he => mem_jobTopic_step (.update job.jobId now delivery u) he
        events := by
          intro e he
          rcases hevents e he with hold | ⟨rfl, -⟩
          · exact .inl hold
          · exact .inr (.inr ⟨old, hold, hsame ▸ rfl⟩) }
    exact {
      toGrows := hgrows
      newEvents := by
        intro e he
        rcases hevents e he with hold | ⟨rfl, hbudget⟩
        · exact .inl hold
        · exact .inr ⟨hentered.drawn, hbudget⟩
      newSessions := by
        intro session hsession
        refine (List.mem_append.mp hsession).imp_right fun hnew => ?_
        obtain rfl := List.mem_singleton.mp hnew
        refine ⟨(hentered.updated hu now).mono ?_ hgrows, updated_jobId job u now,
          hentered.drawn, job, hjob, ?_⟩
        · rw [updated_jobId]
          exact hentered.drawn
        · exact (updated_maxRetries job u now).symm }

private theorem adds_cancel (h : s.Sound) (jobId : JobId) (now : Time) (delivery : Delivery) :
    Adds s (s.cancel jobId now delivery) := by
  unfold Network.cancel
  split
  · exact {}
  · next job hjob =>
    split
    · exact {}
    · obtain ⟨hentered, rfl⟩ := h.find? hjob
      have htopic : (cancelJob s.world job.jobId now delivery).1.jobTopic = s.world.jobTopic :=
        jobTopic_cancel s.world job.jobId now delivery
      have hgrows : Grows s { s with
          world := { (cancelJob s.world job.jobId now delivery).1 with jobs := s.world.jobs }
          sessions := s.sessions ++ [.write job (job.cancelled now)]
          cancelled := job.jobId :: s.cancelled } :=
        { topic := fun e he => htopic.symm ▸ he
          events := fun e he => .inl (htopic ▸ he)
          cancelled := fun _ => List.mem_cons_of_mem job.jobId }
      exact {
        toGrows := hgrows
        newEvents := fun e he => .inl (htopic ▸ he)
        newSessions := by
          intro session hsession
          refine (List.mem_append.mp hsession).imp_right fun hnew => ?_
          obtain rfl := List.mem_singleton.mp hnew
          have hstill := hentered.toJustified.mono hentered.drawn hgrows
          exact ⟨⟨List.mem_cons_self, JobStatus.noConfusion, hstill.retryCount, hstill.budget,
            hstill.containerId, hstill.errorMessage⟩, rfl, hentered.drawn, job, hjob, rfl⟩ }

private theorem adds_commit (h : s.Sound) {n : ℕ} {session : Session}
    (hn : s.sessions[n]? = some session) :
    Adds s { s with
      world := { s.world with jobs := session.commit s.world.jobs }
      sessions := s.sessions.eraseIdx n } := by
  have hprepared := h.sessions session (List.mem_of_getElem? hn)
  cases session with
  | insert row =>
    cases hinsert : s.world.jobs.insert? row with
    | none =>
      simp only [Session.commit, hinsert, Option.getD_none]
      exact { newSessions := fun x hx => .inl (List.mem_of_mem_eraseIdx hx) }
    | some jobs =>
      obtain ⟨hfresh, rfl⟩ := Table.insert?_eq_some hinsert
      simp only [Session.commit, hinsert, Option.getD_some]
      have hgrows : Grows s { s with
          world := { s.world with jobs := s.world.jobs.insert row hfresh }
          sessions := s.sessions.eraseIdx n } :=
        { rows := by
            intro k old hold
            refine ⟨old, ?_, rfl⟩
            rw [Table.find?_insert, if_neg]
            · exact hold
            · rintro rfl
              rw [hfresh] at hold
              cases hold }
      exact {
        toGrows := hgrows
        newRows := by
          intro job hjob
          rcases (Table.mem_insert hfresh).mp hjob with rfl | hold
          · exact .inr (Entered.mono hprepared hgrows)
          · exact .inl hold
        newSessions := fun x hx => .inl (List.mem_of_mem_eraseIdx hx) }
  | write loaded assigned =>
    obtain ⟨hassigned, hid, hdrawn, current, hcurrent, hmax⟩ := hprepared
    obtain ⟨hentered, hkey⟩ := h.find? hcurrent
    simp only [Session.commit, hcurrent]
    have hflushed : (loaded.flush assigned current).jobId = current.jobId := rfl
    have hgrows : Grows s { s with
        world := { s.world with jobs := s.world.jobs.set (loaded.flush assigned current) }
        sessions := s.sessions.eraseIdx n } :=
      { rows := by
          intro k old hold
          rw [Table.find?_set]
          split
          · next hk =>
            obtain rfl : current = old := by
              rw [← hk, hflushed, hkey, hcurrent] at hold
              exact Option.some.inj hold
            exact ⟨loaded.flush assigned current, by rw [hold, Option.map_some], rfl⟩
          · exact ⟨old, hold, rfl⟩ }
    exact {
      toGrows := hgrows
      newRows := by
        intro job hjob
        rcases Table.mem_of_mem_set hjob with rfl | hold
        · have hjustified : s.Justified (loaded.flush assigned current) :=
            hassigned.flush hentered.toJustified (hid.trans hkey.symm) hmax.symm
          exact .inr (Entered.mono ⟨hjustified, hentered.drawn, hentered.events⟩ hgrows)
        · exact .inl hold
      newSessions := fun x hx => .inl (List.mem_of_mem_eraseIdx hx) }

/-! ## The consumers -/

section Consumers

variable [DecidableEq ι]

/-- One consumer has something else in hand. -/
theorem working_update {i : ι} {effects : List Effect}
    (hinHand : t.inHand = Function.update s.inHand i effects)
    (hworking : effects = [] ∨ t.Working effects) (k : ι) :
    t.inHand k = s.inHand k ∨ t.inHand k = [] ∨ t.Working (t.inHand k) := by
  rw [hinHand]
  by_cases hk : k = i
  · rw [hk, Function.update_self]
    exact .inr hworking
  · exact .inl (Function.update_of_ne hk effects s.inHand)

omit [DecidableEq ι] in
/-- What is not a `RunTask` call leaves no trace of its own. -/
theorem Done.snoc {e : JobEvent} {done : List Effect} (h : s.Done e done) {effect : Effect}
    (hquiet : ∀ request outcome, effect ≠ .runTask request outcome) :
    s.Done e (done ++ [effect]) where
  launched arn harn := by
    rcases List.mem_append.mp harn with hold | hnew
    · exact h.launched arn hold
    · exact absurd (List.mem_singleton.mp hnew).symm (hquiet _ _)
  failed := by
    have hnone : failsLaunch effect = false := by
      cases effect with
      | runTask request outcome => exact absurd rfl (hquiet request outcome)
      | _ => rfl
    rw [List.countP_append, List.countP_singleton, hnone]
    exact h.failed

private theorem adds_take {e : JobEvent} (he : e ∈ s.world.jobTopic) (i : ι)
    (outcomes : ℕ → RunTaskOutcome) :
    Adds s { s with inHand := Function.update s.inHand i (handleEvent e outcomes) } :=
  { newInHand := working_update rfl
      (.inr ⟨e, he, [], ⟨fun _ harn => absurd harn List.not_mem_nil, Nat.zero_le _⟩,
        course_handleEvent e outcomes⟩) }

/-- A callback is sent. -/
theorem adds_callback {i : ι} {rest : List Effect} {e : JobEvent} {u : JobStatusUpdate}
    (hworking : s.Working rest) (hu : s.Backed e.jobId u) (hs : s.Sound) :
    Adds s { s with
      inHand := Function.update s.inHand i rest
      sent := s.sent ++ [(e.jobId, u)] } := by
  have hgrows : Grows s { s with
      inHand := Function.update s.inHand i rest
      sent := s.sent ++ [(e.jobId, u)] } := {}
  exact {
    toGrows := hgrows
    newInHand := working_update rfl (.inr (hworking.mono hgrows))
    newSent := by
      intro m hm
      refine (List.mem_append.mp hm).imp_right fun hnew => ?_
      obtain rfl := List.mem_singleton.mp hnew
      exact hu.mono (hu.drawn hs) hgrows }

/-- A `RunTask` call is made. -/
theorem adds_runTask {i : ι} {rest done : List Effect} {e : JobEvent} (he : e ∈ s.world.jobTopic)
    (hdone : s.Done e done) {outcome : RunTaskOutcome} (started : Option TaskArn)
    (hcourse : Course e (done ++ [.runTask (requestOf e) outcome]) rest) :
    Adds s ({ s with inHand := Function.update s.inHand i rest }.perform started
      (.runTask (requestOf e) outcome)) := by
  have hgrows : Grows s ({ s with inHand := Function.update s.inHand i rest }.perform started
      (.runTask (requestOf e) outcome)) :=
    { containers := fun c hc => ⟨c, List.mem_append_left _ hc, rfl, rfl, .refl c.phase⟩
      failedCalls := fun jobId => by
        simp only [failedCalls, perform, List.countP_append]
        exact Nat.le_add_right _ _ }
  refine { toGrows := hgrows, newInHand := working_update rfl (.inr ?_), newContainers := ?_ }
  · refine ⟨e, he, _, ⟨fun arn harn => ?_, ?_⟩, hcourse⟩
    · rcases List.mem_append.mp harn with hold | hnew
      · exact (hdone.launched arn hold).mono hgrows
      · obtain ⟨-, rfl⟩ := Effect.runTask.inj (List.mem_singleton.mp hnew)
        exact ⟨_, List.mem_append_right _ (List.mem_singleton_self _), rfl, rfl⟩
    · have hcalls := hdone.failed
      simp only [failedCalls, perform, List.countP_append, List.countP_singleton, failsLaunch,
        requestOf, decide_true, Bool.true_and] at hcalls ⊢
      exact Nat.add_le_add_right hcalls _
  · intro c hc
    rcases List.mem_append.mp hc with hold | hnew
    · exact .inl ⟨c, hold, rfl⟩
    · obtain ⟨arn, -, rfl⟩ := List.mem_map.mp hnew
      exact .inr ⟨e, he, rfl⟩

private theorem adds_act (hs : s.Sound) {i : ι} {effect : Effect} {rest : List Effect}
    (hhand : s.inHand i = effect :: rest) (started : Option TaskArn) :
    Adds s ({ s with inHand := Function.update s.inHand i rest }.perform started effect) := by
  obtain ⟨e, he, done, hdone, hcourse⟩ := hs.inHand i (hhand ▸ List.cons_ne_nil effect rest)
  rw [hhand] at hcourse
  obtain ⟨hfollows, hrest⟩ := hcourse
  have hannounced : s.Announced e.jobId := ⟨e, he, rfl⟩
  cases hfollows with
  | provisioning =>
    have hworking : s.Working rest := ⟨e, he, _, hdone.snoc fun _ _ => Effect.noConfusion, hrest⟩
    exact adds_callback hworking ⟨hannounced, hannounced, fun _ h => (by cases h),
      fun _ h => (by cases h)⟩ hs
  | runTask outcome => exact adds_runTask he hdone started hrest
  | launched arn hlaunched =>
    have hworking : s.Working rest := ⟨e, he, _, hdone.snoc fun _ _ => Effect.noConfusion, hrest⟩
    refine adds_callback hworking ⟨hannounced, hannounced, ?_, fun _ h => (by cases h)⟩ hs
    intro text htext
    obtain rfl := Option.some.inj htext
    exact hdone.launched arn hlaunched
  | sleep seconds =>
    have hworking : s.Working rest := ⟨e, he, _, hdone.snoc fun _ _ => Effect.noConfusion, hrest⟩
    exact { newInHand := working_update rfl (.inr (hworking.mono {})) }
  | failed lastError hfailed =>
    have hworking : s.Working rest := ⟨e, he, _, hdone.snoc fun _ _ => Effect.noConfusion, hrest⟩
    have hcalls := hfailed.trans hdone.failed
    refine adds_callback hworking ⟨hannounced, .inr ⟨e, he, rfl, hcalls⟩,
      fun _ h => (by cases h), ?_⟩ hs
    intro text htext
    obtain rfl := Option.some.inj htext
    exact ⟨e, he, rfl, ⟨lastError, rfl⟩, hcalls⟩
  | deadLetter lastError hfailed =>
    have hworking : s.Working rest := ⟨e, he, _, hdone.snoc fun _ _ => Effect.noConfusion, hrest⟩
    exact {
      newInHand := working_update rfl (.inr (hworking.mono {}))
      newDeadLetters := by
        intro record hrecord
        refine (List.mem_append.mp hrecord).imp_right fun hnew => ?_
        obtain rfl := List.mem_singleton.mp hnew
        exact ⟨e, he, rfl, rfl, rfl, hfailed.trans hdone.failed⟩ }

end Consumers

/-! ## The containers -/

/-- A container moves on and reports it. -/
theorem adds_send (hs : s.Sound) {n : ℕ} {c : Container} (hc : s.containers[n]? = some c)
    {u : JobStatusUpdate} {phase : ContainerPhase} (hlater : Later c.phase phase)
    (hcause : (s.send n c.request.jobId u phase).Ran c.request.jobId (· = phase) →
      (s.send n c.request.jobId u phase).Cause c.request.jobId u.status)
    (hcontainer : u.containerId = none) (herror : u.errorMessage = none) :
    Adds s (s.send n c.request.jobId u phase) := by
  have hmoved : { c with phase := phase } ∈ (s.send n c.request.jobId u phase).containers := by
    refine List.mem_of_getElem? (i := n) ?_
    show (s.containers.modify n _)[n]? = _
    rw [List.getElem?_modify, hc]
    simp
  have hgrows : Grows s (s.send n c.request.jobId u phase) :=
    { containers := by
        intro old hold
        obtain ⟨k, hk⟩ := List.mem_iff_getElem?.mp hold
        by_cases hkn : n = k
        · subst hkn
          obtain rfl := Option.some.inj (hc.symm.trans hk)
          exact ⟨_, hmoved, rfl, rfl, hlater⟩
        · refine ⟨old, List.mem_of_getElem? (i := k) ?_, rfl, rfl, .refl old.phase⟩
          show (s.containers.modify n _)[k]? = _
          rw [List.getElem?_modify, hk]
          simp [hkn] }
  obtain ⟨e, he, hrequest⟩ := hs.containers c (List.mem_of_getElem? hc)
  exact {
    toGrows := hgrows
    newSent := by
      intro m hm
      refine (List.mem_append.mp hm).imp_right fun hnew => ?_
      obtain rfl := List.mem_singleton.mp hnew
      exact ⟨⟨e, he, by rw [hrequest]; rfl⟩, hcause ⟨_, hmoved, rfl, rfl⟩,
        fun arn harn => (by rw [hcontainer] at harn; cases harn),
        fun text htext => (by rw [herror] at htext; cases htext)⟩
    newContainers := by
      intro x hx
      left
      obtain ⟨k, hk⟩ := List.mem_iff_getElem?.mp hx
      replace hk : (s.containers.modify n _)[k]? = some x := hk
      rw [List.getElem?_modify] at hk
      obtain ⟨old, hold, rfl⟩ := Option.map_eq_some_iff.mp hk
      refine ⟨old, List.mem_of_getElem? hold, ?_⟩
      split <;> rfl }

/-! ## Every step, and every run -/

/-- The empty network is sound. -/
theorem sound_start : (start : Network ι).Sound where
  rows _ h := absurd h List.not_mem_nil
  sessions _ h := absurd h List.not_mem_nil
  drawn _ h := absurd h List.not_mem_nil
  tags _ h := absurd h List.not_mem_nil
  sent _ h := absurd h List.not_mem_nil
  inHand _ h := absurd rfl h
  containers _ h := absurd h List.not_mem_nil
  deadLetters _ h := absurd h List.not_mem_nil

/-- **One step.** -/
theorem adds_networkStep [DecidableEq ι] (h : s.Sound) (a : NetworkStep ι) :
    Adds s (networkStep s a) := by
  cases a with
  | create jobId now delivery request => exact adds_create h jobId now delivery request
  | cancel jobId now delivery => exact adds_cancel h jobId now delivery
  | arrive n now delivery =>
    simp only [networkStep]
    split
    · next hn => exact adds_update h (h.sent _ (List.mem_of_getElem? hn)) now delivery
    · exact {}
  | commit n =>
    simp only [networkStep]
    split
    · next hn => exact adds_commit h hn
    · exact {}
  | rollback n =>
    exact { newSessions := fun x hx => .inl (List.mem_of_mem_eraseIdx hx) }
  | take i offset outcomes =>
    simp only [networkStep]
    split
    · next he => exact adds_take (List.mem_of_getElem? he) i outcomes
    · exact {}
  | act i started =>
    simp only [networkStep]
    split
    · next hhand => exact adds_act h hhand started
    · exact {}
  | crash i => exact { newInHand := working_update rfl (.inl rfl) }
  | report n =>
    simp only [networkStep]
    split
    · next c hc =>
      split
      · next hphase =>
        refine adds_send h hc ⟨fun hnot => absurd hphase hnot, fun code hcode => ?_⟩ ?_ rfl rfl
        · rw [hphase] at hcode
          cases hcode
        · rintro ⟨c', hc', hid, hrunning⟩
          exact ⟨c', hc', hid, hrunning ▸ ContainerPhase.noConfusion⟩
      · exact {}
    · exact {}
  | finish n code =>
    simp only [networkStep]
    split
    · next c hc =>
      split
      · next hphase =>
        refine adds_send h hc ⟨fun _ => ContainerPhase.noConfusion, fun code hcode => ?_⟩ ?_ rfl
          rfl
        · rw [hphase] at hcode
          cases hcode
        · rintro ⟨c', hc', hid, hexited⟩
          by_cases hcode : code = 0
          · rw [exitStatus, if_pos hcode]
            exact ⟨c', hc', hid, hcode ▸ hexited⟩
          · rw [exitStatus, if_neg hcode]
            exact .inl ⟨c', hc', hid, code, hcode, hexited⟩
      · exact {}
    · exact {}

/-- Every run keeps the network sound. -/
theorem sound_invariant [DecidableEq ι] :
    Invariant (networkStep (ι := ι)) Network.Sound :=
  fun _ a h => h.adds (adds_networkStep h a)

end Network

/-- **Everything that is stored has a cause.** Callbacks may be lost, late, repeated and reordered,
messages handed out again, consumers crash, publishes fail, transactions overlap and roll back:
whatever a row says about its job (status, retries, container, error) was brought about by the
containers and launches of that job, or by a cancellation; every task that was launched for a
stored job runs what its row asks for, in an attempt within its budget; and an event is
dead-lettered only after `max_retries` failed launches. -/
theorem stored_has_cause {ι : Type*} [DecidableEq ι] (steps : List (NetworkStep ι)) :
    let s := run networkStep .start steps
    (∀ job ∈ s.world.jobs.rows, s.Justified job) ∧
      (∀ c ∈ s.containers, ∀ job ∈ s.world.jobs.rows, c.request.jobId = job.jobId →
        ∃ retry, retry.getD 0 ≤ job.maxRetries ∧ c.request = requestOf (eventOf job retry)) ∧
      ∀ record ∈ s.deadLetters, s.GivenUp record := by
  intro s
  have hs : s.Sound := Network.sound_invariant.run Network.sound_start steps
  refine ⟨fun job hjob => (hs.rows job hjob).toJustified, fun c hc job hjob hid => ?_,
    hs.deadLetters⟩
  obtain ⟨e, he, hrequest⟩ := hs.containers c hc
  have hjobId : e.jobId = job.jobId := by
    rw [hrequest] at hid
    exact hid
  have hevent := (hs.rows job hjob).events e he hjobId
  refine ⟨e.retry, ?_, hevent ▸ hrequest⟩
  have htag := hs.tags e he
  rwa [show e.maxRetries = job.maxRetries from congrArg JobEvent.maxRetries hevent] at htag

end DataHarbour.System
