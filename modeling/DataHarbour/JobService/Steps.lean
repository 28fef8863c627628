import DataHarbour.Machine.Runs
import DataHarbour.JobService.Operations

/-!
# What one call can do

Each operation touches one row and appends at most one event. The lemmas here give the
row stored under a key, and the contents of the two topics, after each kind of call; the
proofs about runs use them and do not unfold the operations again.
-/

namespace DataHarbour.JobService

open Python Relational Machine

/-! ## The row functions -/

/-- A new job has the id drawn for it. -/
@[simp] theorem newJob_jobId (jobId : JobId) (now : Time) (request : JobCreateRequest) :
    (newJob jobId now request).jobId = jobId := rfl

/-- Publishing leaves the id. -/
@[simp] theorem afterEnqueue_jobId (job : Job) (d : Delivery) :
    (job.afterEnqueue d).jobId = job.jobId := by
  cases d <;> rfl

/-- A cancellation leaves the id. -/
@[simp] theorem cancelled_jobId (job : Job) (now : Time) :
    (job.cancelled now).jobId = job.jobId := rfl

/-- A report retries exactly when it is FAILED within the budget. -/
theorem retries_iff {job : Job} {u : JobStatusUpdate} :
    job.retries u = true ↔ u.status = .failed ∧ job.retryCount < job.maxRetries := by
  simp [Job.retries]

/-- A report exhausts a job exactly when it is FAILED at the end of the budget. -/
theorem exhausts_iff {job : Job} {u : JobStatusUpdate} :
    job.exhausts u = true ↔ u.status = .failed ∧ job.maxRetries ≤ job.retryCount := by
  simp [Job.exhausts]

/-- A `FAILED` report with budget left queues the job again and publishes its event. -/
theorem updated_of_retry {job : Job} {u : JobStatusUpdate} (now : Time)
    (hfailed : u.status = .failed) (hbudget : job.retryCount < job.maxRetries) :
    job.updated u now =
        { job.record u now with retryCount := job.retryCount + 1, status := .queued } ∧
      job.resubmission u now = some (retryEvent (job.updated u now)) := by
  have hretries : job.retries u = true := retries_iff.mpr ⟨hfailed, hbudget⟩
  exact ⟨by simp [Job.updated, hretries], by simp [Job.resubmission, hretries]⟩

/-- A `FAILED` report with the budget used up marks the job dead. -/
theorem updated_of_exhausted {job : Job} {u : JobStatusUpdate} (now : Time)
    (hfailed : u.status = .failed) (hspent : job.maxRetries ≤ job.retryCount) :
    job.updated u now = { job.record u now with status := .dead } ∧
      job.resubmission u now = none := by
  have hretries : job.retries u = false := by simp [Job.retries, Nat.not_lt.mpr hspent]
  have hexhausts : job.exhausts u = true := exhausts_iff.mpr ⟨hfailed, hspent⟩
  exact ⟨by simp [Job.updated, hretries, hexhausts], by simp [Job.resubmission, hretries]⟩

/-- Every other report is stored as it is. -/
theorem updated_of_not_failed {job : Job} {u : JobStatusUpdate} (now : Time)
    (hfailed : u.status ≠ .failed) :
    job.updated u now = job.record u now ∧ job.resubmission u now = none := by
  have hretries : job.retries u = false := by simp [Job.retries, hfailed]
  have hexhausts : job.exhausts u = false := by simp [Job.exhausts, hfailed]
  exact ⟨by simp [Job.updated, hretries, hexhausts], by simp [Job.resubmission, hretries]⟩

/-- The three outcomes of a status report for the row: a retry, the end of the retry
budget, or the reported status itself. -/
theorem updated_cases (job : Job) (u : JobStatusUpdate) (now : Time) :
    (u.status = .failed ∧ job.retryCount < job.maxRetries ∧
      job.updated u now =
        { job.record u now with retryCount := job.retryCount + 1, status := .queued } ∧
      job.resubmission u now = some (retryEvent (job.updated u now))) ∨
    (u.status = .failed ∧ job.maxRetries ≤ job.retryCount ∧
      job.updated u now = { job.record u now with status := .dead } ∧
      job.resubmission u now = none) ∨
    (u.status ≠ .failed ∧ job.updated u now = job.record u now ∧
      job.resubmission u now = none) := by
  by_cases hfailed : u.status = .failed
  · rcases Nat.lt_or_ge job.retryCount job.maxRetries with hbudget | hspent
    · exact Or.inl ⟨hfailed, hbudget, updated_of_retry now hfailed hbudget⟩
    · exact Or.inr (Or.inl ⟨hfailed, hspent, updated_of_exhausted now hfailed hspent⟩)
  · exact Or.inr (Or.inr ⟨hfailed, updated_of_not_failed now hfailed⟩)

/-- An update leaves the id. -/
@[simp] theorem updated_jobId (job : Job) (u : JobStatusUpdate) (now : Time) :
    (job.updated u now).jobId = job.jobId := by
  rcases updated_cases job u now with ⟨-, -, h, -⟩ | ⟨-, -, h, -⟩ | ⟨-, h, -⟩ <;> rw [h] <;> rfl

/-- A retry event is about the job that is retried. -/
theorem resubmission_jobId {job : Job} {u : JobStatusUpdate} {now : Time} {e : JobEvent}
    (h : job.resubmission u now = some e) : e.jobId = job.jobId := by
  rcases updated_cases job u now with ⟨-, -, -, he⟩ | ⟨-, -, -, he⟩ | ⟨-, -, he⟩
  · rw [he, Option.some.injEq] at h
    simp [← h, retryEvent]
  · simp [he] at h
  · simp [he] at h

/-! ## Topics -/

/-- A topic gains the event of a publish that is delivered. -/
theorem mem_publish {ε : Type*} {d : Delivery} {topic : List ε} {event e : ε} :
    e ∈ d.publish topic event ↔ e ∈ topic ∨ (d = .delivered ∧ e = event) := by
  cases d <;> simp [Delivery.publish]

/-- A publish loses no event of its topic. -/
theorem mem_publish_of_mem {ε : Type*} {d : Delivery} {topic : List ε} {event e : ε}
    (h : e ∈ topic) : e ∈ d.publish topic event :=
  mem_publish.mpr (Or.inl h)

/-- Publishing an event of another job leaves a job's submissions as they were. -/
theorem filter_publish_of_ne {d : Delivery} {topic : List JobEvent} {event : JobEvent}
    {j : JobId} (h : event.jobId ≠ j) :
    (d.publish topic event).filter (·.jobId = j) = topic.filter (·.jobId = j) := by
  cases d <;> simp [Delivery.publish, h]

/-- Publishing an event of the job itself appends it to the job's submissions. -/
theorem filter_publish_self {d : Delivery} {topic : List JobEvent} {event : JobEvent}
    {j : JobId} (h : event.jobId = j) :
    (d.publish topic event).filter (·.jobId = j) =
      d.publish (topic.filter (·.jobId = j)) event := by
  cases d <;> simp [Delivery.publish, h]

/-! ## `update_job_status` -/

/-- The row stored under a key after a status report. -/
theorem find?_update (w : World) (jobId : JobId) (now : Time) (d : Delivery)
    (u : JobStatusUpdate) (k : JobId) :
    (step w (.update jobId now d u)).jobs.find? k =
      if jobId = k then (w.jobs.find? k).map (·.updated u now) else w.jobs.find? k := by
  cases hfind : w.jobs.find? jobId with
  | none =>
    by_cases hk : jobId = k
    · subst hk
      simp [step, updateJobStatus, hfind]
    · simp [step, updateJobStatus, hfind, hk]
  | some job =>
    have hkey : job.jobId = jobId := Table.key_of_find? hfind
    simp only [step, updateJobStatus, hfind, Table.find?_set, updated_jobId, hkey]
    by_cases hk : jobId = k
    · subst hk
      simp [hfind]
    · simp [hk]

/-- The job topic after a status report. -/
theorem jobTopic_update (w : World) (jobId : JobId) (now : Time) (d : Delivery)
    (u : JobStatusUpdate) :
    (step w (.update jobId now d u)).jobTopic =
      match (w.jobs.find? jobId).bind (·.resubmission u now) with
      | some event => d.publish w.jobTopic event
      | none => w.jobTopic := by
  cases hfind : w.jobs.find? jobId with
  | none => simp [step, updateJobStatus, hfind]
  | some job =>
    cases hevent : job.resubmission u now <;> simp [step, updateJobStatus, hfind, hevent]

/-- Updates leave the status topic. -/
@[simp] theorem statusTopic_update (w : World) (jobId : JobId) (now : Time) (d : Delivery)
    (u : JobStatusUpdate) :
    (step w (.update jobId now d u)).statusTopic = w.statusTopic := by
  cases hfind : w.jobs.find? jobId <;> simp [step, updateJobStatus, hfind]

/-- A status report for one job leaves the submissions of another as they were. -/
theorem submissions_update_of_ne {w : World} {jobId j : JobId} (now : Time) (d : Delivery)
    (u : JobStatusUpdate) (h : jobId ≠ j) :
    (step w (.update jobId now d u)).submissions j = w.submissions j := by
  unfold World.submissions
  rw [jobTopic_update]
  cases hfind : w.jobs.find? jobId with
  | none => rfl
  | some job =>
    cases hevent : job.resubmission u now with
    | none => simp [hevent]
    | some event =>
      have hid : event.jobId ≠ j := by
        rw [resubmission_jobId hevent, Table.key_of_find? hfind]
        exact h
      simpa [hevent] using filter_publish_of_ne hid

/-- The submissions of the job that a status report is about. -/
theorem submissions_update_self {w : World} {j : JobId} {job : Job} (now : Time)
    (d : Delivery) (u : JobStatusUpdate) (hfind : w.jobs.find? j = some job) :
    (step w (.update j now d u)).submissions j =
      if job.retries u then d.publish (w.submissions j) (retryEvent (job.updated u now))
      else w.submissions j := by
  have hkey : job.jobId = j := Table.key_of_find? hfind
  unfold World.submissions
  rw [jobTopic_update, hfind, Option.bind_some]
  by_cases hretries : job.retries u = true
  · have hid : (retryEvent (job.updated u now)).jobId = j := by simp [retryEvent, hkey]
    simp only [Job.resubmission, hretries, if_true]
    exact filter_publish_self hid
  · simp [Job.resubmission, hretries]

/-! ## `cancel_job` -/

/-- The row that a cancellation leaves: a terminal row as it was. -/
def Job.afterCancel (job : Job) (now : Time) : Job :=
  if job.status.isTerminal then job else job.cancelled now

/-- The row stored under a key after a cancellation. -/
theorem find?_cancel (w : World) (jobId : JobId) (now : Time) (d : Delivery) (k : JobId) :
    (step w (.cancel jobId now d)).jobs.find? k =
      if jobId = k then (w.jobs.find? k).map (·.afterCancel now) else w.jobs.find? k := by
  cases hfind : w.jobs.find? jobId with
  | none =>
    by_cases hk : jobId = k
    · subst hk
      simp [step, cancelJob, hfind]
    · simp [step, cancelJob, hfind, hk]
  | some job =>
    have hkey : job.jobId = jobId := Table.key_of_find? hfind
    by_cases hterminal : job.status.isTerminal = true
    · by_cases hk : jobId = k
      · subst hk
        simp [step, cancelJob, hfind, hterminal, Job.afterCancel]
      · simp [step, cancelJob, hfind, hterminal, hk]
    · simp only [step, cancelJob, hfind, hterminal, Bool.false_eq_true, if_false,
        Table.find?_set, cancelled_jobId, hkey]
      by_cases hk : jobId = k
      · subst hk
        simp [hfind, Job.afterCancel, hterminal]
      · simp [hk]

/-- Cancellations leave the job topic. -/
@[simp] theorem jobTopic_cancel (w : World) (jobId : JobId) (now : Time) (d : Delivery) :
    (step w (.cancel jobId now d)).jobTopic = w.jobTopic := by
  cases hfind : w.jobs.find? jobId with
  | none => simp [step, cancelJob, hfind]
  | some job =>
    by_cases hterminal : job.status.isTerminal = true <;>
      simp [step, cancelJob, hfind, hterminal]

/-- The status topic after a cancellation. -/
theorem statusTopic_cancel (w : World) (jobId : JobId) (now : Time) (d : Delivery) :
    (step w (.cancel jobId now d)).statusTopic =
      match w.jobs.find? jobId with
      | none => w.statusTopic
      | some job =>
        if job.status.isTerminal then w.statusTopic
        else d.publish w.statusTopic ⟨job.jobId, job.containerId⟩ := by
  cases hfind : w.jobs.find? jobId with
  | none => simp [step, cancelJob, hfind]
  | some job =>
    by_cases hterminal : job.status.isTerminal = true <;>
      simp [step, cancelJob, hfind, hterminal]

/-- Cancellations submit nothing. -/
@[simp] theorem submissions_cancel (w : World) (jobId : JobId) (now : Time) (d : Delivery)
    (j : JobId) : (step w (.cancel jobId now d)).submissions j = w.submissions j := by
  simp [World.submissions]

/-! ## `create_job` -/

/-- Creating a job under a stored id fails at the flush: only the metric remains. -/
theorem createJob_of_stored {w : World} {jobId : JobId} {old : Job} (now : Time) (d : Delivery)
    (request : JobCreateRequest) (hfind : w.jobs.find? jobId = some old) :
    step w (.create jobId now d request) =
      { w with metrics := w.metrics.submitted request } := by
  have hinsert : w.jobs.insert? ((newJob jobId now request).afterEnqueue d) = none :=
    Table.insert?_of_stored (by simpa using hfind)
  simp [step, createJob, hinsert]

/-- Creating a job stores its row, publishes its event and counts the submission. -/
theorem createJob_of_fresh {w : World} {jobId : JobId} (now : Time) (d : Delivery)
    (request : JobCreateRequest) (hfind : w.jobs.find? jobId = none) :
    ∃ h, step w (.create jobId now d request) =
      { jobs := w.jobs.insert ((newJob jobId now request).afterEnqueue d) h
        jobTopic := d.publish w.jobTopic (originalEvent jobId request)
        statusTopic := w.statusTopic
        metrics := (w.metrics.submitted request).afterEnqueue request.jobType d } := by
  have hfresh : w.jobs.find? ((newJob jobId now request).afterEnqueue d).jobId = none := by
    simpa using hfind
  exact ⟨hfresh, by simp [step, createJob, Table.insert?_of_fresh hfresh]⟩

/-- The row stored under a key after a submission. -/
theorem find?_create (w : World) (jobId : JobId) (now : Time) (d : Delivery)
    (request : JobCreateRequest) (k : JobId) :
    (step w (.create jobId now d request)).jobs.find? k =
      if jobId = k ∧ w.jobs.find? k = none then
        some ((newJob jobId now request).afterEnqueue d)
      else w.jobs.find? k := by
  cases hfind : w.jobs.find? jobId with
  | none =>
    obtain ⟨h, hstep⟩ := createJob_of_fresh now d request hfind
    rw [hstep, Table.find?_insert, afterEnqueue_jobId, newJob_jobId]
    by_cases hk : jobId = k
    · subst hk
      simp [hfind]
    · simp [hk]
  | some old =>
    rw [createJob_of_stored now d request hfind]
    by_cases hk : jobId = k
    · subst hk
      simp [hfind]
    · simp [hk]

/-- The job topic after a submission. -/
theorem jobTopic_create (w : World) (jobId : JobId) (now : Time) (d : Delivery)
    (request : JobCreateRequest) :
    (step w (.create jobId now d request)).jobTopic =
      if w.jobs.find? jobId = none then d.publish w.jobTopic (originalEvent jobId request)
      else w.jobTopic := by
  cases hfind : w.jobs.find? jobId with
  | none =>
    obtain ⟨h, hstep⟩ := createJob_of_fresh now d request hfind
    rw [hstep, if_pos rfl]
  | some old => rw [createJob_of_stored now d request hfind, if_neg (by simp)]

/-- Creations leave the status topic. -/
@[simp] theorem statusTopic_create (w : World) (jobId : JobId) (now : Time) (d : Delivery)
    (request : JobCreateRequest) :
    (step w (.create jobId now d request)).statusTopic = w.statusTopic := by
  cases hfind : w.jobs.find? jobId with
  | none =>
    obtain ⟨h, hstep⟩ := createJob_of_fresh now d request hfind
    rw [hstep]
  | some old => rw [createJob_of_stored now d request hfind]

/-- A submission under one id leaves the submissions of another as they were. -/
theorem submissions_create_of_ne {w : World} {jobId j : JobId} (now : Time) (d : Delivery)
    (request : JobCreateRequest) (h : jobId ≠ j) :
    (step w (.create jobId now d request)).submissions j = w.submissions j := by
  unfold World.submissions
  rw [jobTopic_create]
  split
  · exact filter_publish_of_ne h
  · rfl

/-- The submissions of a job after it is submitted under a fresh id. -/
theorem submissions_create_self {w : World} {j : JobId} (now : Time) (d : Delivery)
    (request : JobCreateRequest) (hfind : w.jobs.find? j = none) :
    (step w (.create j now d request)).submissions j =
      d.publish (w.submissions j) (originalEvent j request) := by
  unfold World.submissions
  rw [jobTopic_create, if_pos hfind]
  exact filter_publish_self rfl

/-- A submission under an id that is already stored changes neither row nor topic. -/
theorem create_of_stored {w : World} {j : JobId} {job : Job} (now : Time) (d : Delivery)
    (request : JobCreateRequest) (hfind : w.jobs.find? j = some job) :
    (step w (.create j now d request)).jobs.find? j = some job ∧
      (step w (.create j now d request)).submissions j = w.submissions j := by
  rw [find?_create, World.submissions, jobTopic_create]
  simp [hfind, World.submissions]

end DataHarbour.JobService
