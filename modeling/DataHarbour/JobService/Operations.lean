import DataHarbour.JobService.Model

/-!
# The operations of `JobService`

`create_job`, `get_job`, `update_job_status` and `cancel_job`, each as one transaction
that commits. The outcome of the Kafka publish, the clock reading and the drawn UUID are
arguments. What an operation does to the row is a function of the row alone, so that the
same function serves the calls handled one at a time and the transactions that overlap.
-/

namespace DataHarbour.JobService

open Python Relational

/-- The row that `create_job` inserts. -/
def newJob (jobId : JobId) (now : Time) (request : JobCreateRequest) : Job where
  jobId := jobId
  jobName := request.jobName
  jobType := request.jobType
  status := .pending
  sparkConfig := request.sparkConfig
  entrypoint := request.entrypoint
  arguments := request.arguments
  databaseName := request.databaseName
  tableName := request.tableName
  submittedBy := request.submittedBy
  submittedAt := now
  maxRetries := request.maxRetries

/-- The event that `create_job` publishes, built from the request. -/
def originalEvent (jobId : JobId) (request : JobCreateRequest) : JobEvent where
  jobId := jobId
  jobName := request.jobName
  jobType := request.jobType
  entrypoint := request.entrypoint
  arguments := request.arguments
  sparkConfig := request.sparkConfig
  databaseName := request.databaseName
  tableName := request.tableName
  maxRetries := request.maxRetries
  submittedBy := request.submittedBy

/-- The event that `update_job_status` publishes for a retry, built from the row. -/
def retryEvent (job : Job) : JobEvent where
  jobId := job.jobId
  jobName := job.jobName
  jobType := job.jobType
  entrypoint := job.entrypoint
  arguments := job.arguments
  sparkConfig := job.sparkConfig
  databaseName := job.databaseName
  tableName := job.tableName
  maxRetries := job.maxRetries
  submittedBy := job.submittedBy
  retry := some job.retryCount

/-- The response that `get_job` builds from a row. -/
def Job.toResponse (job : Job) : JobResponse where
  jobId := job.jobId
  jobName := job.jobName
  jobType := job.jobType
  status := job.status
  sparkConfig := job.sparkConfig
  entrypoint := job.entrypoint
  arguments := job.arguments
  databaseName := job.databaseName
  tableName := job.tableName
  containerId := job.containerId
  submittedBy := job.submittedBy
  submittedAt := some job.submittedAt
  startedAt := job.startedAt
  completedAt := job.completedAt
  errorMessage := job.errorMessage
  retryCount := job.retryCount
  maxRetries := job.maxRetries

/-- `get_job`. -/
def getJob (w : World) (jobId : JobId) : Option JobResponse :=
  (w.jobs.find? jobId).map Job.toResponse

/-- The row after the publish of `create_job`: queued, or pending with the error. -/
def Job.afterEnqueue (job : Job) : Delivery → Job
  | .delivered => { job with status := .queued }
  | .failed =>
    { job with
      status := .pending
      errorMessage := some "Kafka enqueue failed; job is still pending" }

/-- The metrics after the publish of `create_job`. -/
def Metrics.afterEnqueue (m : Metrics) (jobType : JobType) : Delivery → Metrics
  | .delivered =>
    { m with
      jobsQueuedTotal := inc m.jobsQueuedTotal jobType
      jobsActive := m.jobsActive + 1 }
  | .failed => { m with jobsFailedTotal := inc m.jobsFailedTotal .kafkaEnqueueError }

/-- The `message` of the response to `create_job`. -/
def Delivery.queueMessage : Delivery → String
  | .delivered => "Job accepted and queued for execution"
  | .failed =>
    "Job accepted but not queued due to a messaging error. Please retry once Kafka is healthy."

/-- The response of `create_job` for the row it leaves. -/
def Job.toCreateResponse (job : Job) (delivery : Delivery) : JobResponse :=
  { job.toResponse with
    errorMessage := if delivery = .delivered then none else job.errorMessage
    message := some delivery.queueMessage }

/-- The metrics at the start of `create_job`. -/
def Metrics.submitted (m : Metrics) (request : JobCreateRequest) : Metrics :=
  let submitter := if request.submittedBy = "" then "unknown" else request.submittedBy
  { m with
    jobsSubmittedTotal := Function.update m.jobsSubmittedTotal request.jobType
      (inc (m.jobsSubmittedTotal request.jobType) submitter) }

/-- `create_job` for the drawn UUID `jobId`. A UUID that is already stored violates the
primary key, and the request fails before anything is published. -/
def createJob (w : World) (jobId : JobId) (now : Time) (delivery : Delivery)
    (request : JobCreateRequest) : World × Option JobResponse :=
  let m := w.metrics.submitted request
  let job := (newJob jobId now request).afterEnqueue delivery
  match w.jobs.insert? job with
  | none => ({ w with metrics := m }, none)
  | some jobs =>
    ({ w with
        jobs := jobs
        jobTopic := delivery.publish w.jobTopic (originalEvent jobId request)
        metrics := m.afterEnqueue request.jobType delivery },
      some (job.toCreateResponse delivery))

/-- `if new: column = new`: an absent or empty string keeps the stored value. -/
def overwrite (new old : Option String) : Option String :=
  match new with
  | some s => if s = "" then old else some s
  | none => old

/-- The statuses whose report stamps `completed_at`. -/
def JobStatus.completes : JobStatus → Bool
  | .success | .failed | .cancelled | .dead => true
  | _ => false

/-- The assignments of `update_job_status` before the retry logic. -/
def Job.record (job : Job) (update : JobStatusUpdate) (now : Time) : Job :=
  { job with
    status := update.status
    containerId := overwrite update.containerId job.containerId
    errorMessage := overwrite update.errorMessage job.errorMessage
    startedAt := if update.status = .running then some now else job.startedAt
    completedAt := if update.status.completes then some now else job.completedAt }

/-- A `FAILED` report finds retry budget left. -/
def Job.retries (job : Job) (update : JobStatusUpdate) : Bool :=
  update.status = .failed && job.retryCount < job.maxRetries

/-- A `FAILED` report finds the retry budget used up. -/
def Job.exhausts (job : Job) (update : JobStatusUpdate) : Bool :=
  update.status = .failed && job.maxRetries ≤ job.retryCount

/-- The row that `update_job_status` writes. -/
def Job.updated (job : Job) (update : JobStatusUpdate) (now : Time) : Job :=
  if job.retries update then
    { job.record update now with retryCount := job.retryCount + 1, status := .queued }
  else if job.exhausts update then { job.record update now with status := .dead }
  else job.record update now

/-- The submission event that `update_job_status` tries to publish, if any. -/
def Job.resubmission (job : Job) (update : JobStatusUpdate) (now : Time) : Option JobEvent :=
  if job.retries update then some (retryEvent (job.updated update now)) else none

/-- The metrics that `update_job_status` moves for the reported status. -/
def Metrics.record (m : Metrics) (jobType : JobType) : JobStatus → Metrics
  | .success =>
    { m with
      jobsActive := m.jobsActive - 1
      jobsCompletedTotal := inc m.jobsCompletedTotal jobType }
  | .dead =>
    { m with
      jobsActive := m.jobsActive - 1
      jobsFailedTotal := inc m.jobsFailedTotal .maxRetriesExceeded }
  | .failed => { m with jobsActive := m.jobsActive - 1 }
  | .cancelled =>
    { m with
      jobsActive := m.jobsActive - 1
      jobsFailedTotal := inc m.jobsFailedTotal .cancelled }
  | _ => m

/-- The metrics after `update_job_status`, retry logic included. -/
def Metrics.updated (m : Metrics) (job : Job) (update : JobStatusUpdate) : Metrics :=
  let m := m.record job.jobType update.status
  if job.retries update then
    { m with
      jobRetriesTotal := m.jobRetriesTotal + 1
      -- the job stays active across the retry, so the decrement is taken back
      jobsActive := m.jobsActive + 1 }
  else if job.exhausts update then
    { m with jobsFailedTotal := inc m.jobsFailedTotal .maxRetriesExceeded }
  else m

/-- `update_job_status`. A failed publish of the retry event is only logged. The texts of the
report fit their columns; `serve` has the reports that the flush refuses. -/
def updateJobStatus (w : World) (jobId : JobId) (now : Time) (delivery : Delivery)
    (update : JobStatusUpdate) : World × Option JobResponse :=
  match w.jobs.find? jobId with
  | none => (w, none)
  | some job =>
    let w' :=
      { w with
        jobs := w.jobs.set (job.updated update now)
        jobTopic :=
          match job.resubmission update now with
          | some event => delivery.publish w.jobTopic event
          | none => w.jobTopic
        metrics := w.metrics.updated job update }
    (w', getJob w' jobId)

/-- The row that `cancel_job` writes. -/
def Job.cancelled (job : Job) (now : Time) : Job :=
  { job with status := .cancelled, completedAt := some now }

/-- `cancel_job`. A terminal job is left alone; a failed publish is only logged. -/
def cancelJob (w : World) (jobId : JobId) (now : Time) (delivery : Delivery) :
    World × Option JobResponse :=
  match w.jobs.find? jobId with
  | none => (w, none)
  | some job =>
    if job.status.isTerminal then (w, getJob w jobId)
    else
      let w' :=
        { w with
          jobs := w.jobs.set (job.cancelled now)
          statusTopic := delivery.publish w.statusTopic ⟨job.jobId, job.containerId⟩ }
      (w', getJob w' jobId)

/-- One call of the service's API, with what the environment does during it. -/
inductive Call where
  | create (jobId : JobId) (now : Time) (delivery : Delivery) (request : JobCreateRequest)
  | update (jobId : JobId) (now : Time) (delivery : Delivery) (update : JobStatusUpdate)
  | cancel (jobId : JobId) (now : Time) (delivery : Delivery)

/-- The world after one call. -/
def step (w : World) : Call → World
  | .create jobId now delivery request => (createJob w jobId now delivery request).1
  | .update jobId now delivery update => (updateJobStatus w jobId now delivery update).1
  | .cancel jobId now delivery => (cancelJob w jobId now delivery).1

/-- The example submission of the request model, with one retry. -/
def sampleRequest : JobCreateRequest where
  jobName := "daily_sales_etl"
  jobType := .sparkEtl
  entrypoint := "s3://lakehouse-scripts/etl/sales_transform.py"
  arguments := ["--date", "2026-03-22", "--mode", "incremental"]
  databaseName := some "sales_db"
  tableName := some "transactions"
  submittedBy := "data_engineering_team"
  maxRetries := 1

end DataHarbour.JobService
