import Mathlib.Logic.Function.Basic
import DataHarbour.Python.Json
import DataHarbour.Relational.Table

/-!
# The data of the job service

The enums, the request and response models, the `jobs` table, the two Kafka topics that
the service writes and its Prometheus metrics. `World` is everything that the three
operations of `JobService` read or change.
-/

namespace DataHarbour.JobService

open Python Relational

/-- A job id: the canonical text of a UUID. -/
abbrev JobId := String

/-- A point in time, in ticks of the service's clock. -/
abbrev Time := ℕ

/-- `JobStatus`, the values of the `status` column. -/
inductive JobStatus where
  | pending
  | queued
  | provisioning
  | running
  | success
  | failed
  | cancelled
  | dead
  deriving DecidableEq, Repr

/-- The text of a status on the wire and in the table. -/
def JobStatus.value : JobStatus → String
  | .pending => "PENDING"
  | .queued => "QUEUED"
  | .provisioning => "PROVISIONING"
  | .running => "RUNNING"
  | .success => "SUCCESS"
  | .failed => "FAILED"
  | .cancelled => "CANCELLED"
  | .dead => "DEAD"

/-- The terminal states of the retry model: `SUCCESS`, `CANCELLED`, `DEAD`. -/
def JobStatus.isTerminal : JobStatus → Bool
  | .success | .cancelled | .dead => true
  | _ => false

/-- `JobType`, the kinds of Spark job. -/
inductive JobType where
  | sparkSql
  | sparkEtl
  | sparkMl
  | sparkStreaming
  deriving DecidableEq, Repr

/-- The text of a job type on the wire and in the table. -/
def JobType.value : JobType → String
  | .sparkSql => "spark_sql"
  | .sparkEtl => "spark_etl"
  | .sparkMl => "spark_ml"
  | .sparkStreaming => "spark_streaming"

/-- `JobCreateRequest`: what a client submits. -/
structure JobCreateRequest where
  jobName : String
  jobType : JobType
  entrypoint : String
  arguments : List String := []
  sparkConfig : Dict := []
  databaseName : Option String := none
  tableName : Option String := none
  submittedBy : String
  maxRetries : ℕ := 3

/-- `JobStatusUpdate`: the body of a status callback. -/
structure JobStatusUpdate where
  status : JobStatus
  containerId : Option String := none
  errorMessage : Option String := none
  exitCode : Option ℤ := none
  deriving DecidableEq, Repr

/-- A row of the `jobs` table. -/
structure Job where
  jobId : JobId
  jobName : String
  jobType : JobType
  status : JobStatus := .pending
  sparkConfig : Dict
  entrypoint : String
  arguments : List String
  databaseName : Option String
  tableName : Option String
  containerId : Option String := none
  submittedBy : String
  submittedAt : Time
  startedAt : Option Time := none
  completedAt : Option Time := none
  errorMessage : Option String := none
  retryCount : ℕ := 0
  maxRetries : ℕ

/-- `JobResponse`: what the API returns about a job. -/
structure JobResponse where
  jobId : JobId
  jobName : String
  jobType : JobType
  status : JobStatus
  sparkConfig : Dict
  entrypoint : String
  arguments : List String
  databaseName : Option String
  tableName : Option String
  containerId : Option String := none
  submittedBy : String
  submittedAt : Option Time
  startedAt : Option Time := none
  completedAt : Option Time := none
  errorMessage : Option String
  retryCount : ℕ := 0
  maxRetries : ℕ
  message : Option String := none

/-- The event on the job topic that asks for one launch of a job. `retry` holds the
`retry_count` of a retry event; the original event has neither of the two retry keys. -/
structure JobEvent where
  jobId : JobId
  jobName : String
  jobType : JobType
  entrypoint : String
  arguments : List String
  sparkConfig : Dict
  databaseName : Option String
  tableName : Option String
  maxRetries : ℕ
  submittedBy : String
  retry : Option ℕ := none

/-- An optional string as a JSON value. -/
def jsonOfOption : Option String → Json
  | none => .null
  | some s => .str s

/-- The `dict` that the service hands to the Kafka producer for a job event. -/
def JobEvent.toJson (e : JobEvent) : Json :=
  .obj ([
    ("job_id", .str e.jobId),
    ("job_name", .str e.jobName),
    ("job_type", .str e.jobType.value),
    ("entrypoint", .str e.entrypoint),
    ("arguments", .arr (e.arguments.map .str)),
    ("spark_config", .obj e.sparkConfig),
    ("database_name", jsonOfOption e.databaseName),
    ("table_name", jsonOfOption e.tableName),
    ("max_retries", .int e.maxRetries),
    ("submitted_by", .str e.submittedBy)] ++
    match e.retry with
    | none => []
    | some n => [("retry", .bool true), ("retry_count", .int n)])

/-- The event on the status topic that asks the orchestrator to cancel a job. -/
structure CancelEvent where
  jobId : JobId
  containerId : Option String
  deriving DecidableEq

/-- The `dict` that the service hands to the Kafka producer for a cancel event. -/
def CancelEvent.toJson (e : CancelEvent) : Json :=
  .obj [
    ("job_id", .str e.jobId),
    ("action", .str "cancel"),
    ("container_id", jsonOfOption e.containerId)]

/-- What `send_job_event` did: the broker has the event, or the call raised and the broker has
nothing. -/
inductive Delivery where
  | delivered
  | failed
  deriving DecidableEq, Repr

/-- The topic after an attempt to publish an event on it. -/
def Delivery.publish {ε : Type*} (d : Delivery) (topic : List ε) (event : ε) : List ε :=
  match d with
  | .delivered => topic ++ [event]
  | .failed => topic

/-- The `reason` labels of `JOBS_FAILED_TOTAL`. -/
inductive FailureReason where
  | kafkaEnqueueError
  | maxRetriesExceeded
  | cancelled
  deriving DecidableEq, Repr

/-- The service's Prometheus metrics. -/
structure Metrics where
  jobsSubmittedTotal : JobType → String → ℕ := fun _ _ => 0
  jobsQueuedTotal : JobType → ℕ := fun _ => 0
  jobsFailedTotal : FailureReason → ℕ := fun _ => 0
  jobsCompletedTotal : JobType → ℕ := fun _ => 0
  jobsActive : ℤ := 0
  jobRetriesTotal : ℕ := 0

/-- One labelled counter of a metric, incremented. -/
def inc {label : Type*} [DecidableEq label] (counter : label → ℕ) (l : label) : label → ℕ :=
  Function.update counter l (counter l + 1)

/-- The committed `jobs` table, the contents of the two topics and the metrics. -/
structure World where
  jobs : Table Job.jobId
  /-- `kafka_job_topic`, oldest event first. -/
  jobTopic : List JobEvent
  /-- `kafka_job_status_topic`, oldest event first. -/
  statusTopic : List CancelEvent
  metrics : Metrics

/-- A new deployment: no rows, no events. -/
def World.empty : World := ⟨Table.empty, [], [], {}⟩

/-- The submission events published for a job. -/
def World.submissions (w : World) (jobId : JobId) : List JobEvent :=
  w.jobTopic.filter (·.jobId = jobId)

/-- The status stored for a job. -/
def World.storedStatus (w : World) (jobId : JobId) : Option JobStatus :=
  (w.jobs.find? jobId).map Job.status

end DataHarbour.JobService
