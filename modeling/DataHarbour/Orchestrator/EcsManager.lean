import DataHarbour.JobService.Model

/-!
# Launching and stopping ECS tasks

`ECSJobManager`: the `RunTask` request that `create_spark_job` builds from a job event, what
it makes of the answer, and `delete_spark_job`, which stops what `ListTasks` finds under the
same `startedBy`. Settings that only name AWS resources are left out of the request.
-/

namespace DataHarbour.Orchestrator

open Python

/-- The ARN of an ECS task; ARNs are not empty. -/
structure TaskArn where
  text : String
  nonempty : text ≠ "" := by decide

/-- An ARN is its text. -/
theorem TaskArn.ext_iff {a b : TaskArn} : a = b ↔ a.text = b.text := by
  cases a
  cases b
  simp

instance : DecidableEq TaskArn := fun _ _ => decidable_of_iff _ TaskArn.ext_iff.symm

/-- The overrides, tags and `startedBy` of one `RunTask` call. -/
structure RunTaskRequest where
  /-- `JOB_ID`, the `job-id` tag, and the job that `CALLBACK_URL` names. -/
  jobId : String
  /-- `JOB_RETRY_COUNT` and the `retry` tag. -/
  retryCount : ℤ
  /-- `ENTRYPOINT_SCRIPT`. -/
  entrypointScript : String
  /-- `ARGUMENTS`. -/
  arguments : String
  /-- The entries that `SPARK_EXTRA_CONF` lists as `--conf k=v`. -/
  sparkConfig : Dict
  startedBy : String

/-- `RunTask` with `count=1`: the call raises, or the response lists a failure, or it is
empty, or it carries the started task. -/
inductive RunTaskOutcome where
  | raised (e : Exc)
  | failure (reason : String)
  | noTasks
  | task (arn : TaskArn)
  deriving DecidableEq

/-- `f"dhp-orchestrator/{job_id[:8]}"`. -/
def startedBy (jobId : String) : String :=
  "dhp-orchestrator/" ++ String.ofList (jobId.toList.take 8)

/-- The items of `" ".join(...)`, from the one with index `i` on. -/
def joinedItems (i : ℕ) : List Json → Except Exc (List String)
  | [] => .ok []
  | .str word :: items => do
    let words ← joinedItems (i + 1) items
    return word :: words
  | item :: _ => .error (.typeError
      ("sequence item " ++ toString i ++ ": expected str instance, " ++ item.typeName ++ " found"))

/-- `" ".join(arguments)`. -/
def joinArguments (arguments : Json) : Except Exc String :=
  match arguments.iterate with
  | .ok items => (joinedItems 0 items).map (" ".intercalate ·)
  | .error _ => .error (.typeError "can only join an iterable")

/-- `spark_config.items()`. -/
def configItems : Json → Except Exc Dict
  | .obj entries => .ok entries
  | v => .error (v.noAttribute "items")

/-- The client checks the types of the parameters before it makes the call. -/
def validated : Json → Except Exc String
  | .str s => .ok s
  | _ => .error (.valueError "Parameter validation failed")

/-- `job_id[:8]`; a list has a slice and is turned away with the other parameters. -/
def sliced : Json → Except Exc Json
  | .str s => .ok (.str s)
  | .arr elems => .ok (.arr elems)
  | .obj _ => .error (.typeError "unhashable type: 'slice'")
  | v => .error (v.unsupported "is not subscriptable")

/-- `create_spark_job` up to the `RunTask` call. -/
def runTaskRequest (event : Json) : Except Exc RunTaskRequest := do
  let jobId ← event.getItem "job_id"
  let retryCount ← (← event.get "retry_count" (.int 0)).toInt
  let arguments ← event.get "arguments" (.arr [])
  let sparkConfig ← configItems (← event.get "spark_config" (.obj []))
  let entrypoint ← event.getItem "entrypoint"
  let words ← joinArguments arguments
  let jobId ← validated (← sliced jobId)
  let entrypoint ← validated entrypoint
  return {
    jobId := jobId
    retryCount := retryCount
    entrypointScript := entrypoint
    arguments := words
    sparkConfig := sparkConfig
    startedBy := startedBy jobId }

/-- `create_spark_job` after the `RunTask` call: the task's ARN, or the exception. -/
def RunTaskOutcome.result : RunTaskOutcome → Except Exc TaskArn
  | .raised e => .error e
  | .failure reason => .error (.runtimeError s!"ECS RunTask failures: {reason}")
  | .noTasks => .error (.runtimeError "ECS RunTask returned no tasks")
  | .task arn => .ok arn

/-- `RunTask` accepted the launch. -/
def RunTaskOutcome.accepted : RunTaskOutcome → Bool
  | .task _ => true
  | _ => false

/-- A call is accepted when it answers with a task. -/
theorem RunTaskOutcome.accepted_iff {outcome : RunTaskOutcome} :
    outcome.accepted = true ↔ ∃ arn, outcome = .task arn := by
  cases outcome <;> simp [accepted]

/-- A Spark task that runs in the cluster. -/
structure Task where
  arn : TaskArn
  /-- `JOB_ID` of the container. -/
  jobId : String
  startedBy : String
  deriving DecidableEq

/-- The task that an accepted request starts. -/
def RunTaskRequest.toTask (request : RunTaskRequest) (arn : TaskArn) : Task :=
  ⟨arn, request.jobId, request.startedBy⟩

/-- `_list_running_tasks_for_job`: `ListTasks` filters by `startedBy`. -/
def listRunningTasksForJob (cluster : List Task) (jobId : String) : List TaskArn :=
  (cluster.filter (·.startedBy = startedBy jobId)).map Task.arn

/-- `StopTask`: the task with the ARN leaves the cluster. -/
def stopTask (cluster : List Task) (arn : TaskArn) : List Task :=
  cluster.filter (·.arn ≠ arn)

private theorem joinedItems_map_str (i : ℕ) (words : List String) :
    joinedItems i (words.map Json.str) = .ok words := by
  induction words generalizing i with
  | nil => rfl
  | cons word words ih =>
    rw [List.map_cons, joinedItems, ih]
    rfl

/-- Arguments that are strings are joined by blanks. -/
theorem joinArguments_map_str (words : List String) :
    joinArguments (.arr (words.map .str)) = .ok (" ".intercalate words) := by
  simp only [joinArguments, Json.iterate, joinedItems_map_str]
  rfl

/-- The request for a job event carries the job's id and the attempt's number. -/
theorem runTaskRequest_toJson (e : JobService.JobEvent) :
    runTaskRequest e.toJson = .ok {
      jobId := e.jobId
      retryCount := e.retry.getD 0
      entrypointScript := e.entrypoint
      arguments := " ".intercalate e.arguments
      sparkConfig := e.sparkConfig
      startedBy := startedBy e.jobId } := by
  cases hretry : e.retry with
  | none =>
    simp only [runTaskRequest, JobService.JobEvent.toJson, hretry]
    simp [Json.getItem, Json.get, Json.toInt, configItems, bind,
      Except.bind, joinArguments_map_str, validated, sliced, pure, Except.pure]
  | some n =>
    simp only [runTaskRequest, JobService.JobEvent.toJson, hretry]
    simp [Json.getItem, Json.get, Json.toInt, configItems, bind,
      Except.bind, joinArguments_map_str, validated, sliced, pure, Except.pure]

end DataHarbour.Orchestrator
