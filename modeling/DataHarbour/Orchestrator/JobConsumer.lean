import DataHarbour.Orchestrator.EcsManager

/-!
# The job consumer

`JobConsumer._process_message`: up to `max_retries` attempts to launch the job's task, and
after the last failure a `FAILED` report and a dead letter. The function yields the effects
it has on the outside, in order; what `RunTask` answers to each attempt is an argument.
Status calls swallow their own errors, so they never change the course of the loop.
-/

namespace DataHarbour.Orchestrator

open Python JobService

/-- The payload of the dead-letter topic, without host and timestamp. -/
structure DeadLetter where
  /-- The value whose text is the message key. -/
  jobId : Json
  originalEvent : Json
  error : String
  attempts : ℤ

/-- One thing that `_process_message` does. -/
inductive Effect where
  /-- `_update_job_status`: a PUT to the job service for this job id. -/
  | callback (jobId : Json) (update : JobStatusUpdate)
  /-- A `RunTask` call and its outcome. -/
  | runTask (request : RunTaskRequest) (outcome : RunTaskOutcome)
  /-- `asyncio.sleep`. -/
  | sleep (seconds : ℕ)
  /-- `DLQProducer.publish`. -/
  | deadLetter (record : DeadLetter)

/-- `default_max_retries`. -/
def defaultMaxRetries : ℤ := 3

/-- The text of `last_error` inside the message. -/
def errorText : Option Exc → String
  | none => "None"
  | some e => e.str

/-- `err_msg`. -/
def launchFailedText (maxRetries : ℤ) (lastError : Option Exc) : String :=
  s!"Task launch failed after {maxRetries} attempts: {errorText lastError}"

/-- The effects after the loop has run out of attempts. -/
def exhausted (event jobId : Json) (maxRetries : ℤ) (lastError : Option Exc) : List Effect :=
  [.callback jobId
      { status := .failed, errorMessage := some (launchFailedText maxRetries lastError) },
    .deadLetter ⟨jobId, event, launchFailedText maxRetries lastError, maxRetries⟩]

/-- The pause after a failed attempt, except the last. -/
def backoff (attempt : ℕ) (maxRetries : ℤ) : List Effect :=
  if (attempt : ℤ) < maxRetries then [.sleep (min (2 ^ attempt) 30)] else []

/-- The loop from `attempt` on, with `remaining` attempts to go. -/
def launchAttempts (event jobId : Json) (maxRetries : ℤ) (outcomes : ℕ → RunTaskOutcome) :
    ℕ → ℕ → Option Exc → List Effect
  | 0, _, lastError => exhausted event jobId maxRetries lastError
  | remaining + 1, attempt, _ =>
    .callback jobId { status := .provisioning } ::
    match runTaskRequest event with
    | .error e =>
      backoff attempt maxRetries ++
        launchAttempts event jobId maxRetries outcomes remaining (attempt + 1) (some e)
    | .ok request =>
      .runTask request (outcomes attempt) ::
      match (outcomes attempt).result with
      | .ok arn => [.callback jobId { status := .provisioning, containerId := some arn.text }]
      | .error e =>
        backoff attempt maxRetries ++
          launchAttempts event jobId maxRetries outcomes remaining (attempt + 1) (some e)

/-- `_process_message`; `outcomes n` is what `RunTask` answers in attempt `n`. -/
def processMessage (event : Json) (outcomes : ℕ → RunTaskOutcome) :
    Except Exc (List Effect) := do
  let jobId ← event.get "job_id" (.str "unknown")
  let maxRetries ← (← event.get "max_retries" (.int defaultMaxRetries)).toInt
  return launchAttempts event jobId maxRetries outcomes maxRetries.toNat 1 none

/-! ## Events of the job service -/

/-- The `RunTask` request for a job event. -/
def requestOf (e : JobEvent) : RunTaskRequest where
  jobId := e.jobId
  retryCount := e.retry.getD 0
  entrypointScript := e.entrypoint
  arguments := " ".intercalate e.arguments
  sparkConfig := e.sparkConfig
  startedBy := startedBy e.jobId

/-- The effects of handling a job event. -/
def handleEvent (e : JobEvent) (outcomes : ℕ → RunTaskOutcome) : List Effect :=
  launchAttempts e.toJson (.str e.jobId) e.maxRetries outcomes e.maxRetries 1 none

/-- A job event never makes `_process_message` raise. -/
theorem processMessage_toJson (e : JobEvent) (outcomes : ℕ → RunTaskOutcome) :
    processMessage e.toJson outcomes = .ok (handleEvent e outcomes) := by
  have hid : e.toJson.get "job_id" (.str "unknown") = .ok (.str e.jobId) := by
    simp [JobEvent.toJson, Json.get]
  have hmax : e.toJson.get "max_retries" (.int defaultMaxRetries) =
      .ok (.int e.maxRetries) := by
    simp [JobEvent.toJson, Json.get]
  simp only [processMessage, hid, hmax, bind, Except.bind, Json.toInt, pure, Except.pure,
    Int.toNat_natCast, handleEvent]

/-- The effects of one attempt whose launch fails. -/
def failedAttempt (e : JobEvent) (outcomes : ℕ → RunTaskOutcome) (attempt : ℕ) : List Effect :=
  .callback (.str e.jobId) { status := .provisioning } ::
    .runTask (requestOf e) (outcomes attempt) :: backoff attempt e.maxRetries

/-- The effects of the attempt whose launch is accepted. -/
def launched (e : JobEvent) (arn : TaskArn) : List Effect :=
  [.callback (.str e.jobId) { status := .provisioning },
    .runTask (requestOf e) (.task arn),
    .callback (.str e.jobId) { status := .provisioning, containerId := some arn.text }]

/-- The loop ends with the first accepted call. -/
theorem launchAttempts_of_task {e : JobEvent} {outcomes : ℕ → RunTaskOutcome} {attempt : ℕ}
    {arn : TaskArn} (h : outcomes attempt = .task arn) (remaining : ℕ)
    (lastError : Option Exc) :
    launchAttempts e.toJson (.str e.jobId) e.maxRetries outcomes (remaining + 1) attempt
      lastError = launched e arn := by
  rw [launchAttempts, runTaskRequest_toJson]
  simp only [h, RunTaskOutcome.result]
  rfl

/-- After a call that failed the loop goes on with the next attempt. -/
theorem launchAttempts_of_failure {e : JobEvent} {outcomes : ℕ → RunTaskOutcome} {attempt : ℕ}
    (h : (outcomes attempt).accepted = false) (remaining : ℕ) (lastError : Option Exc) :
    ∃ err, launchAttempts e.toJson (.str e.jobId) e.maxRetries outcomes (remaining + 1) attempt
        lastError =
      failedAttempt e outcomes attempt ++ launchAttempts e.toJson (.str e.jobId) e.maxRetries
        outcomes remaining (attempt + 1) (some err) := by
  rw [launchAttempts, runTaskRequest_toJson]
  cases houtcome : outcomes attempt with
  | task arn => simp [houtcome, RunTaskOutcome.accepted] at h
  | raised err => exact ⟨err, by simp [failedAttempt, houtcome, RunTaskOutcome.result, requestOf]⟩
  | failure reason =>
    exact ⟨_, by simp [failedAttempt, houtcome, RunTaskOutcome.result, requestOf]; rfl⟩
  | noTasks =>
    exact ⟨_, by simp [failedAttempt, houtcome, RunTaskOutcome.result, requestOf]; rfl⟩

/-- The effects of `n` failed attempts, from `attempt` on. -/
def failedAttempts (e : JobEvent) (outcomes : ℕ → RunTaskOutcome) (attempt n : ℕ) :
    List Effect :=
  (List.range' attempt n).flatMap (failedAttempt e outcomes)

/-- The failed attempts in order, the first one apart. -/
theorem failedAttempts_succ (e : JobEvent) (outcomes : ℕ → RunTaskOutcome) (attempt n : ℕ) :
    failedAttempts e outcomes attempt (n + 1) =
      failedAttempt e outcomes attempt ++ failedAttempts e outcomes (attempt + 1) n := by
  rw [failedAttempts, List.range'_succ, List.flatMap_cons, failedAttempts]

/-- A failed call and the failed calls after it. -/
theorem failed_succ {outcomes : ℕ → RunTaskOutcome} {attempt n : ℕ}
    (hfirst : (outcomes attempt).accepted = false)
    (hlater : ∀ i < n, (outcomes (attempt + 1 + i)).accepted = false) :
    ∀ i < n + 1, (outcomes (attempt + i)).accepted = false := by
  intro i hi
  cases i with
  | zero => exact hfirst
  | succ i =>
    have hnext := hlater i (by omega)
    rwa [Nat.add_assoc, Nat.add_comm 1 i] at hnext

/-- **The two outcomes of the launch loop.** Either the first accepted attempt ends it, or
all attempts fail and the event is reported `FAILED` and dead-lettered. -/
theorem launchAttempts_cases (e : JobEvent) (outcomes : ℕ → RunTaskOutcome)
    (remaining attempt : ℕ) (lastError : Option Exc) :
    (∃ k arn, k < remaining ∧ (∀ i < k, (outcomes (attempt + i)).accepted = false) ∧
      outcomes (attempt + k) = .task arn ∧
      launchAttempts e.toJson (.str e.jobId) e.maxRetries outcomes remaining attempt lastError =
        failedAttempts e outcomes attempt k ++ launched e arn) ∨
    ((∀ i < remaining, (outcomes (attempt + i)).accepted = false) ∧ ∃ err,
      launchAttempts e.toJson (.str e.jobId) e.maxRetries outcomes remaining attempt lastError =
        failedAttempts e outcomes attempt remaining ++
          exhausted e.toJson (.str e.jobId) e.maxRetries err) := by
  induction remaining generalizing attempt lastError with
  | zero =>
    right
    exact ⟨by omega, lastError, rfl⟩
  | succ remaining ih =>
    cases haccepted : (outcomes attempt).accepted with
    | true =>
      left
      obtain ⟨arn, harn⟩ := RunTaskOutcome.accepted_iff.mp haccepted
      refine ⟨0, arn, by omega, by omega, harn, ?_⟩
      rw [launchAttempts_of_task harn]
      rfl
    | false =>
      obtain ⟨err, hstep⟩ := launchAttempts_of_failure haccepted remaining lastError
      rcases ih (attempt + 1) (some err) with
        ⟨k, arn, hk, hfailed, harn, heq⟩ | ⟨hfailed, err', heq⟩
      · left
        refine ⟨k + 1, arn, by omega, failed_succ haccepted hfailed, ?_, ?_⟩
        · rwa [Nat.add_assoc, Nat.add_comm 1 k] at harn
        · rw [hstep, heq, failedAttempts_succ, List.append_assoc]
      · right
        refine ⟨failed_succ haccepted hfailed, err', ?_⟩
        rw [hstep, heq, failedAttempts_succ, List.append_assoc]

end DataHarbour.Orchestrator
