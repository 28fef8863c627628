import DataHarbour.Orchestrator.Consumers
import DataHarbour.Python.Routines

/-!
# `_process_message` statement by statement

The status calls and the send to the dead-letter topic may fail, and their exceptions are caught
where the source catches them. Each stands in a `try` of its own, so what a message leads to
depends on the answers of `RunTask` alone.
-/

namespace DataHarbour.Orchestrator

open Python JobService

/-- What the outside answers while a message is handled. -/
structure Answers where
  /-- What `RunTask` answers to each attempt. -/
  runTask : ℕ → RunTaskOutcome
  /-- What the status calls do, one after the other. -/
  put : ℕ → Except Exc Unit
  /-- What the send to the dead-letter topic does. -/
  send : Except Exc Unit

/-- The effect is a status call. -/
def Effect.isCallback : Effect → Bool
  | .callback _ _ => true
  | _ => false

/-- `_update_job_status`. -/
def JobConsumer.updateJobStatus (answers : Answers) (jobId : Json) (update : JobStatusUpdate) :
    Routine Effect Unit :=
  .swallow (.perform (.callback jobId update) fun before =>
    answers.put (before.countP Effect.isCallback))

/-- `create_spark_job`. -/
def ECSJobManager.createSparkJob (answers : Answers) (jobEvent : Json) (attempt : ℕ) :
    Routine Effect TaskArn := do
  let request ← runTaskRequest jobEvent
  .perform (.runTask request (answers.runTask attempt)) fun _ => (answers.runTask attempt).result

/-- `DLQProducer.publish`, after `start` of the consumer has started the producer. -/
def DLQProducer.publish (answers : Answers) (originalEvent : Json) (error : String)
    (attempts : ℤ) : Routine Effect Unit := do
  let jobId ← originalEvent.get "job_id" (.str "unknown")
  .swallow (.perform (.deadLetter ⟨jobId, originalEvent, error, attempts⟩) fun _ => answers.send)

/-- `asyncio.sleep`. -/
def sleep (seconds : ℕ) : Routine Effect Unit := .perform (.sleep seconds) fun _ => .ok ()

namespace JobConsumer

/-- The body of the `try` in the launch loop. -/
def launch (answers : Answers) (jobEvent jobId : Json) (attempt : ℕ) : Routine Effect Unit := do
  updateJobStatus answers jobId { status := .provisioning }
  let taskArn ← ECSJobManager.createSparkJob answers jobEvent attempt
  updateJobStatus answers jobId { status := .provisioning, containerId := some taskArn.text }

/-- The end of `_process_message`, when no attempt is left. -/
def giveUp (answers : Answers) (jobEvent jobId : Json) (maxRetries : ℤ) (lastError : Option Exc) :
    Routine Effect Unit := do
  let errMsg := launchFailedText maxRetries lastError
  updateJobStatus answers jobId { status := .failed, errorMessage := some errMsg }
  DLQProducer.publish answers jobEvent errMsg maxRetries

/-- `_process_message` from `attempt` on, with `remaining` attempts to go. -/
def launchLoop (answers : Answers) (jobEvent jobId : Json) (maxRetries : ℤ) :
    ℕ → ℕ → Option Exc → Routine Effect Unit
  | 0, _, lastError => giveUp answers jobEvent jobId maxRetries lastError
  | remaining + 1, attempt, _ => do
    try
      launch answers jobEvent jobId attempt
    catch exc =>
      if (attempt : ℤ) < maxRetries then
        sleep (min (2 ^ attempt) 30)
      launchLoop answers jobEvent jobId maxRetries remaining (attempt + 1) (some exc)

/-- `_process_message`. -/
def processMessage (answers : Answers) (jobEvent : Json) : Routine Effect Unit := do
  let jobId ← jobEvent.get "job_id" (.str "unknown")
  let maxRetries ← (← jobEvent.get "max_retries" (.int defaultMaxRetries)).toInt
  launchLoop answers jobEvent jobId maxRetries maxRetries.toNat 1 none

end JobConsumer

/-! ## What the statements do together -/

section Effects

variable {answers : Answers} {event jobId : Json} {before : List Effect}

private theorem run_updateJobStatus (update : JobStatusUpdate) :
    (JobConsumer.updateJobStatus answers jobId update).run before =
      ([.callback jobId update], .ok ()) :=
  Routine.run_swallow _ _

private theorem run_publish (hid : event.get "job_id" (.str "unknown") = .ok jobId) (error : String)
    (attempts : ℤ) :
    (DLQProducer.publish answers event error attempts).run before =
      ([.deadLetter ⟨jobId, event, error, attempts⟩], .ok ()) := by
  rw [DLQProducer.publish, hid, Routine.bind_liftM_ok]
  exact Routine.run_swallow _ _

private theorem run_giveUp (hid : event.get "job_id" (.str "unknown") = .ok jobId) (maxRetries : ℤ)
    (lastError : Option Exc) :
    (JobConsumer.giveUp answers event jobId maxRetries lastError).run before =
      (exhausted event jobId maxRetries lastError, .ok ()) :=
  Routine.run_bind_of_ok (run_updateJobStatus _) (run_publish hid _ _)

/-- The body of the `try` when `create_spark_job` raises. -/
theorem run_launch_of_error {e : Exc} (h : runTaskRequest event = .error e) (attempt : ℕ) :
    (JobConsumer.launch answers event jobId attempt).run before =
      ([.callback jobId { status := .provisioning }], .error e) := by
  have hcreate (later : List Effect) :
      (ECSJobManager.createSparkJob answers event attempt).run later = ([], .error e) := by
    rw [ECSJobManager.createSparkJob, h]
    rfl
  exact Routine.run_bind_of_ok (run_updateJobStatus _) (Routine.run_bind_of_error (hcreate _))

/-- The body of the `try` when `create_spark_job` gets as far as `RunTask`. -/
theorem run_launch_of_ok {request : RunTaskRequest} (h : runTaskRequest event = .ok request)
    (attempt : ℕ) :
    (JobConsumer.launch answers event jobId attempt).run before =
      match (answers.runTask attempt).result with
      | .ok arn =>
        ([.callback jobId { status := .provisioning },
          .runTask request (answers.runTask attempt),
          .callback jobId { status := .provisioning, containerId := some arn.text }], .ok ())
      | .error e =>
        ([.callback jobId { status := .provisioning },
          .runTask request (answers.runTask attempt)], .error e) := by
  have hcreate (later : List Effect) :
      (ECSJobManager.createSparkJob answers event attempt).run later =
        ([.runTask request (answers.runTask attempt)], (answers.runTask attempt).result) := by
    rw [ECSJobManager.createSparkJob, h, Routine.bind_liftM_ok]
    rfl
  cases hresult : (answers.runTask attempt).result with
  | ok arn =>
    refine Routine.run_bind_of_ok (run_updateJobStatus _) ?_
    rw [hresult] at hcreate
    exact Routine.run_bind_of_ok (hcreate _) (run_updateJobStatus _)
  | error e =>
    refine Routine.run_bind_of_ok (run_updateJobStatus _) ?_
    rw [hresult] at hcreate
    exact Routine.run_bind_of_error (hcreate _)

/-- After a failed attempt the loop pauses, except before its end, and goes on. -/
theorem run_pause (attempt : ℕ) (maxRetries : ℤ) {rest : Routine Effect Unit}
    {effects : List Effect} (hrest : ∀ later, rest.run later = (effects, .ok ())) :
    (do
      if (attempt : ℤ) < maxRetries then
        sleep (min (2 ^ attempt) 30)
      rest : Routine Effect Unit).run before = (backoff attempt maxRetries ++ effects, .ok ()) := by
  unfold backoff
  split
  · have hsleep : (sleep (min (2 ^ attempt) 30)).run before =
        ([.sleep (min (2 ^ attempt) 30)], .ok ()) := rfl
    exact Routine.run_bind_of_ok hsleep (hrest _)
  · exact hrest _

/-- The loop returns, whatever raises in it. -/
theorem run_launchLoop (hid : event.get "job_id" (.str "unknown") = .ok jobId) (maxRetries : ℤ)
    (remaining attempt : ℕ) (lastError : Option Exc) :
    (JobConsumer.launchLoop answers event jobId maxRetries remaining attempt lastError).run before =
      (launchAttempts event jobId maxRetries answers.runTask remaining attempt lastError,
        .ok ()) := by
  induction remaining generalizing attempt lastError before with
  | zero => exact run_giveUp hid maxRetries lastError
  | succ remaining ih =>
    rw [JobConsumer.launchLoop, launchAttempts]
    cases hrequest : runTaskRequest event with
    | error e =>
      exact Routine.run_tryCatch_of_error (run_launch_of_error hrequest attempt)
        (run_pause attempt maxRetries fun _ => ih (attempt + 1) (some e))
    | ok request =>
      have hlaunch : (JobConsumer.launch answers event jobId attempt).run before = _ :=
        run_launch_of_ok hrequest attempt
      cases hresult : (answers.runTask attempt).result with
      | ok arn =>
        rw [hresult] at hlaunch
        exact Routine.run_tryCatch_of_ok hlaunch
      | error e =>
        rw [hresult] at hlaunch
        exact Routine.run_tryCatch_of_error hlaunch
          (run_pause attempt maxRetries fun _ => ih (attempt + 1) (some e))

/-- **The statements do what `processMessage` lists.** The status calls and the send to the
dead-letter topic change nothing by failing. -/
theorem run_processMessage (answers : Answers) (event : Json) (before : List Effect) :
    (JobConsumer.processMessage answers event).run before =
      match processMessage event answers.runTask with
      | .ok effects => (effects, .ok ())
      | .error e => ([], .error e) := by
  unfold JobConsumer.processMessage processMessage
  cases hid : event.get "job_id" (.str "unknown") with
  | error e => rfl
  | ok jobId =>
    cases hmax : event.get "max_retries" (.int defaultMaxRetries) with
    | error e => rfl
    | ok value =>
      simp only [Routine.bind_liftM_ok]
      cases hint : value.toInt with
      | error e =>
        simp only [bind, Except.bind, hint]
        rfl
      | ok maxRetries =>
        simp only [bind, Except.bind, hint]
        exact run_launchLoop hid maxRetries maxRetries.toNat 1 none

end Effects

end DataHarbour.Orchestrator
