import Mathlib.Data.ENat.Lattice
import DataHarbour.Orchestrator.LaunchLoop
import DataHarbour.Orchestrator.Redelivery

/-!
# The two outcomes of the launch loop

A well-formed job event either ends with a task whose ARN is reported, after the first call of
`create_spark_job` that succeeds, or, when all its calls fail, with a `FAILED` report and a dead
letter. The status calls may fail in any pattern.
-/

namespace DataHarbour.Orchestrator

open Python JobService

/-! ## What is counted -/

/-- The effect is the `RunTask` call of a `create_spark_job` call. -/
def Effect.isCall : Effect → Bool
  | .runTask _ _ => true
  | _ => false

/-- The job id and the ARN of a `PROVISIONING` update that carries one. -/
def Effect.sentArn : Effect → Option (Json × String)
  | .callback jobId update =>
    if update.status = .provisioning then update.containerId.map (jobId, ·) else none
  | _ => none

/-- The job id of a `FAILED` update. -/
def Effect.failedJob : Effect → Option Json
  | .callback jobId update => if update.status = .failed then some jobId else none
  | _ => none

/-- The event and the attempts of a dead letter. -/
def Effect.published : Effect → Option (Json × ℤ)
  | .deadLetter record => some (record.originalEvent, record.attempts)
  | _ => none

/-- One task is launched and its ARN sent once; nothing is reported or published as failed. -/
structure EndsLaunched (jobId : Json) (arn : TaskArn) (effects : List Effect) : Prop where
  launched : effects.filterMap Effect.launchedArn = [arn]
  sent : effects.filterMap Effect.sentArn = [(jobId, arn.text)]
  notFailed : effects.filterMap Effect.failedJob = []
  notPublished : effects.filterMap Effect.published = []

/-- No task is launched; one `FAILED` update is sent and one dead letter published. -/
structure EndsGivenUp (jobId event : Json) (attempts : ℤ) (effects : List Effect) : Prop where
  notLaunched : effects.filterMap Effect.launchedArn = []
  failed : effects.filterMap Effect.failedJob = [jobId]
  published : effects.filterMap Effect.published = [(event, attempts)]

/-- A launch is not given up as well. -/
theorem EndsLaunched.not_endsGivenUp {jobId jobId' event : Json} {arn : TaskArn} {attempts : ℤ}
    {effects : List Effect} (h : EndsLaunched jobId arn effects) :
    ¬ EndsGivenUp jobId' event attempts effects := by
  intro hgivenUp
  have hnone := hgivenUp.notLaunched
  rw [h.launched] at hnone
  cases hnone

/-! ## The index of the first success -/

/-- The number of the first call that succeeds, infinite if there is none. -/
noncomputable def firstSuccess (outcomes : ℕ → RunTaskOutcome) : ℕ∞ :=
  ⨅ n ∈ {n : ℕ | 1 ≤ n ∧ (outcomes n).accepted}, (n : ℕ∞)

section FirstSuccess

variable {outcomes : ℕ → RunTaskOutcome}

/-- Failed calls put the first success off. -/
theorem succ_le_firstSuccess {m : ℕ} (h : ∀ i < m, (outcomes (1 + i)).accepted = false) :
    ((m + 1 : ℕ) : ℕ∞) ≤ firstSuccess outcomes := by
  refine le_iInf₂ fun n hn => Nat.cast_le.mpr ?_
  obtain ⟨hpos, haccepted⟩ := hn
  by_contra hle
  have hfailed := h (n - 1) (by omega)
  rw [Nat.add_sub_cancel' hpos, haccepted] at hfailed
  cases hfailed

private theorem firstSuccess_eq {k : ℕ} (h : (outcomes (1 + k)).accepted)
    (hbefore : ∀ i < k, (outcomes (1 + i)).accepted = false) :
    firstSuccess outcomes = (k + 1 : ℕ) := by
  apply le_antisymm
  · exact iInf₂_le (k + 1) ⟨Nat.le_add_left 1 k, Nat.add_comm 1 k ▸ h⟩
  · exact succ_le_firstSuccess hbefore

end FirstSuccess

/-! ## The loop -/

/-- The effects launch, report and publish nothing that is counted. -/
structure Quiet (effects : List Effect) : Prop where
  notLaunched : effects.filterMap Effect.launchedArn = []
  notSent : effects.filterMap Effect.sentArn = []
  notFailed : effects.filterMap Effect.failedJob = []
  notPublished : effects.filterMap Effect.published = []

section Loop

variable {event jobId : Json} {request : RunTaskRequest} {arn : TaskArn}
  {front effects : List Effect}

/-- Quiet effects before a launch leave its outcome. -/
theorem EndsLaunched.append (hfront : Quiet front) (h : EndsLaunched jobId arn effects) :
    EndsLaunched jobId arn (front ++ effects) where
  launched := by rw [List.filterMap_append, hfront.notLaunched, h.launched, List.nil_append]
  sent := by rw [List.filterMap_append, hfront.notSent, h.sent, List.nil_append]
  notFailed := by rw [List.filterMap_append, hfront.notFailed, h.notFailed, List.nil_append]
  notPublished := by
    rw [List.filterMap_append, hfront.notPublished, h.notPublished, List.nil_append]

/-- Quiet effects before the dead letter leave the outcome. -/
theorem EndsGivenUp.append {attempts : ℤ} (hfront : Quiet front)
    (h : EndsGivenUp jobId event attempts effects) :
    EndsGivenUp jobId event attempts (front ++ effects) where
  notLaunched := by
    rw [List.filterMap_append, hfront.notLaunched, h.notLaunched, List.nil_append]
  failed := by rw [List.filterMap_append, hfront.notFailed, h.failed, List.nil_append]
  published := by
    rw [List.filterMap_append, hfront.notPublished, h.published, List.nil_append]

/-- What a failed call does: a report without an ARN, the call, and perhaps a pause. -/
def failedCall (jobId : Json) (request : RunTaskRequest) (outcome : RunTaskOutcome)
    (attempt : ℕ) (maxRetries : ℤ) : List Effect :=
  [.callback jobId { status := .provisioning }, .runTask request outcome] ++
    backoff attempt maxRetries

private theorem quiet_failedCall {outcome : RunTaskOutcome} (h : outcome.accepted = false)
    (attempt : ℕ) (maxRetries : ℤ) :
    Quiet (failedCall jobId request outcome attempt maxRetries) := by
  unfold failedCall backoff
  cases outcome with
  | task arn => cases h
  | raised | failure | noTasks => split <;> exact ⟨rfl, rfl, rfl, rfl⟩

private theorem countP_failedCall (outcome : RunTaskOutcome) (attempt : ℕ) (maxRetries : ℤ) :
    (failedCall jobId request outcome attempt maxRetries).countP Effect.isCall = 1 := by
  unfold failedCall backoff
  split <;> rfl

/-- **The launch loop from any attempt on.** The call that succeeds first is its last one, or
all calls that remain are made and fail. -/
theorem launchAttempts_ends (hrequest : runTaskRequest event = .ok request) (jobId : Json)
    (maxRetries : ℤ) (outcomes : ℕ → RunTaskOutcome) (remaining attempt : ℕ)
    (lastError : Option Exc) :
    (∃ k arn, k < remaining ∧ (∀ i < k, (outcomes (attempt + i)).accepted = false) ∧
      (outcomes (attempt + k)).accepted ∧
      (launchAttempts event jobId maxRetries outcomes remaining attempt lastError).countP
        Effect.isCall = k + 1 ∧
      EndsLaunched jobId arn
        (launchAttempts event jobId maxRetries outcomes remaining attempt lastError)) ∨
    ((∀ i < remaining, (outcomes (attempt + i)).accepted = false) ∧
      (launchAttempts event jobId maxRetries outcomes remaining attempt lastError).countP
        Effect.isCall = remaining ∧
      EndsGivenUp jobId event maxRetries
        (launchAttempts event jobId maxRetries outcomes remaining attempt lastError)) := by
  induction remaining generalizing attempt lastError with
  | zero =>
    right
    exact ⟨fun i hi => absurd hi (Nat.not_lt_zero i), rfl, ⟨rfl, rfl, rfl⟩⟩
  | succ remaining ih =>
    cases haccepted : (outcomes attempt).accepted with
    | true =>
      left
      obtain ⟨arn, harn⟩ := RunTaskOutcome.accepted_iff.mp haccepted
      refine ⟨0, arn, Nat.succ_pos remaining, fun i hi => absurd hi (Nat.not_lt_zero i),
        haccepted, ?_⟩
      rw [launchAttempts, hrequest]
      simp only [harn, RunTaskOutcome.result]
      exact ⟨rfl, ⟨rfl, rfl, rfl, rfl⟩⟩
    | false =>
      obtain ⟨err, hstep⟩ := launchAttempts_of_failed_call hrequest jobId maxRetries haccepted
        remaining lastError
      rw [← List.append_assoc, ← failedCall] at hstep
      have hquiet : Quiet (failedCall jobId request (outcomes attempt) attempt maxRetries) :=
        quiet_failedCall haccepted attempt maxRetries
      rw [hstep, List.countP_append, countP_failedCall]
      rcases ih (attempt + 1) (some err) with
        ⟨k, arn, hk, hfailed, hsuccess, hcalls, hends⟩ | ⟨hfailed, hcalls, hends⟩
      · left
        refine ⟨k + 1, arn, Nat.succ_lt_succ hk, failed_succ haccepted hfailed, ?_, ?_,
          hends.append hquiet⟩
        · rwa [Nat.add_assoc, Nat.add_comm 1 k] at hsuccess
        · rw [hcalls, Nat.add_comm]
      · right
        refine ⟨failed_succ haccepted hfailed, ?_, hends.append hquiet⟩
        rw [hcalls, Nat.add_comm]

end Loop

/-! ## Well-formed events -/

/-- A job event with this id and `max_retries`: what the consumer reads of it has its type. -/
structure WellFormed (event : Json) (jobId : String) (maxRetries : ℤ) : Prop where
  jobId : event.getItem "job_id" = .ok (.str jobId)
  entrypoint : ∃ script, event.getItem "entrypoint" = .ok (.str script)
  arguments : ∃ words : List String,
    event.get "arguments" (.arr []) = .ok (.arr (words.map .str))
  sparkConfig : ∃ entries, event.get "spark_config" (.obj []) = .ok (.obj entries)
  retryCount : ∃ n, event.get "retry_count" (.int 0) = .ok (.int n)
  maxRetries : event.get "max_retries" (.int defaultMaxRetries) = .ok (.int maxRetries)

private theorem wellFormed_toJson (e : JobEvent) : WellFormed e.toJson e.jobId e.maxRetries where
  jobId := by simp [JobEvent.toJson, Json.getItem]
  entrypoint := ⟨e.entrypoint, by simp [JobEvent.toJson, Json.getItem]⟩
  arguments := ⟨e.arguments, by simp [JobEvent.toJson, Json.get]⟩
  sparkConfig := ⟨e.sparkConfig, by simp [JobEvent.toJson, Json.get]⟩
  retryCount := by
    cases hretry : e.retry with
    | none => exact ⟨0, by simp [JobEvent.toJson, Json.get, hretry]⟩
    | some n => exact ⟨n, by simp [JobEvent.toJson, Json.get, hretry]⟩
  maxRetries := by simp [JobEvent.toJson, Json.get]

section Events

variable {event : Json} {jobId : String} {m : ℤ}

/-- `create_spark_job` gets as far as `RunTask`. -/
theorem WellFormed.exists_request (h : WellFormed event jobId m) :
    ∃ request, runTaskRequest event = .ok request := by
  obtain ⟨script, hscript⟩ := h.entrypoint
  obtain ⟨words, hwords⟩ := h.arguments
  obtain ⟨entries, hentries⟩ := h.sparkConfig
  obtain ⟨n, hn⟩ := h.retryCount
  simp only [runTaskRequest, h.jobId, hscript, hwords, hentries, hn, configItems, validated, sliced,
    Json.toInt, joinArguments_map_str, bind, Except.bind]
  exact ⟨_, rfl⟩

/-- The effects of `_process_message` are those of the loop. -/
theorem WellFormed.run_processMessage (h : WellFormed event jobId m) (answers : Answers)
    (before : List Effect) :
    (JobConsumer.processMessage answers event).run before =
      (launchAttempts event (.str jobId) m answers.runTask m.toNat 1 none, .ok ()) := by
  have hid : event.get "job_id" (.str "unknown") = .ok (.str jobId) := by
    have hitem := h.jobId
    cases event with
    | obj entries =>
      cases hentry : Dict.get? entries "job_id" with
      | none => simp [Json.getItem, hentry] at hitem
      | some v => simpa [Json.getItem, Json.get, hentry] using hitem
    | null | bool | int | float | infinity | str | arr => cases hitem
  rw [Orchestrator.run_processMessage, processMessage, hid]
  simp only [bind, Except.bind, h.maxRetries, Json.toInt]
  rfl

/-- **The outcome of the launch loop.** `_process_message` returns after as many calls as it
takes to succeed, `max_retries` at most, and ends in one of two ways. The status calls and the
send to the dead-letter topic change nothing of this by failing. -/
theorem launch_loop_outcome (h : WellFormed event jobId m) (runTask : ℕ → RunTaskOutcome) :
    ∃ effects,
      (∀ put send before,
        (JobConsumer.processMessage ⟨runTask, put, send⟩ event).run before = (effects, .ok ())) ∧
      (effects.countP Effect.isCall : ℕ∞) = min (firstSuccess runTask) m.toNat ∧
      Xor (firstSuccess runTask ≤ m.toNat ∧ ∃ arn, EndsLaunched (.str jobId) arn effects)
        (EndsGivenUp (.str jobId) event m effects) := by
  obtain ⟨request, hrequest⟩ := h.exists_request
  refine ⟨launchAttempts event (.str jobId) m runTask m.toNat 1 none,
    fun put send before => h.run_processMessage ⟨runTask, put, send⟩ before, ?_⟩
  rcases launchAttempts_ends hrequest (.str jobId) m runTask m.toNat 1 none with
    ⟨k, arn, hk, hfailed, hsuccess, hcalls, hends⟩ | ⟨hfailed, hcalls, hends⟩
  · have hle : firstSuccess runTask ≤ m.toNat := by
      rw [firstSuccess_eq hsuccess hfailed]
      exact Nat.cast_le.mpr hk
    refine ⟨?_, .inl ⟨⟨hle, arn, hends⟩, hends.not_endsGivenUp⟩⟩
    rw [min_eq_left hle, firstSuccess_eq hsuccess hfailed, hcalls]
  · have hlt : (m.toNat : ℕ∞) < firstSuccess runTask :=
      lt_of_lt_of_le (Nat.cast_lt.mpr (Nat.lt_succ_self _)) (succ_le_firstSuccess hfailed)
    refine ⟨?_, .inr ⟨hends, fun hlaunched => absurd hlaunched.1 (not_le_of_gt hlt)⟩⟩
    rw [min_eq_right hlt.le, hcalls]

end Events

/-- `launch_loop_outcome` for the sample event with three attempts, of which the first is
throttled. -/
theorem launch_loop_outcome_throttled :
    let event := (originalEvent "job-1" { sampleRequest with maxRetries := 3 }).toJson
    let runTask := fun n =>
      if n = 1 then .raised (.clientError "ThrottlingException")
      else RunTaskOutcome.task ⟨"arn:aws:ecs:task/1", by decide⟩
    ∃ effects,
      (∀ put send before,
        (JobConsumer.processMessage ⟨runTask, put, send⟩ event).run before = (effects, .ok ())) ∧
      (effects.countP Effect.isCall : ℕ∞) = min (firstSuccess runTask) (3 : ℤ).toNat ∧
      Xor (firstSuccess runTask ≤ (3 : ℤ).toNat ∧
          ∃ arn, EndsLaunched (.str "job-1") arn effects)
        (EndsGivenUp (.str "job-1") event 3 effects) :=
  launch_loop_outcome
    (wellFormed_toJson (originalEvent "job-1" { sampleRequest with maxRetries := 3 })) _

end DataHarbour.Orchestrator
