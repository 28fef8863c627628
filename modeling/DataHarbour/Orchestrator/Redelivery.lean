import Mathlib.Data.List.Nodup
import DataHarbour.JobService.Operations
import DataHarbour.Orchestrator.JobConsumer

/-!
# Launches under redelivery

Kafka hands a message to `JobConsumer` at least once: after a crash or a rebalance it comes
again. `_process_message` keeps no record of what it has launched and asks nobody, so every
delivery that gets as far as an accepted `RunTask` call launches a task. A message is any JSON
value here; those that a service published are among them.
-/

namespace DataHarbour.Orchestrator

open Python

/-- The attempt that a `RunTask` request asks for: its job and the `retry_count`. -/
def RunTaskRequest.attempt (request : RunTaskRequest) : String × ℤ :=
  (request.jobId, request.retryCount)

/-- One delivery of a message. The process stops after `performed` effects; a delivery that is
handled to its end performs them all. -/
structure Handling where
  message : Json
  /-- What `RunTask` answers to each attempt. -/
  outcomes : ℕ → RunTaskOutcome
  performed : ℕ

/-- What a delivery did before the process stopped. -/
def Handling.effects (h : Handling) : List Effect :=
  match processMessage h.message h.outcomes with
  | .ok effects => effects.take h.performed
  | .error _ => []

/-- The attempt whose task an effect launches. -/
def Effect.launchedAttempt : Effect → Option (String × ℤ)
  | .runTask request (.task _) => some request.attempt
  | _ => none

/-- The attempts whose tasks a delivery launched. -/
def Handling.launches (h : Handling) : List (String × ℤ) :=
  h.effects.filterMap Effect.launchedAttempt

/-- At most one task was launched for each pair of job and `retry_count`. -/
def LaunchedOnce (deliveries : List Handling) : Prop :=
  (deliveries.flatMap Handling.launches).Nodup

/-- `max_retries` as `_process_message` reads it. -/
def readMaxRetries (message : Json) : Except Exc ℤ := do
  (← message.get "max_retries" (.int defaultMaxRetries)).toInt

/-- The delivery finds `RunTask` willing: the message makes a request for the attempt, one of
its `max_retries` calls is accepted, and the process gets as far as that call. Each failed
call before it takes three effects: the `PROVISIONING` report, the call and the pause. -/
def Handling.Accepted (h : Handling) (attempt : String × ℤ) : Prop :=
  ∃ request maxRetries, runTaskRequest h.message = .ok request ∧ request.attempt = attempt ∧
    readMaxRetries h.message = .ok maxRetries ∧
    ∃ n < maxRetries.toNat, (h.outcomes (1 + n)).accepted ∧ 3 * n + 1 < h.performed

/-! ## What one delivery launches -/

/-- A message is attempted as often as its `max_retries` says, or raises before the first attempt.
-/
theorem processMessage_eq (message : Json) (outcomes : ℕ → RunTaskOutcome) :
    (∃ jobId maxRetries, readMaxRetries message = .ok maxRetries ∧
      processMessage message outcomes =
        .ok (launchAttempts message jobId maxRetries outcomes maxRetries.toNat 1 none)) ∨
    ((∃ e, processMessage message outcomes = .error e) ∧
      ∀ maxRetries, readMaxRetries message ≠ .ok maxRetries) := by
  cases message with
  | obj entries =>
    cases hint : ((Dict.get? entries "max_retries").getD (.int defaultMaxRetries)).toInt with
    | ok maxRetries =>
      left
      exact ⟨(Dict.get? entries "job_id").getD (.str "unknown"), maxRetries,
        by simp [readMaxRetries, Json.get, hint, bind, Except.bind],
        by simp [processMessage, Json.get, hint, bind, Except.bind, pure, Except.pure]⟩
    | error e =>
      right
      exact ⟨⟨e, by simp [processMessage, Json.get, hint, bind, Except.bind]⟩,
        by simp [readMaxRetries, Json.get, hint, bind, Except.bind]⟩
  | null | bool | int | float | infinity | str | arr =>
    right
    exact ⟨⟨_, rfl⟩, by simp [readMaxRetries, Json.get, bind, Except.bind]⟩

private theorem launchedAttempt_of_not_accepted (request : RunTaskRequest)
    {outcome : RunTaskOutcome}
    (h : outcome.accepted = false) : (Effect.runTask request outcome).launchedAttempt = none := by
  cases outcome <;> first | rfl | cases h

private theorem filterMap_backoff (attempt : ℕ) (maxRetries : ℤ) :
    (backoff attempt maxRetries).filterMap Effect.launchedAttempt = [] := by
  unfold backoff
  split <;> rfl

private theorem filterMap_take_eq_nil {effects : List Effect} (n : ℕ)
    (h : effects.filterMap Effect.launchedAttempt = []) :
    (effects.take n).filterMap Effect.launchedAttempt = [] := by
  rw [List.filterMap_eq_nil_iff] at h ⊢
  exact fun effect heffect => h effect (List.mem_of_mem_take heffect)

/-- A message that makes no request launches nothing. -/
theorem filterMap_launchAttempts_of_error {event : Json} {e : Exc}
    (h : runTaskRequest event = .error e) (jobId : Json) (maxRetries : ℤ)
    (outcomes : ℕ → RunTaskOutcome) (remaining attempt : ℕ) (lastError : Option Exc) :
    (launchAttempts event jobId maxRetries outcomes remaining attempt lastError).filterMap
      Effect.launchedAttempt = [] := by
  induction remaining generalizing attempt lastError with
  | zero => rfl
  | succ remaining ih =>
    rw [launchAttempts, h, List.filterMap_cons_none rfl, List.filterMap_append,
      filterMap_backoff, ih]
    rfl

/-- The calls of the loop are accepted from `attempt` on, before the process stops. -/
def AcceptedFrom (outcomes : ℕ → RunTaskOutcome) (attempt remaining performed : ℕ) : Prop :=
  ∃ n < remaining, (outcomes (attempt + n)).accepted ∧ 3 * n + 1 < performed

/-- A call that is not the first one is accepted three effects later. -/
theorem acceptedFrom_succ_iff {outcomes : ℕ → RunTaskOutcome} {attempt : ℕ}
    (h : (outcomes attempt).accepted = false) (remaining performed : ℕ) :
    AcceptedFrom outcomes attempt (remaining + 1) performed ↔
      AcceptedFrom outcomes (attempt + 1) remaining (performed - 3) := by
  constructor
  · rintro ⟨n, hn, haccepted, hlt⟩
    cases n with
    | zero => simp [h] at haccepted
    | succ n =>
      refine ⟨n, by omega, ?_, by omega⟩
      rwa [Nat.add_assoc, Nat.add_comm 1 n]
  · rintro ⟨n, hn, haccepted, hlt⟩
    refine ⟨n + 1, by omega, ?_, by omega⟩
    rwa [Nat.add_assoc, Nat.add_comm 1 n] at haccepted

/-- The effects of a call that is not accepted, and then those of the attempts after it. -/
theorem launchAttempts_of_failed_call {event : Json} {request : RunTaskRequest}
    (hrequest : runTaskRequest event = .ok request) (jobId : Json) (maxRetries : ℤ)
    {outcomes : ℕ → RunTaskOutcome} {attempt : ℕ} (h : (outcomes attempt).accepted = false)
    (remaining : ℕ) (lastError : Option Exc) :
    ∃ err, launchAttempts event jobId maxRetries outcomes (remaining + 1) attempt lastError =
      [.callback jobId { status := .provisioning }, .runTask request (outcomes attempt)] ++
        (backoff attempt maxRetries ++ launchAttempts event jobId maxRetries outcomes remaining
          (attempt + 1) (some err)) := by
  rw [launchAttempts, hrequest]
  cases houtcome : outcomes attempt with
  | task arn => simp [houtcome, RunTaskOutcome.accepted] at h
  | raised err => exact ⟨err, rfl⟩
  | failure reason => exact ⟨_, rfl⟩
  | noTasks => exact ⟨_, rfl⟩

/-- **The launch loop.** It launches one task for the attempt of its request if one of its
calls is accepted before the process stops, and none otherwise. -/
theorem launches_loop {event : Json} {request : RunTaskRequest}
    (hrequest : runTaskRequest event = .ok request) (jobId : Json) {maxRetries : ℤ}
    (outcomes : ℕ → RunTaskOutcome) {remaining attempt : ℕ} (performed : ℕ)
    (lastError : Option Exc) (hloop : attempt + remaining = maxRetries.toNat + 1) :
    (AcceptedFrom outcomes attempt remaining performed ∧
      ((launchAttempts event jobId maxRetries outcomes remaining attempt lastError).take
        performed).filterMap Effect.launchedAttempt = [request.attempt]) ∨
    (¬ AcceptedFrom outcomes attempt remaining performed ∧
      ((launchAttempts event jobId maxRetries outcomes remaining attempt lastError).take
        performed).filterMap Effect.launchedAttempt = []) := by
  induction remaining generalizing attempt performed lastError with
  | zero =>
    right
    refine ⟨?_, filterMap_take_eq_nil performed rfl⟩
    rintro ⟨n, hn, -⟩
    omega
  | succ remaining ih =>
    cases haccepted : (outcomes attempt).accepted with
    | true =>
      obtain ⟨arn, harn⟩ := RunTaskOutcome.accepted_iff.mp haccepted
      rw [launchAttempts, hrequest]
      simp only [harn, RunTaskOutcome.result]
      rcases Nat.lt_or_ge 1 performed with hreached | hstopped
      · left
        refine ⟨⟨0, by omega, haccepted, by omega⟩, ?_⟩
        obtain ⟨rest, rfl⟩ := Nat.exists_eq_add_of_le hreached
        have hlaunch : (Effect.runTask request (.task arn)).launchedAttempt =
            some request.attempt := rfl
        rw [Nat.add_comm, List.take_succ_cons, List.take_succ_cons, List.filterMap_cons_none rfl,
          List.filterMap_cons_some hlaunch, filterMap_take_eq_nil rest rfl]
      · right
        constructor
        · rintro ⟨n, -, -, hlt⟩
          omega
        · obtain rfl | rfl : performed = 0 ∨ performed = 1 := by omega
          · rfl
          · rfl
    | false =>
      obtain ⟨err, hstep⟩ := launchAttempts_of_failed_call hrequest jobId maxRetries haccepted
        remaining lastError
      have hcall : [Effect.callback jobId { status := .provisioning },
          .runTask request (outcomes attempt)].filterMap Effect.launchedAttempt = [] := by
        rw [List.filterMap_cons_none rfl,
          List.filterMap_cons_none (launchedAttempt_of_not_accepted request haccepted),
          List.filterMap_nil]
      rw [hstep, acceptedFrom_succ_iff haccepted, List.take_append, List.filterMap_append,
        filterMap_take_eq_nil performed hcall, List.nil_append, List.take_append,
        List.filterMap_append, filterMap_take_eq_nil _ (filterMap_backoff attempt maxRetries),
        List.nil_append]
      cases remaining with
      | zero =>
        right
        refine ⟨?_, filterMap_take_eq_nil _ rfl⟩
        rintro ⟨n, hn, -⟩
        omega
      | succ remaining =>
        -- another call follows, so the failed one is followed by a pause
        have hpause : backoff attempt maxRetries = [.sleep (min (2 ^ attempt) 30)] := by
          rw [backoff, if_pos (by omega)]
        have hperformed : performed - [Effect.callback jobId { status := .provisioning },
            .runTask request (outcomes attempt)].length -
            (backoff attempt maxRetries).length = performed - 3 := by
          rw [hpause]
          simp only [List.length_cons, List.length_nil]
          omega
        rw [hperformed]
        exact ih (performed - 3) (some err) (by omega)

/-- A delivery launches the attempt that it finds `RunTask` willing for, once. -/
theorem launches_cases (h : Handling) :
    (∃ attempt, h.launches = [attempt] ∧ ∀ a, h.Accepted a ↔ a = attempt) ∨
      (h.launches = [] ∧ ∀ a, ¬ h.Accepted a) := by
  unfold Handling.launches Handling.effects
  rcases processMessage_eq h.message h.outcomes with
    ⟨jobId, maxRetries, hmax, hprocess⟩ | ⟨⟨e, hprocess⟩, hmax⟩
  · rw [hprocess]
    cases hrequest : runTaskRequest h.message with
    | error e =>
      right
      refine ⟨filterMap_take_eq_nil _ (filterMap_launchAttempts_of_error hrequest ..), ?_⟩
      rintro a ⟨request, -, hrequest', -⟩
      rw [hrequest] at hrequest'
      cases hrequest'
    | ok request =>
      rcases launches_loop hrequest jobId h.outcomes h.performed none
          (Nat.add_comm 1 maxRetries.toNat) with ⟨haccepted, hlaunches⟩ | ⟨hnone, hlaunches⟩
      · left
        refine ⟨request.attempt, hlaunches, fun a => ⟨?_, ?_⟩⟩
        · rintro ⟨request', -, hrequest', rfl, -⟩
          rw [hrequest, Except.ok.injEq] at hrequest'
          rw [hrequest']
        · rintro rfl
          exact ⟨request, maxRetries, hrequest, rfl, hmax, haccepted⟩
      · right
        refine ⟨hlaunches, ?_⟩
        rintro a ⟨-, maxRetries', -, -, hmax', haccepted⟩
        rw [hmax, Except.ok.injEq] at hmax'
        exact hnone (hmax' ▸ haccepted)
  · rw [hprocess]
    right
    refine ⟨rfl, ?_⟩
    rintro a ⟨-, maxRetries, -, -, hmax', -⟩
    exact hmax maxRetries hmax'

private theorem mem_launches_iff {h : Handling} {a : String × ℤ} :
    a ∈ h.launches ↔ h.Accepted a := by
  rcases launches_cases h with ⟨attempt, hlaunches, haccepted⟩ | ⟨hlaunches, haccepted⟩
  · rw [hlaunches, List.mem_singleton, haccepted]
  · rw [hlaunches]
    exact iff_of_false List.not_mem_nil (haccepted a)

private theorem nodup_launches (h : Handling) : h.launches.Nodup := by
  rcases launches_cases h with ⟨attempt, hlaunches, -⟩ | ⟨hlaunches, -⟩ <;> rw [hlaunches]
  · exact List.nodup_singleton attempt
  · exact List.nodup_nil

/-! ## All deliveries -/

/-- **When redelivery launches no attempt twice.** For every sequence of deliveries, whatever
`RunTask` calls fail and wherever the process stops, at most one task is launched for each pair
of job and `retry_count` if and only if no two deliveries find `RunTask` willing for the same
pair. -/
theorem launchedOnce_iff (deliveries : List Handling) :
    LaunchedOnce deliveries ↔
      deliveries.Pairwise fun h h' => ∀ attempt, ¬ (h.Accepted attempt ∧ h'.Accepted attempt) := by
  unfold LaunchedOnce
  rw [List.nodup_flatMap]
  constructor
  · rintro ⟨-, hdisjoint⟩
    refine hdisjoint.imp fun hd attempt hboth => ?_
    exact hd (mem_launches_iff.mpr hboth.1) (mem_launches_iff.mpr hboth.2)
  · intro hpairwise
    refine ⟨fun h _ => nodup_launches h, hpairwise.imp fun hp attempt hleft hright => ?_⟩
    exact hp attempt ⟨mem_launches_iff.mp hleft, mem_launches_iff.mp hright⟩

/-- A delivery of the sample job that is handled to its end. -/
def sampleHandling (arn : TaskArn) : Handling where
  message := (JobService.originalEvent "job-1" JobService.sampleRequest).toJson
  outcomes := fun _ => .task arn
  performed := 3

/-- The sample event is delivered twice, and each time a task is launched for the job's first
attempt. -/
theorem redelivered_event_launched_twice : ¬ LaunchedOnce
    [sampleHandling ⟨"arn:aws:ecs:task/1", by decide⟩,
      sampleHandling ⟨"arn:aws:ecs:task/2", by decide⟩] := by
  have hlaunches : ∀ arn, (sampleHandling arn).launches = [("job-1", 0)] := fun arn => rfl
  intro h
  simp [LaunchedOnce, hlaunches] at h

end DataHarbour.Orchestrator
