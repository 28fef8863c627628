import DataHarbour.System.Lifecycle

/-!
# What `max_retries` counts

For the job service `max_retries` is the number of retries after a first attempt, and 0 is a
legal value: the job runs once. `JobConsumer` takes the same number as the bound of its loop of
`RunTask` calls, first call included. The two readings meet for every number but 0.
-/

namespace DataHarbour.System

open Python Relational Machine JobService Orchestrator

/-- The message is given up: its job is reported `FAILED`, or it is dead-lettered. -/
def givesUp : Effect → Bool
  | .callback _ u => u.status = .failed
  | .deadLetter _ => true
  | _ => false

/-- The effect is a `RunTask` call. -/
def isRunTask : Effect → Bool
  | .runTask _ _ => true
  | _ => false

/-- There is a `RunTask` call before the message is given up. -/
def RunTaskFirst (effects : List Effect) : Prop :=
  ∀ front effect rest, effects = front ++ effect :: rest → givesUp effect →
    ∃ call ∈ front, isRunTask call

/-- The orchestrator treats the job of a request as the job service means it. The submission
event, original or retry, leads to a `RunTask` call before anything is given up; and if, for a
job submitted while nothing else is under way, `RunTask` accepts every call and the container
exits with 0, the job succeeds. -/
structure HonoursMaxRetries (request : JobCreateRequest) : Prop where
  runTaskFirst : ∀ jobId retry outcomes,
    RunTaskFirst (handleEvent { originalEvent jobId request with retry := retry } outcomes)
  succeeds : ∀ time calls jobId outcomes,
    (run JobService.step .empty calls).jobs.find? jobId = none →
    (∀ n, (outcomes n).accepted) →
    let s := move time (.atRest (run JobService.step .empty calls)) (.create jobId request)
    (run (move time) s (round time outcomes 0 s)).world.storedStatus jobId = some .success

/-! ## Before a message is given up -/

/-- An attempt begins with a report and a call. -/
theorem launchAttempts_front (e : JobEvent) (outcomes : ℕ → RunTaskOutcome)
    (remaining attempt : ℕ) (lastError : Option Exc) :
    ∃ rest, launchAttempts e.toJson (.str e.jobId) e.maxRetries outcomes (remaining + 1) attempt
        lastError = .callback (.str e.jobId) { status := .provisioning } ::
          .runTask (requestOf e) (outcomes attempt) :: rest := by
  rw [launchAttempts, runTaskRequest_toJson]
  exact ⟨_, rfl⟩

/-- A message leads to a `RunTask` call before it is given up exactly if its `max_retries` is
not 0. -/
theorem runTaskFirst_iff (e : JobEvent) (outcomes : ℕ → RunTaskOutcome) :
    RunTaskFirst (handleEvent e outcomes) ↔ 0 < e.maxRetries := by
  constructor
  · intro h
    by_contra hzero
    have hmax : e.maxRetries = 0 := by omega
    obtain ⟨text, heffects⟩ : ∃ text, handleEvent e outcomes =
        [] ++ .callback (.str e.jobId) { status := .failed, errorMessage := some text } ::
          [.deadLetter ⟨.str e.jobId, e.toJson, text, e.maxRetries⟩] := by
      refine ⟨launchFailedText e.maxRetries none, ?_⟩
      unfold handleEvent
      rw [hmax]
      rfl
    obtain ⟨call, hcall, -⟩ := h _ _ _ heffects rfl
    exact List.not_mem_nil hcall
  · intro hpos front effect rest heffects hgivesUp
    obtain ⟨n, hn⟩ : ∃ n, e.maxRetries = n + 1 := ⟨e.maxRetries - 1, by omega⟩
    obtain ⟨later, hfront⟩ := launchAttempts_front e outcomes n 1 none
    rw [← hn] at hfront
    rw [handleEvent, hfront] at heffects
    -- neither of the first two effects gives the message up
    cases front with
    | nil =>
      obtain ⟨rfl, -⟩ := List.cons.inj heffects
      cases hgivesUp
    | cons first front =>
      obtain ⟨-, htail⟩ := List.cons.inj heffects
      cases front with
      | nil =>
        obtain ⟨rfl, -⟩ := List.cons.inj htail
        cases hgivesUp
      | cons call front =>
        obtain ⟨rfl, -⟩ := List.cons.inj htail
        exact ⟨_, List.mem_cons_of_mem first List.mem_cons_self, rfl⟩

/-! ## A job that nothing goes wrong with -/

/-- A round that launches the task at the first call, whose container exits with 0. -/
theorem success_of_first_call (time : ℕ → Time) {s : Composition} {e : JobEvent} {n : ℕ}
    {outcomes : ℕ → RunTaskOutcome} (hhand : s.inHand = [])
    (hget : s.world.jobTopic[s.offset]? = some e)
    (hbudget : s.world.budget e.jobId = some (n, e.maxRetries)) (hpos : 0 < e.maxRetries)
    (haccepted : (outcomes 1).accepted) :
    (run (move time) s (round time outcomes 0 s)).world.storedStatus e.jobId = some .success := by
  obtain ⟨arn, harn⟩ := RunTaskOutcome.accepted_iff.mp haccepted
  have heffects : handleEvent e outcomes = failedAttempts e outcomes 1 0 ++ launched e arn := by
    obtain ⟨k, hk⟩ : ∃ k, e.maxRetries = k + 1 := ⟨e.maxRetries - 1, by omega⟩
    have hlaunched := launchAttempts_of_task (e := e) harn k none
    rw [← hk] at hlaunched
    exact hlaunched
  obtain ⟨-, -, -, hletters, houtcome⟩ := round_launched time 0 hhand hget hbudget hpos
    (fun i hi => absurd hi (Nat.not_lt_zero i)) heffects
  cases houtcome with
  | launched arn' _ _ _ hsuccess _ => exact (hsuccess rfl).1
  | exhausted record _ _ hgrown _ _ =>
    rw [hletters] at hgrown
    exact absurd hgrown.symm (by simp)

/-- **Where the two readings of `max_retries` agree.** The orchestrator treats a job as the job
service means it if and only if its `max_retries` is not 0. -/
theorem honoursMaxRetries_iff (request : JobCreateRequest) :
    HonoursMaxRetries request ↔ 0 < request.maxRetries := by
  constructor
  · intro h
    exact (runTaskFirst_iff (originalEvent "" request) fun _ => .noTasks).mp
      (h.runTaskFirst "" none fun _ => .noTasks)
  · intro hpos
    constructor
    · intro jobId retry outcomes
      exact (runTaskFirst_iff _ outcomes).mpr hpos
    · intro time calls jobId outcomes hfresh haccepted s
      have hgrounded := grounded_invariant.run grounded_empty calls
      have hready : Ready jobId request.maxRetries 0 s :=
        ready_create time request hfresh (submissions_of_absent hgrounded.known hfresh)
      obtain ⟨-, e, -, hpending, -, rfl, hmax, -, -⟩ := hready.history
      have hbudget := hready.budget
      rw [← hmax] at hbudget hpos
      exact success_of_first_call time hready.inHand (getElem?_of_pending hpending) hbudget hpos
        (haccepted 1)

/-- The job with `max_retries` 0 is given up without a call. -/
theorem zero_retries_never_runs : ¬ HonoursMaxRetries { sampleRequest with maxRetries := 0 } := by
  intro h
  have hfirst := h.runTaskFirst "job-1" none fun _ => .task ⟨"arn:aws:ecs:task/1", by decide⟩
  obtain ⟨call, hcall, -⟩ := hfirst [] _ _ rfl rfl
  exact absurd hcall List.not_mem_nil

end DataHarbour.System
