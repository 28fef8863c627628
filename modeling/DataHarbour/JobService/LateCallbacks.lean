import DataHarbour.JobService.Steps

/-!
# Late and repeated status callbacks

`update_job_status` stores whatever status it is sent, while `cancel_job` first checks for
a terminal state. Callbacks travel over HTTP and are sent again when a response is lost,
so they arrive late and more than once. This file says exactly which callbacks leave a
terminal job alone, and exactly which ones can be repeated without effect.
-/

namespace DataHarbour.JobService

open Python Relational Machine

/-! ## Terminal states -/

/-- Terminal states are absorbing in a run: once the stored status of the job is terminal,
no later part of the run changes it or publishes a submission event for the job. -/
def TerminalAbsorbing (j : JobId) (w : World) (calls : List Call) : Prop :=
  ∀ before later rest, calls = before ++ later ++ rest →
    ∀ s, (run step w before).storedStatus j = some s → s.isTerminal →
      (run step w (before ++ later)).storedStatus j = some s ∧
        (run step w (before ++ later)).submissions j = (run step w before).submissions j

/-- A callback that a terminal row tolerates: it repeats the stored status, or it reports
`FAILED` for a dead job whose retry budget is used up. -/
def Tolerated (job : Job) (u : JobStatusUpdate) : Prop :=
  u.status = job.status ∨
    (u.status = .failed ∧ job.status = .dead ∧ job.maxRetries ≤ job.retryCount)

/-- The call is no callback that reaches the job in a terminal state without being
tolerated there. -/
def NoLateCallback (j : JobId) (w : World) : Call → Prop
  | .update jobId _ _ u =>
    ∀ job, jobId = j → w.jobs.find? j = some job → job.status.isTerminal → Tolerated job u
  | _ => True

/-- A report leaves the status of a terminal row unchanged exactly when it is tolerated. -/
theorem updated_status_eq_iff {job : Job} (u : JobStatusUpdate) (now : Time)
    (hterminal : job.status.isTerminal = true) :
    (job.updated u now).status = job.status ↔ Tolerated job u := by
  have hfailed : job.status ≠ .failed := fun h => by simp [h, JobStatus.isTerminal] at hterminal
  have hqueued : job.status ≠ .queued := fun h => by simp [h, JobStatus.isTerminal] at hterminal
  unfold Tolerated
  rcases updated_cases job u now with ⟨hu, hlt, hrow, -⟩ | ⟨hu, hle, hrow, -⟩ | ⟨hu, hrow, -⟩
  · rw [hrow, hu]
    constructor
    · intro h
      exact absurd h.symm hqueued
    · rintro (h | ⟨-, -, h⟩)
      · exact absurd h.symm hfailed
      · omega
  · rw [hrow, hu]
    constructor
    · intro h
      exact Or.inr ⟨rfl, h.symm, hle⟩
    · rintro (h | ⟨-, h, -⟩)
      · exact absurd h.symm hfailed
      · exact h.symm
  · rw [hrow]
    constructor
    · intro h
      exact Or.inl h
    · rintro (h | ⟨h, -, -⟩)
      · exact h
      · exact absurd h hu

/-- A tolerated report takes no retry. -/
theorem retries_of_tolerated {job : Job} {u : JobStatusUpdate}
    (hterminal : job.status.isTerminal = true) (htol : Tolerated job u) :
    job.retries u = false := by
  rcases htol with h | ⟨-, -, hle⟩
  · have hu : u.status ≠ .failed := fun hf => by
      simp [← h, hf, JobStatus.isTerminal] at hterminal
    simp [Job.retries, hu]
  · simp [Job.retries, Nat.not_lt.mpr hle]

/-- One call leaves a terminal job's status and submissions as they were exactly when it
is no late callback. -/
theorem step_keeps_terminal_iff {w : World} {j : JobId} {job : Job} (c : Call)
    (hfind : w.jobs.find? j = some job) (hterminal : job.status.isTerminal = true) :
    ((step w c).storedStatus j = some job.status ∧
        (step w c).submissions j = w.submissions j) ↔ NoLateCallback j w c := by
  cases c with
  | create jobId now d request =>
    by_cases hj : jobId = j
    · subst hj
      obtain ⟨hrow, hsub⟩ := create_of_stored now d request hfind
      simp [NoLateCallback, World.storedStatus, hrow, hsub]
    · simp [NoLateCallback, World.storedStatus, find?_create, hj, hfind,
        submissions_create_of_ne now d request hj]
  | cancel jobId now d =>
    have hafter : job.afterCancel now = job := by simp [Job.afterCancel, hterminal]
    by_cases hj : jobId = j <;>
      simp [NoLateCallback, World.storedStatus, find?_cancel, hj, hfind, hafter]
  | update jobId now d u =>
    by_cases hj : jobId = j
    · subst hj
      have hstatus : (step w (.update jobId now d u)).storedStatus jobId =
          some (job.updated u now).status := by
        simp [World.storedStatus, find?_update, hfind]
      have hlate : NoLateCallback jobId w (.update jobId now d u) ↔ Tolerated job u := by
        simp [NoLateCallback, hfind, hterminal]
      rw [hstatus, Option.some.injEq, updated_status_eq_iff u now hterminal, hlate]
      constructor
      · exact And.left
      · intro htol
        refine ⟨htol, ?_⟩
        simp [submissions_update_self now d u hfind, retries_of_tolerated hterminal htol]
    · simp [NoLateCallback, World.storedStatus, find?_update, hj, hfind,
        submissions_update_of_ne now d u hj]

/-- Without late callbacks a terminal job stays as it is for a whole run. -/
theorem run_keeps_terminal {w : World} {j : JobId} {s : JobStatus} {calls : List Call}
    (hstatus : w.storedStatus j = some s) (hterminal : s.isTerminal = true)
    (hcalls : Along step (NoLateCallback j) w calls) :
    (run step w calls).storedStatus j = some s ∧
      (run step w calls).submissions j = w.submissions j := by
  induction calls generalizing w with
  | nil => exact ⟨hstatus, rfl⟩
  | cons c calls ih =>
    obtain ⟨job, hfind, rfl⟩ := Option.map_eq_some_iff.mp hstatus
    obtain ⟨hc, hrest⟩ := hcalls
    obtain ⟨hkeep, hsub⟩ := (step_keeps_terminal_iff c hfind hterminal).mpr hc
    obtain ⟨hend, hsubEnd⟩ := ih hkeep hrest
    exact ⟨hend, hsubEnd.trans hsub⟩

/-- **Terminal states are absorbing exactly in the runs without late callbacks**, whatever
row the run starts from and whatever Kafka does. -/
theorem terminalAbsorbing_iff (j : JobId) (w : World) (calls : List Call) :
    TerminalAbsorbing j w calls ↔ Along step (NoLateCallback j) w calls := by
  constructor
  · intro h
    rw [along_iff_forall_split]
    intro before c rest heq
    cases c with
    | create => trivial
    | cancel => trivial
    | update jobId now d u =>
      rintro job rfl hfind hterminal
      have hstatus : (run step w before).storedStatus jobId = some job.status := by
        simp [World.storedStatus, hfind]
      have hkeep := h before [.update jobId now d u] rest (by simp [heq]) _ hstatus hterminal
      rw [run_append, run_cons, run_nil] at hkeep
      exact (step_keeps_terminal_iff _ hfind hterminal).mp hkeep job rfl hfind hterminal
  · rintro h before later rest rfl s hstatus hterminal
    rw [List.append_assoc, along_append, along_append] at h
    rw [run_append]
    exact run_keeps_terminal hstatus hterminal h.2.1

/-- A queued job is cancelled, and the orchestrator's `PROVISIONING` report arrives after
that: the job is no longer cancelled. -/
theorem cancelled_job_overwritten :
    ¬ TerminalAbsorbing "job-1" World.empty
      [.create "job-1" 0 .delivered sampleRequest, .cancel "job-1" 1 .delivered,
        .update "job-1" 2 .delivered { status := .provisioning }] := by
  intro h
  have hkeep := h [.create "job-1" 0 .delivered sampleRequest, .cancel "job-1" 1 .delivered]
    [.update "job-1" 2 .delivered { status := .provisioning }] [] rfl .cancelled
    (by decide) (by decide)
  exact absurd hkeep.1 (by decide)

/-! ## Repeated callbacks -/

/-- Delivering the same update twice in a row has the effect of delivering it once: the
same status, the same `retry_count`, the same submission events for the job. -/
def ToleratesDuplicate (j : JobId) (w : World) (u : JobStatusUpdate) (now now' : Time)
    (d d' : Delivery) : Prop :=
  let once := step w (.update j now d u)
  let twice := step once (.update j now' d' u)
  twice.storedStatus j = once.storedStatus j ∧
    (twice.jobs.find? j).map Job.retryCount = (once.jobs.find? j).map Job.retryCount ∧
    twice.submissions j = once.submissions j

private theorem updated_retryCount_of_exhausted {job : Job} {u : JobStatusUpdate} (now : Time)
    (h : u.status ≠ .failed ∨ job.maxRetries ≤ job.retryCount) :
    (job.updated u now).retryCount = job.retryCount ∧
      (job.updated u now).maxRetries = job.maxRetries := by
  rcases updated_cases job u now with ⟨hu, hlt, -, -⟩ | ⟨-, -, hrow, -⟩ | ⟨-, hrow, -⟩
  · rcases h with h | h
    · exact absurd hu h
    · omega
  · rw [hrow]
    exact ⟨rfl, rfl⟩
  · rw [hrow]
    exact ⟨rfl, rfl⟩

/-- Where no retry is taken, the status that a report leaves depends on the report alone. -/
theorem updated_status_of_exhausted {job : Job} {u : JobStatusUpdate} (now : Time)
    (h : u.status ≠ .failed ∨ job.maxRetries ≤ job.retryCount) :
    (job.updated u now).status = if u.status = .failed then .dead else u.status := by
  rcases updated_cases job u now with ⟨hu, hlt, -, -⟩ | ⟨hu, -, hrow, -⟩ | ⟨hu, hrow, -⟩
  · rcases h with h | h
    · exact absurd hu h
    · omega
  · simp [hrow, hu]
  · simp [hrow, hu, Job.record]

/-- **A callback can be repeated without effect exactly when it is not a `FAILED` report
that finds retry budget left**, at whatever times and with whatever publish outcomes the
two deliveries happen. -/
theorem toleratesDuplicate_iff {w : World} {j : JobId} {job : Job}
    (hfind : w.jobs.find? j = some job) (u : JobStatusUpdate) (now now' : Time)
    (d d' : Delivery) :
    ToleratesDuplicate j w u now now' d d' ↔
      (u.status ≠ .failed ∨ job.maxRetries ≤ job.retryCount) := by
  have honce : (step w (.update j now d u)).jobs.find? j = some (job.updated u now) := by
    simp [find?_update, hfind]
  have htwice : (step (step w (.update j now d u)) (.update j now' d' u)).jobs.find? j =
      some ((job.updated u now).updated u now') := by
    simp [find?_update, hfind]
  unfold ToleratesDuplicate World.storedStatus
  simp only [honce, htwice, Option.map_some, Option.some.injEq]
  constructor
  · rintro ⟨hstatus, hcount, -⟩
    by_contra hretry
    obtain ⟨hfailed, hlt⟩ : u.status = .failed ∧ job.retryCount < job.maxRetries := by
      simpa using hretry
    have hrow := (updated_of_retry now hfailed hlt).1
    rcases updated_cases (job.updated u now) u now' with
      ⟨-, -, hrow', -⟩ | ⟨-, -, hrow', -⟩ | ⟨hne, -, -⟩
    · rw [hrow'] at hcount
      exact absurd hcount (Nat.succ_ne_self _)
    · rw [hrow', hrow] at hstatus
      simp at hstatus
    · exact hne hfailed
  · intro hquiet
    obtain ⟨hcount, hmax⟩ := updated_retryCount_of_exhausted now hquiet
    have hquiet' : u.status ≠ .failed ∨
        (job.updated u now).maxRetries ≤ (job.updated u now).retryCount := by
      rwa [hcount, hmax]
    have hretries : (job.updated u now).retries u = false := by
      rcases hquiet' with h | h
      · simp [Job.retries, h]
      · simp [Job.retries, Nat.not_lt.mpr h]
    refine ⟨?_, (updated_retryCount_of_exhausted now' hquiet').1, ?_⟩
    · rw [updated_status_of_exhausted now' hquiet', updated_status_of_exhausted now hquiet]
    · simp [submissions_update_self now' d' u honce, hretries]

/-- The world of a freshly submitted job with one retry. -/
def sampleWorld : World :=
  run step World.empty [.create "job-1" 0 .delivered sampleRequest]

/-- `toleratesDuplicate_iff` at a `RUNNING` report for the sample job. -/
theorem toleratesDuplicate_iff_running :
    ToleratesDuplicate "job-1" sampleWorld { status := .running } 1 2 .delivered .delivered ↔
      ((JobStatus.running ≠ .failed) ∨ 1 ≤ 0) := by
  have hfind : sampleWorld.jobs.find? "job-1" =
      some { newJob "job-1" 0 sampleRequest with status := .queued } := rfl
  exact toleratesDuplicate_iff hfind { status := .running } 1 2 .delivered .delivered

/-- A `FAILED` report of the first attempt that is delivered twice uses up the retry and
marks the job dead after one failed attempt. -/
theorem failed_report_not_idempotent :
    ¬ ToleratesDuplicate "job-1" sampleWorld { status := .failed, exitCode := some 1 } 1 2
      .delivered .delivered := by
  intro h
  exact absurd h.1 (by decide)

end DataHarbour.JobService
