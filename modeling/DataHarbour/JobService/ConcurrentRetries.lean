import DataHarbour.JobService.Budget
import DataHarbour.JobService.RetryTrace
import DataHarbour.Machine.ReadModifyWrite

/-!
# Concurrent failure reports

`update_job_status` reads the row without a lock and publishes the retry event before it
writes and commits. This file splits the handling of `FAILED` reports into those steps and
instantiates the general result about unlocked transactions: the retry budget holds as
long as no report reads the row while another one that takes a retry is uncommitted, and
in a run that finishes it holds only then.
-/

namespace DataHarbour.JobService

open Machine

/-- A column after a flush: the assigned value where it differs from the loaded one, and
otherwise whatever the row holds by now. -/
def flushColumn {α : Type*} [DecidableEq α] (loaded assigned current : α) : α :=
  if assigned = loaded then current else assigned

/-- The flush of a row object that was loaded as `loaded` and assigned to, over the row
version that the `UPDATE` finds. -/
def Job.flush (loaded assigned current : Job) : Job :=
  { current with
    status := flushColumn loaded.status assigned.status current.status
    containerId := flushColumn loaded.containerId assigned.containerId current.containerId
    startedAt := flushColumn loaded.startedAt assigned.startedAt current.startedAt
    completedAt := flushColumn loaded.completedAt assigned.completedAt current.completedAt
    errorMessage := flushColumn loaded.errorMessage assigned.errorMessage current.errorMessage
    retryCount := flushColumn loaded.retryCount assigned.retryCount current.retryCount }

/-- The variable part of a `FAILED` report. -/
structure FailedReport where
  now : Time
  containerId : Option String := none
  errorMessage : Option String := none
  exitCode : Option ℤ := none

/-- The body of the report. -/
def FailedReport.update (r : FailedReport) : JobStatusUpdate where
  status := .failed
  containerId := r.containerId
  errorMessage := r.errorMessage
  exitCode := r.exitCode

/-- `update_job_status` on a `FAILED` report, with every publish succeeding. -/
def FailedReport.transaction (r : FailedReport) : Transaction Job JobEvent where
  sends job := job.resubmission r.update r.now
  writes loaded current := loaded.flush (loaded.updated r.update r.now) current

/-- There is retry budget left. -/
def BudgetLeft (k : ℕ × ℕ) : Prop := k.1 < k.2

/-- One more retry. -/
def spend (k : ℕ × ℕ) : ℕ × ℕ := (k.1 + 1, k.2)

private theorem iterate_spend (c m n : ℕ) : spend^[n] (c, m) = (c + n, m) := by
  induction n with
  | zero => rfl
  | succ n ih => rw [Function.iterate_succ_apply', ih]; rfl

/-- A report retries exactly when it reads budget, and it numbers its event one above the
count it has read. -/
theorem reports_track_budget (reports : ℕ → FailedReport) :
    Tracks (fun t => (reports t).transaction) Job.budget BudgetLeft spend
      (fun k => k.1 + 1) (fun e => e.retry.getD 0) := by
  have hfailed : ∀ t, (reports t).update.status = .failed := fun t => rfl
  refine ⟨?_, ?_, ?_, ?_⟩
  · intro t job hbudget
    obtain ⟨hrow, hevent⟩ := updated_of_retry (reports t).now (hfailed t) hbudget
    refine ⟨_, hevent, ?_⟩
    rw [hrow]
    rfl
  · intro t job hspent
    exact (updated_of_exhausted (reports t).now rfl (Nat.le_of_not_lt hspent)).2
  · intro t job current hbudget hsame
    have hrow := (updated_of_retry (reports t).now (hfailed t) hbudget).1
    have hmax : current.maxRetries = job.maxRetries := congrArg Prod.snd hsame
    simp [FailedReport.transaction, Job.flush, Job.budget, spend, flushColumn, hrow, hmax]
  · intro t job current hspent
    have hrow :=
      (updated_of_exhausted (reports t).now (hfailed t) (Nat.le_of_not_lt hspent)).1
    simp [FailedReport.transaction, Job.flush, Job.budget, flushColumn, hrow, Job.record]

/-- Every event that a report publishes is a retry event. -/
theorem reports_send_retries (reports : ℕ → FailedReport) :
    ∀ t job e, (reports t).transaction.sends job = some e → e.retry.isSome := by
  intro t job e he
  rcases updated_cases job (reports t).update (reports t).now with
    ⟨-, -, -, hevent⟩ | ⟨-, -, -, hevent⟩ | ⟨-, -, hevent⟩
  · obtain rfl : retryEvent _ = e := Option.some.inj (hevent.symm.trans he)
    rfl
  · cases hevent.symm.trans he
  · cases hevent.symm.trans he

/-- The submission events of a job whose history so far is the trace of its retries, after
a run of concurrent `FAILED` reports. -/
def concurrentSubmissions (reports : ℕ → FailedReport) (request : JobCreateRequest) (job : Job)
    (actions : List (RowAction ℕ)) : List JobEvent :=
  eventTrace (originalEvent job.jobId request) job.retryCount ++
    (run (rowStep fun t => (reports t).transaction) (RowState.initial job) actions).log.map Prod.snd

/-- The retry budget holds: at most `1 + max_retries` submission events, and no two retry
events with the same `retry_count`. -/
def WithinBudget (maxRetries : ℕ) (submissions : List JobEvent) : Prop :=
  submissions.length ≤ 1 + maxRetries ∧ (submissions.filterMap JobEvent.retry).Nodup

/-- No report reads the row while another one that has read budget is uncommitted. -/
def NoOverlappingRetry (reports : ℕ → FailedReport) (job : Job)
    (actions : List (RowAction ℕ)) : Prop :=
  Along (rowStep fun t => (reports t).transaction) (NoOverlap Job.budget BudgetLeft)
    (RowState.initial job) actions

private theorem filterMap_retry_of_isSome {events : List JobEvent}
    (h : ∀ e ∈ events, e.retry.isSome) :
    events.filterMap JobEvent.retry = events.map fun e => e.retry.getD 0 := by
  induction events with
  | nil => rfl
  | cons e events ih =>
    obtain ⟨n, hn⟩ := Option.isSome_iff_exists.mp (h e List.mem_cons_self)
    rw [List.filterMap_cons_some hn, ih fun e' he' => h e' (List.mem_cons_of_mem _ he'),
      List.map_cons, hn, Option.getD_some]

private theorem filterMap_retry_eventTrace (jobId : JobId) (request : JobCreateRequest) (n : ℕ) :
    (eventTrace (originalEvent jobId request) n).filterMap JobEvent.retry =
      (List.range n).map (· + 1) := by
  rw [eventTrace, List.filterMap_cons_none rfl, filterMap_retry_of_isSome]
  · simp
  · intro e he
    obtain ⟨i, -, rfl⟩ := List.mem_map.mp he
    rfl

/-- The retry counts on the topic: those of the history, then those of the run. -/
theorem filterMap_retry_concurrent (reports : ℕ → FailedReport) (request : JobCreateRequest)
    (job : Job) (actions : List (RowAction ℕ)) :
    (concurrentSubmissions reports request job actions).filterMap JobEvent.retry =
      (List.range job.retryCount).map (· + 1) ++
        (run (rowStep fun t => (reports t).transaction) (RowState.initial job) actions).log.map
          fun m => m.2.retry.getD 0 := by
  have hlog := (forall_log_invariant (reports_send_retries reports)).run
    (s := RowState.initial job) (fun m hm => by simp [RowState.initial] at hm) actions
  rw [concurrentSubmissions, List.filterMap_append, filterMap_retry_eventTrace,
    filterMap_retry_of_isSome, List.map_map]
  · rfl
  · intro e he
    obtain ⟨m, hm, rfl⟩ := List.mem_map.mp he
    exact hlog m hm

/-- Without overlap the budget holds after every run, finished or not. -/
theorem withinBudget_of_noOverlap {reports : ℕ → FailedReport} (request : JobCreateRequest)
    {job : Job} (hbudget : job.retryCount ≤ job.maxRetries) {actions : List (RowAction ℕ)}
    (h : NoOverlappingRetry reports job actions) :
    WithinBudget job.maxRetries (concurrentSubmissions reports request job actions) := by
  obtain ⟨n, hlabels, hactive⟩ := serialLog_of_noOverlap (reports_track_budget reports) job h
  have hserial : ∀ i, spend^[i] job.budget = (job.retryCount + i, job.maxRetries) :=
    iterate_spend job.retryCount job.maxRetries
  have hlength : (run (rowStep fun t => (reports t).transaction) (RowState.initial job)
      actions).log.length = n := by
    simpa [serialLabels] using congrArg List.length hlabels
  have hroom : job.retryCount + n ≤ job.maxRetries := by
    rcases Nat.eq_zero_or_pos n with rfl | hpos
    · exact hbudget
    · have hlast := hactive (n - 1) (by omega)
      rw [hserial] at hlast
      have : job.retryCount + (n - 1) < job.maxRetries := hlast
      omega
  constructor
  · have htotal : (concurrentSubmissions reports request job actions).length =
        1 + job.retryCount + n := by
      simp [concurrentSubmissions, eventTrace, hlength]
      omega
    omega
  · have hcounts : serialLabels spend (fun k => k.1 + 1) job.budget n =
        (List.range n).map fun i => job.retryCount + i + 1 := by
      simp [serialLabels, hserial]
    have hall : (concurrentSubmissions reports request job actions).filterMap JobEvent.retry =
        (List.range (job.retryCount + n)).map (· + 1) := by
      rw [filterMap_retry_concurrent, hlabels, hcounts, List.range_add, List.map_append,
        List.map_map]
      rfl
    rw [hall]
    exact List.Nodup.map (fun a b hab => Nat.succ_injective hab) List.nodup_range

/-- **The retry budget under concurrent failure reports.** It holds in every run in which
no report reads the row while another one that takes a retry is uncommitted, and in a run
whose reports all commit it holds only if there is no such overlap. -/
theorem retry_budget_iff_noOverlap (reports : ℕ → FailedReport) (request : JobCreateRequest)
    (job : Job) (hbudget : job.retryCount ≤ job.maxRetries) (actions : List (RowAction ℕ)) :
    (NoOverlappingRetry reports job actions →
      WithinBudget job.maxRetries (concurrentSubmissions reports request job actions)) ∧
    ((run (rowStep fun t => (reports t).transaction) (RowState.initial job) actions).Complete →
      WithinBudget job.maxRetries (concurrentSubmissions reports request job actions) →
      NoOverlappingRetry reports job actions) := by
  refine ⟨withinBudget_of_noOverlap request hbudget, fun hcomplete hwithin => ?_⟩
  have hnodup := hwithin.2
  rw [filterMap_retry_concurrent] at hnodup
  exact noOverlap_of_nodup (reports_track_budget reports) (serialState_initial job)
    (logsSenders_initial job) hcomplete (List.nodup_append.mp hnodup).2.1

/-- The row of the sample job as the topic knows it after its submission. -/
def sampleJob : Job := (newJob "job-1" 0 sampleRequest).afterEnqueue .delivered

/-- `retry_budget_iff_noOverlap` at two reports handled one after the other. -/
theorem retry_budget_iff_noOverlap_serial :
    let actions : List (RowAction ℕ) := [.read 0, .send 0, .write 0, .commit 0,
      .read 1, .send 1, .write 1, .commit 1]
    (NoOverlappingRetry (fun t => ⟨t, none, none, none⟩) sampleJob actions →
      WithinBudget 1 (concurrentSubmissions (fun t => ⟨t, none, none, none⟩) sampleRequest
        sampleJob actions)) ∧
    ((run (rowStep fun t => (FailedReport.mk t none none none).transaction)
        (RowState.initial sampleJob) actions).Complete →
      WithinBudget 1 (concurrentSubmissions (fun t => ⟨t, none, none, none⟩) sampleRequest
        sampleJob actions) →
      NoOverlappingRetry (fun t => ⟨t, none, none, none⟩) sampleJob actions) :=
  retry_budget_iff_noOverlap (fun t => ⟨t, none, none, none⟩) sampleRequest sampleJob
    (Nat.zero_le _) _

/-- Two reports of one failed attempt are handled at the same time, and both read the row
before either commits: two retry events with `retry_count` 1, three submissions in all. -/
theorem overlapping_reports_exceed_budget :
    ¬ WithinBudget sampleJob.maxRetries
      (concurrentSubmissions (fun t => ⟨t, none, none, some 1⟩) sampleRequest sampleJob
        [.read 0, .read 1, .send 0, .send 1, .write 0, .commit 0, .write 1, .commit 1]) := by
  intro h
  exact absurd h.1 (by decide)

end DataHarbour.JobService
