import DataHarbour.JobService.Rollbacks

/-!
# The metrics and the jobs table

`JOBS_ACTIVE` and the counters are moved step by step, by branches that look at the reported
status and never at the stored one. `update_job_status` moves them as if the row had been
active before, `create_job` counts a job as active only once its event is published, and
`cancel_job` does not touch them. They are moved before the flush, and a rollback does not take
them back. This file says exactly which calls keep them equal to the numbers of rows that they
stand for.
-/

namespace DataHarbour.JobService

open Relational Machine

/-- The labels of `JOBS_COMPLETED_TOTAL`. -/
def JobType.all : List JobType := [.sparkSql, .sparkEtl, .sparkMl, .sparkStreaming]

/-- The reasons of `JOBS_FAILED_TOTAL` that stand for a terminal state of the job. -/
def FailureReason.terminal : List FailureReason := [.maxRetriesExceeded, .cancelled]

/-- A labelled counter, summed over some of its labels. -/
def total {label : Type*} (labels : List label) (counter : label → ℕ) : ℕ :=
  labels.foldr (fun l sum => counter l + sum) 0

/-- The terminal states that `JOBS_FAILED_TOTAL` counts. -/
def JobStatus.isFailure : JobStatus → Bool
  | .dead | .cancelled => true
  | _ => false

/-- The metrics are the numbers of rows that they stand for. -/
structure MetricsAgree (w : World) : Prop where
  active : w.metrics.jobsActive = w.jobs.countRows fun job => !job.status.isTerminal
  completed : total JobType.all w.metrics.jobsCompletedTotal =
    w.jobs.countRows fun job => job.status = .success
  failed : total FailureReason.terminal w.metrics.jobsFailedTotal =
    w.jobs.countRows fun job => job.status.isFailure

/-- What keeps the metrics equal to the table, for each operation. The submission is published,
or its row is refused, or its id is taken. The report is stored and not about a terminal job, or
it is rolled back and would not have made the job terminal. The cancellation has nothing to
cancel. -/
def Counted (accepts : JobCreateRequest → Bool) (w : World) : Call → Prop
  | .create jobId _ delivery request =>
    accepts request = false ∨ delivery = .delivered ∨ w.storedStatus jobId ≠ none
  | .update jobId _ _ u => ∀ job, w.jobs.find? jobId = some job →
    if u.fits then ¬ job.status.isTerminal
    else ¬ u.status.isTerminal ∧ (u.status = .failed → job.retryCount < job.maxRetries)
  | .cancel jobId _ _ => ∀ status, w.storedStatus jobId = some status → status.isTerminal

/-! ## What the operations do to the metrics -/

section Totals

variable {label : Type*} [DecidableEq label] {labels : List label} {l : label}

omit [DecidableEq label] in
private theorem total_cons (counter : label → ℕ) :
    total (l :: labels) counter = counter l + total labels counter := rfl

private theorem total_inc_of_notMem (h : l ∉ labels) (counter : label → ℕ) :
    total labels (inc counter l) = total labels counter := by
  induction labels with
  | nil => rfl
  | cons x labels ih =>
    have hne : x ≠ l := fun heq => h (heq ▸ List.mem_cons_self)
    have hrest : l ∉ labels := fun hmem => h (List.mem_cons_of_mem x hmem)
    rw [total_cons, total_cons, ih hrest, inc, Function.update_of_ne hne]

/-- Incrementing one label adds one to a sum over labels that lists it once. -/
theorem total_inc (hnodup : labels.Nodup) (h : l ∈ labels) (counter : label → ℕ) :
    total labels (inc counter l) = total labels counter + 1 := by
  induction labels with
  | nil => exact absurd h List.not_mem_nil
  | cons x labels ih =>
    obtain ⟨hx, hrest⟩ := List.nodup_cons.mp hnodup
    rw [total_cons, total_cons]
    rcases List.mem_cons.mp h with rfl | hmem
    · rw [total_inc_of_notMem hx, inc, Function.update_self]
      omega
    · have hne : x ≠ l := fun heq => hx (heq ▸ hmem)
      rw [ih hrest hmem, inc, Function.update_of_ne hne]
      omega

end Totals

private theorem total_completed_inc (counter : JobType → ℕ) (jobType : JobType) :
    total JobType.all (inc counter jobType) = total JobType.all counter + 1 := by
  apply total_inc (by decide)
  cases jobType <;> decide

private theorem total_failed_inc (counter : FailureReason → ℕ) {reason : FailureReason}
    (h : reason ∈ FailureReason.terminal) :
    total FailureReason.terminal (inc counter reason) =
      total FailureReason.terminal counter + 1 :=
  total_inc (by decide) h counter

/-- The metrics after an active row has taken a status. -/
structure Metrics.Moved (m m' : Metrics) (status : JobStatus) : Prop where
  active : m'.jobsActive = m.jobsActive - if status.isTerminal then 1 else 0
  completed : total JobType.all m'.jobsCompletedTotal =
    total JobType.all m.jobsCompletedTotal + if status = .success then 1 else 0
  failed : total FailureReason.terminal m'.jobsFailedTotal =
    total FailureReason.terminal m.jobsFailedTotal + if status.isFailure then 1 else 0

/-- A report that is not `FAILED` moves the metrics for the reported status. -/
theorem moved_record (m : Metrics) (jobType : JobType) {status : JobStatus}
    (h : status ≠ .failed) : m.Moved (m.record jobType status) status := by
  cases status with
  | failed => exact absurd rfl h
  | success => exact ⟨rfl, total_completed_inc _ jobType, rfl⟩
  | dead => exact ⟨rfl, rfl, total_failed_inc _ (by decide)⟩
  | cancelled => exact ⟨rfl, rfl, total_failed_inc _ (by decide)⟩
  | pending | queued | provisioning | running =>
    refine ⟨?_, rfl, rfl⟩
    simp [Metrics.record, JobStatus.isTerminal]

/-- **`update_job_status` and the metrics.** Whatever status was stored, they move as for an
active row that takes the status of the updated one. -/
theorem moved_updated (m : Metrics) (job : Job) (u : JobStatusUpdate) (now : Time) :
    m.Moved (m.updated job u) (job.updated u now).status := by
  rcases updated_cases job u now with
    ⟨hfailed, hbudget, hrow, -⟩ | ⟨hfailed, hspent, hrow, -⟩ | ⟨hfailed, hrow, -⟩ <;> rw [hrow]
  · have hretries : job.retries u = true := retries_iff.mpr ⟨hfailed, hbudget⟩
    simp only [Metrics.updated, hretries, if_true, hfailed, Metrics.record]
    refine ⟨?_, rfl, rfl⟩
    -- the decrement for `FAILED` is taken back
    simp [JobStatus.isTerminal]
  · have hretries : job.retries u = false := by simp [Job.retries, Nat.not_lt.mpr hspent]
    have hexhausts : job.exhausts u = true := exhausts_iff.mpr ⟨hfailed, hspent⟩
    simp only [Metrics.updated, hretries, hexhausts, if_true, hfailed, Metrics.record,
      Bool.false_eq_true, if_false]
    exact ⟨rfl, rfl, total_failed_inc _ (by decide)⟩
  · have hretries : job.retries u = false := by simp [Job.retries, hfailed]
    have hexhausts : job.exhausts u = false := by simp [Job.exhausts, hfailed]
    simp only [Metrics.updated, hretries, hexhausts, Bool.false_eq_true, if_false]
    exact moved_record m job.jobType hfailed

/-! ## What one call does to the agreement -/

private theorem metrics_update {w : World} {jobId : JobId} {job : Job} (now : Time) (d : Delivery)
    (u : JobStatusUpdate) (hfind : w.jobs.find? jobId = some job) :
    (step w (.update jobId now d u)).jobs = w.jobs.set (job.updated u now) ∧
      (step w (.update jobId now d u)).metrics = w.metrics.updated job u := by
  simp [step, updateJobStatus, hfind]

/-- A report keeps the agreement exactly if the stored status is not terminal. -/
theorem metricsAgree_update_iff {w : World} (h : MetricsAgree w) {jobId : JobId} {job : Job}
    (now : Time) (d : Delivery) (u : JobStatusUpdate) (hfind : w.jobs.find? jobId = some job) :
    MetricsAgree (step w (.update jobId now d u)) ↔ ¬ job.status.isTerminal := by
  obtain ⟨hjobs, hmetrics⟩ := metrics_update now d u hfind
  obtain ⟨hactive, hcompleted, hfailed⟩ := moved_updated w.metrics job u now
  have hkey : w.jobs.find? (job.updated u now).jobId = some job := by
    rw [updated_jobId, Table.key_of_find? hfind, hfind]
  have hrowsActive := Table.countRows_set hkey fun job => !job.status.isTerminal
  have hrowsCompleted := Table.countRows_set hkey fun job => decide (job.status = .success)
  have hrowsFailed := Table.countRows_set hkey fun job => job.status.isFailure
  generalize (job.updated u now).status = status at *
  constructor
  · intro h' hterminal
    have hgauge := h'.active
    rw [hjobs, hmetrics, hactive, h.active] at hgauge
    simp only [hterminal, Bool.not_true, Bool.false_eq_true, if_false] at hrowsActive
    cases hstatus : status.isTerminal <;> simp [hstatus] at hrowsActive hgauge <;> omega
  · intro hlive
    have hsuccess : job.status ≠ .success := fun heq => hlive (by rw [heq]; rfl)
    have hnofailure : job.status.isFailure = false := by
      cases hstatus : job.status <;> simp_all [JobStatus.isTerminal, JobStatus.isFailure]
    simp only [hlive, hsuccess, hnofailure] at hrowsActive hrowsCompleted hrowsFailed
    constructor
    · rw [hjobs, hmetrics, hactive, h.active]
      cases hstatus : status.isTerminal <;> simp [hstatus] at hrowsActive ⊢ <;> omega
    · rw [hjobs, hmetrics, hcompleted, h.completed]
      simpa using hrowsCompleted.symm
    · rw [hjobs, hmetrics, hfailed, h.failed]
      simpa using hrowsFailed.symm

/-- A cancellation keeps the agreement exactly if there is nothing to cancel. -/
theorem metricsAgree_cancel_iff {w : World} (h : MetricsAgree w) {jobId : JobId} {job : Job}
    (now : Time) (d : Delivery) (hfind : w.jobs.find? jobId = some job) :
    MetricsAgree (step w (.cancel jobId now d)) ↔ job.status.isTerminal := by
  cases hterminal : job.status.isTerminal with
  | true => simpa [step, cancelJob, hfind, hterminal] using h
  | false =>
    have hjobs : (step w (.cancel jobId now d)).jobs = w.jobs.set (job.cancelled now) := by
      simp [step, cancelJob, hfind, hterminal]
    have hmetrics : (step w (.cancel jobId now d)).metrics = w.metrics := by
      simp [step, cancelJob, hfind, hterminal]
    have hkey : w.jobs.find? (job.cancelled now).jobId = some job := by
      rw [cancelled_jobId, Table.key_of_find? hfind, hfind]
    have hrows := Table.countRows_set hkey fun job => !job.status.isTerminal
    have hcancelled : (job.cancelled now).status.isTerminal = true := rfl
    simp only [hterminal, hcancelled, Bool.not_false, Bool.not_true, Bool.false_eq_true,
      if_true, if_false] at hrows
    refine iff_of_false (fun h' => ?_) Bool.false_ne_true
    have hgauge := h'.active
    rw [hjobs, hmetrics, h.active] at hgauge
    omega

/-- A submission under a fresh id keeps the agreement exactly if its event is published. -/
theorem metricsAgree_create_iff {w : World} (h : MetricsAgree w) {jobId : JobId} (now : Time)
    (d : Delivery) (request : JobCreateRequest) (hfresh : w.jobs.find? jobId = none) :
    MetricsAgree (step w (.create jobId now d request)) ↔ d = .delivered := by
  obtain ⟨hkey, hstep⟩ := createJob_of_fresh now d request hfresh
  rw [hstep]
  cases d with
  | delivered =>
    refine iff_of_true ⟨?_, ?_, ?_⟩ rfl
    · rw [Table.countRows_insert, Int.natCast_add, ← h.active]
      rfl
    · rw [Table.countRows_insert, ← h.completed]
      rfl
    · rw [Table.countRows_insert, ← h.failed]
      rfl
  | failed =>
    refine iff_of_false (fun h' => ?_) (by simp)
    have hgauge := h'.active
    rw [Table.countRows_insert, Int.natCast_add, ← h.active] at hgauge
    have hpending : w.metrics.jobsActive = w.metrics.jobsActive + 1 := hgauge
    omega

/-- A row becomes terminal by a terminal status, or by a failure that finds the budget spent. -/
theorem updated_live_iff (job : Job) (u : JobStatusUpdate) (now : Time) :
    ¬ (job.updated u now).status.isTerminal ↔
      ¬ u.status.isTerminal ∧ (u.status = .failed → job.retryCount < job.maxRetries) := by
  rcases updated_cases job u now with
    ⟨hfailed, hbudget, hrow, -⟩ | ⟨hfailed, hspent, hrow, -⟩ | ⟨hfailed, hrow, -⟩ <;> rw [hrow]
  · simp [hfailed, hbudget, JobStatus.isTerminal]
  · simp [hfailed, Nat.not_lt.mpr hspent, JobStatus.isTerminal]
  · simp [hfailed, Job.record]

/-- A report that is rolled back has moved the metrics for a row that stays as it was, which
keeps the agreement exactly if the row would not have become terminal. -/
theorem metricsAgree_rolledBack_iff {w : World} (h : MetricsAgree w) {jobId : JobId} {job : Job}
    (now : Time) (d : Delivery) (u : JobStatusUpdate) (hfind : w.jobs.find? jobId = some job) :
    MetricsAgree (rolledBack w (.update jobId now d u)) ↔
      ¬ (job.updated u now).status.isTerminal := by
  have hmetrics : (rolledBack w (.update jobId now d u)).metrics = w.metrics.updated job u :=
    (metrics_update now d u hfind).2
  obtain ⟨hactive, hcompleted, hfailed⟩ := moved_updated w.metrics job u now
  generalize (job.updated u now).status = status at *
  constructor
  · intro h' hterminal
    have hgauge := h'.active
    rw [rolledBack_jobs, hmetrics, hactive, ← h.active, if_pos hterminal] at hgauge
    omega
  · intro hlive
    have hsuccess : status ≠ .success := fun heq => hlive (by rw [heq]; rfl)
    have hnofailure : ¬ status.isFailure := fun hfailure => hlive (by
      cases status <;> simp_all [JobStatus.isTerminal, JobStatus.isFailure])
    rw [if_neg hlive] at hactive
    rw [if_neg hsuccess] at hcompleted
    rw [if_neg hnofailure] at hfailed
    constructor
    · rw [rolledBack_jobs, hmetrics, hactive, ← h.active, Int.sub_zero]
    · rw [rolledBack_jobs, hmetrics, hcompleted, ← h.completed, Nat.add_zero]
    · rw [rolledBack_jobs, hmetrics, hfailed, ← h.failed, Nat.add_zero]

private theorem metricsAgree_empty : MetricsAgree World.empty := ⟨rfl, rfl, rfl⟩

private theorem storedStatus_of_find? {w : World} {jobId : JobId} {job : Job}
    (hfind : w.jobs.find? jobId = some job) : w.storedStatus jobId = some job.status := by
  rw [World.storedStatus, hfind, Option.map_some]

/-- One call keeps the agreement exactly if it is counted. -/
theorem metricsAgree_serve_iff {accepts : JobCreateRequest → Bool} {w : World}
    (h : MetricsAgree w) (c : Call) : MetricsAgree (serve accepts w c) ↔ Counted accepts w c := by
  cases c with
  | create jobId now d request =>
    cases haccepts : accepts request with
    | false =>
      have hflushes : (Call.create jobId now d request).flushes accepts = false := haccepts
      rw [serve_of_not_flushes hflushes]
      -- a refused row has only counted the submission
      exact iff_of_true ⟨h.active, h.completed, h.failed⟩ (.inl haccepts)
    | true =>
      have hflushes : (Call.create jobId now d request).flushes accepts = true := haccepts
      rw [serve_of_flushes hflushes]
      cases hfind : w.jobs.find? jobId with
      | none =>
        rw [metricsAgree_create_iff h now d request hfind]
        simp [Counted, World.storedStatus, hfind, haccepts]
      | some old =>
        rw [createJob_of_stored now d request hfind]
        refine iff_of_true ⟨h.active, h.completed, h.failed⟩ (.inr (.inr ?_))
        simp [storedStatus_of_find? hfind]
  | update jobId now d u =>
    cases hfind : w.jobs.find? jobId with
    | none =>
      have hserve : serve accepts w (.update jobId now d u) = w := by
        simp [serve, rolledBack, step, updateJobStatus, hfind]
      rw [hserve]
      refine iff_of_true h fun job hjob => ?_
      rw [hfind] at hjob
      cases hjob
    | some job =>
      cases hfits : u.fits with
      | false =>
        have hflushes : (Call.update jobId now d u).flushes accepts = false := hfits
        rw [serve_of_not_flushes hflushes, metricsAgree_rolledBack_iff h now d u hfind,
          updated_live_iff]
        simp [Counted, hfind, hfits]
      | true =>
        have hflushes : (Call.update jobId now d u).flushes accepts = true := hfits
        rw [serve_of_flushes hflushes, metricsAgree_update_iff h now d u hfind]
        simp [Counted, hfind, hfits]
  | cancel jobId now d =>
    rw [serve_of_flushes rfl]
    cases hfind : w.jobs.find? jobId with
    | none =>
      have hstep : step w (.cancel jobId now d) = w := by
        simp [step, cancelJob, hfind]
      rw [hstep]
      refine iff_of_true h ?_
      simp [Counted, World.storedStatus, hfind]
    | some job =>
      rw [metricsAgree_cancel_iff h now d hfind]
      simp [Counted, storedStatus_of_find? hfind]

/-- **When the metrics agree with the table.** In one process that starts on an empty table,
they agree after every call if and only if every submission is published (or refused), no
stored report reaches a job in a terminal state, no report that is rolled back would have ended
its job, and no job is ever cancelled through the API. -/
theorem metricsAgree_iff (accepts : JobCreateRequest → Bool) (calls : List Call) :
    Always (serve accepts) MetricsAgree World.empty calls ↔
      Along (serve accepts) (Counted accepts) World.empty calls :=
  always_iff_along (I := fun _ _ => True) (fun _ _ _ _ => trivial)
    (fun _ c _ _ h => metricsAgree_serve_iff h c) trivial metricsAgree_empty

/-- A cancelled job is no longer active, but the gauge still counts it. -/
theorem cancelled_job_stays_in_gauge : ¬ MetricsAgree (run (serve fun _ => true) World.empty
    [.create "job-1" 0 .delivered sampleRequest, .cancel "job-1" 1 .delivered]) := by
  intro h
  exact absurd h.active (by decide)

end DataHarbour.JobService
