import DataHarbour.JobService.Rollbacks

/-!
# The exact trace of retries

When calls are handled one at a time and every publish succeeds, the topic is a complete
record of a job's attempts: the original event, then one retry event for each increment of
`retry_count`, numbered 1, 2, and so on, all with the fields of the original. The original
event is built from the request and the retries from the row, so the invariant below also
says that the row remembers the request. A `FAILED` report that is rolled back spoils the record:
its retry event stays, and the increment does not.
-/

namespace DataHarbour.JobService

open Python Relational Machine

/-- The submission events of a job that has been retried `n` times. -/
def eventTrace (original : JobEvent) (n : ℕ) : List JobEvent :=
  original :: (List.range n).map fun i => { original with retry := some (i + 1) }

private theorem eventTrace_succ (original : JobEvent) (n : ℕ) :
    eventTrace original (n + 1) =
      eventTrace original n ++ [{ original with retry := some (n + 1) }] := by
  simp [eventTrace, List.range_succ]

/-- The row of a job submitted by `request` and the job's events agree on its attempts. -/
structure Traced (request : JobCreateRequest) (w : World) (job : Job) : Prop where
  /-- The row holds the fields that the original event was built from. -/
  template : { retryEvent job with retry := none } = originalEvent job.jobId request
  /-- The retries taken stay within the budget. -/
  budget : job.retryCount ≤ job.maxRetries
  /-- `FAILED` is reported but never stored. -/
  not_failed : job.status ≠ .failed
  /-- The events of the job are its attempts in order. -/
  events : w.submissions job.jobId =
    eventTrace (originalEvent job.jobId request) job.retryCount

/-- The outcome of the publish during a call. -/
def Call.delivery : Call → Delivery
  | .create _ _ d _ | .update _ _ d _ | .cancel _ _ d => d

/-- The call reports `FAILED` for the job. -/
def Call.isFailedReport (j : JobId) : Call → Bool
  | .update jobId _ _ u => jobId = j && u.status = .failed
  | _ => false

/-- The call reports `FAILED` for the job, is committed and leaves it `DEAD`. -/
def storesDead (accepts : JobCreateRequest → Bool) (j : JobId) (w : World) (c : Call) : Bool :=
  c.isFailedReport j && c.flushes accepts && (serve accepts w c).storedStatus j = some .dead

/-- The call reports `FAILED` for the job and is rolled back. -/
def Call.losesReport (accepts : JobCreateRequest → Bool) (j : JobId) (c : Call) : Bool :=
  c.isFailedReport j && !c.flushes accepts

/-- A recorded report changes none of the fields that events are built from. -/
theorem retryEvent_updated (job : Job) (u : JobStatusUpdate) (now : Time) :
    retryEvent (job.updated u now) =
      { retryEvent job with retry := some (job.updated u now).retryCount } := by
  rcases updated_cases job u now with ⟨-, -, h, -⟩ | ⟨-, -, h, -⟩ | ⟨-, h, -⟩ <;> rw [h] <;> rfl

/-- An update keeps `max_retries`. -/
theorem updated_maxRetries (job : Job) (u : JobStatusUpdate) (now : Time) :
    (job.updated u now).maxRetries = job.maxRetries := by
  rcases updated_cases job u now with ⟨-, -, h, -⟩ | ⟨-, -, h, -⟩ | ⟨-, h, -⟩ <;> rw [h] <;> rfl

/-- The row and the trace of a job depend on the world only through the row and the
submissions of that job. -/
theorem Traced.congr {request : JobCreateRequest} {w w' : World} {job : Job}
    (h : Traced request w job) (hsub : w'.submissions job.jobId = w.submissions job.jobId) :
    Traced request w' job :=
  ⟨h.template, h.budget, h.not_failed, hsub.trans h.events⟩

/-- A delivered retry extends the trace by the event of the new attempt. -/
theorem Traced.retry {request : JobCreateRequest} {w : World} {job : Job}
    (h : Traced request w job) (hfind : w.jobs.find? job.jobId = some job) (now : Time)
    {u : JobStatusUpdate} (hfailed : u.status = .failed)
    (hbudget : job.retryCount < job.maxRetries) :
    Traced request (step w (.update job.jobId now .delivered u)) (job.updated u now) := by
  have hrow := (updated_of_retry now hfailed hbudget).1
  have hcount : (job.updated u now).retryCount = job.retryCount + 1 := by rw [hrow]
  have hretries : job.retries u = true := retries_iff.mpr ⟨hfailed, hbudget⟩
  refine ⟨?_, ?_, ?_, ?_⟩
  · rw [retryEvent_updated, updated_jobId, ← h.template]
  · rw [hcount, updated_maxRetries]
    exact hbudget
  · rw [hrow]
    exact fun hs => by cases hs
  · rw [updated_jobId, submissions_update_self now .delivered u hfind, if_pos hretries, h.events,
      hcount, eventTrace_succ, ← h.template, retryEvent_updated, hcount]
    rfl

/-- A report that takes no retry leaves the trace as it is. -/
theorem Traced.quiet {request : JobCreateRequest} {w : World} {job : Job}
    (h : Traced request w job) (hfind : w.jobs.find? job.jobId = some job) (now : Time)
    (d : Delivery) {u : JobStatusUpdate} (hretries : job.retries u = false)
    (hcount : (job.updated u now).retryCount = job.retryCount)
    (hstatus : (job.updated u now).status ≠ .failed) :
    Traced request (step w (.update job.jobId now d u)) (job.updated u now) := by
  refine ⟨?_, ?_, hstatus, ?_⟩
  · rw [retryEvent_updated, updated_jobId, ← h.template]
  · rw [hcount, updated_maxRetries]
    exact h.budget
  · rw [updated_jobId, hcount, submissions_update_self now d u hfind, hretries]
    exact h.events

/-- A cancellation leaves the trace as it is. -/
theorem Traced.cancel {request : JobCreateRequest} {w : World} {job : Job}
    (h : Traced request w job) (now : Time) (d : Delivery) :
    Traced request (step w (.cancel job.jobId now d)) (job.afterCancel now) := by
  unfold Job.afterCancel
  split
  · exact h.congr (submissions_cancel _ _ _ _ _)
  · exact ⟨h.template, h.budget, fun hs => by simp [Job.cancelled] at hs,
      (submissions_cancel _ _ _ _ _).trans h.events⟩

/-- One call with a successful publish keeps the trace. -/
theorem traced_step {request : JobCreateRequest} {w : World} {j : JobId} {job : Job} (c : Call)
    (hfind : w.jobs.find? j = some job) (h : Traced request w job)
    (hdelivered : c.delivery = .delivered) :
    ∃ job', (step w c).jobs.find? j = some job' ∧ Traced request (step w c) job' := by
  obtain rfl : job.jobId = j := Table.key_of_find? hfind
  cases c with
  | create jobId now d request' =>
    by_cases hj : jobId = job.jobId
    · subst hj
      obtain ⟨hrow, hsub⟩ := create_of_stored now d request' hfind
      exact ⟨job, hrow, h.congr hsub⟩
    · exact ⟨job, by simp [find?_create, hj, hfind],
        h.congr (submissions_create_of_ne now d request' hj)⟩
  | cancel jobId now d =>
    by_cases hj : jobId = job.jobId
    · subst hj
      exact ⟨job.afterCancel now, by simp [find?_cancel, hfind], h.cancel now d⟩
    · exact ⟨job, by simp [find?_cancel, hj, hfind], h.congr (submissions_cancel _ _ _ _ _)⟩
  | update jobId now d u =>
    by_cases hj : jobId = job.jobId
    · subst hj
      obtain rfl : d = .delivered := hdelivered
      refine ⟨job.updated u now, by simp [find?_update, hfind], ?_⟩
      rcases updated_cases job u now with
        ⟨hfailed, hlt, -, -⟩ | ⟨hfailed, hle, hrow, -⟩ | ⟨hfailed, hrow, -⟩
      · exact h.retry hfind now hfailed hlt
      · have hretries : job.retries u = false := by simp [Job.retries, Nat.not_lt.mpr hle]
        exact h.quiet hfind now .delivered hretries (by rw [hrow]; rfl) (by simp [hrow])
      · have hretries : job.retries u = false := by simp [Job.retries, hfailed]
        have hstatus : (job.updated u now).status = u.status := by rw [hrow]; rfl
        exact h.quiet hfind now .delivered hretries (by rw [hrow]; rfl) (by rwa [hstatus])
    · exact ⟨job, by simp [find?_update, hj, hfind],
        h.congr (submissions_update_of_ne now d u hj)⟩

/-- A call that is rolled back keeps the trace, unless it is a `FAILED` report. -/
theorem submissions_rolledBack {w : World} {j : JobId} {job : Job} {c : Call}
    (hfind : w.jobs.find? j = some job) (hreport : c.isFailedReport j = false) :
    (rolledBack w c).submissions j = w.submissions j := by
  cases c with
  | create => rfl
  | cancel jobId now d => exact submissions_cancel w jobId now d j
  | update jobId now d u =>
    show (step w (.update jobId now d u)).submissions j = w.submissions j
    by_cases hj : jobId = j
    · subst hj
      have hfailed : u.status ≠ .failed := by simpa [Call.isFailedReport] using hreport
      have hretries : job.retries u = false := by simp [Job.retries, hfailed]
      rw [submissions_update_self now d u hfind, hretries]
      rfl
    · exact submissions_update_of_ne now d u hj

/-- One request keeps the trace, unless it is a `FAILED` report that is rolled back. -/
theorem traced_serve {accepts : JobCreateRequest → Bool} {request : JobCreateRequest} {w : World}
    {j : JobId} {job : Job} (c : Call) (hfind : w.jobs.find? j = some job)
    (h : Traced request w job) (hdelivered : c.delivery = .delivered)
    (hkept : c.losesReport accepts j = false) :
    ∃ job', (serve accepts w c).jobs.find? j = some job' ∧
      Traced request (serve accepts w c) job' := by
  cases hflushes : c.flushes accepts with
  | true =>
    rw [serve_of_flushes hflushes]
    exact traced_step c hfind h hdelivered
  | false =>
    have hreport : c.isFailedReport j = false := by simpa [Call.losesReport, hflushes] using hkept
    obtain rfl : job.jobId = j := Table.key_of_find? hfind
    rw [serve_of_not_flushes hflushes]
    exact ⟨job, by rw [rolledBack_jobs, hfind],
      h.congr (submissions_rolledBack hfind hreport)⟩

/-- A run of requests with successful publishes keeps the trace if no `FAILED` report is rolled
back. -/
theorem traced_run {accepts : JobCreateRequest → Bool} {request : JobCreateRequest} {w : World}
    {j : JobId} {job : Job} {calls : List Call} (hfind : w.jobs.find? j = some job)
    (h : Traced request w job) (hdelivered : ∀ c ∈ calls, c.delivery = .delivered)
    (hkept : ∀ c ∈ calls, c.losesReport accepts j = false) :
    ∃ job', (run (serve accepts) w calls).jobs.find? j = some job' ∧
      Traced request (run (serve accepts) w calls) job' := by
  induction calls generalizing w job with
  | nil => exact ⟨job, hfind, h⟩
  | cons c calls ih =>
    obtain ⟨hc, hcalls⟩ := List.forall_mem_cons.mp hdelivered
    obtain ⟨hc', hcalls'⟩ := List.forall_mem_cons.mp hkept
    obtain ⟨mid, hmid, htraced⟩ := traced_serve c hfind h hc hc'
    exact ih hmid htraced hcalls hcalls'

/-! ## The number of reports -/

/-- A committed call adds one to `retry_count` plus the reports that stored `DEAD` exactly when it
is a `FAILED` report. -/
theorem count_step {w : World} {j : JobId} {job : Job} (c : Call)
    (hfind : w.jobs.find? j = some job) :
    ∃ job', (step w c).jobs.find? j = some job' ∧
      (if c.isFailedReport j then 1 else 0) + job.retryCount = job'.retryCount +
        (if c.isFailedReport j && (step w c).storedStatus j = some .dead then 1 else 0) := by
  cases c with
  | create jobId now d request' =>
    refine ⟨job, ?_, by simp [Call.isFailedReport]⟩
    rw [find?_create, if_neg (by simp [hfind]), hfind]
  | cancel jobId now d =>
    by_cases hj : jobId = j
    · exact ⟨job.afterCancel now, by simp [find?_cancel, hj, hfind],
        by simp [Call.isFailedReport, afterCancel_retryCount]⟩
    · exact ⟨job, by simp [find?_cancel, hj, hfind], by simp [Call.isFailedReport]⟩
  | update jobId now d u =>
    by_cases hj : jobId = j
    · subst hj
      have hnew : (step w (.update jobId now d u)).jobs.find? jobId =
          some (job.updated u now) := by
        simp [find?_update, hfind]
      refine ⟨job.updated u now, hnew, ?_⟩
      rcases updated_cases job u now with
        ⟨hfailed, -, hrow, -⟩ | ⟨hfailed, -, hrow, -⟩ | ⟨hfailed, hrow, -⟩
      · simp [Call.isFailedReport, World.storedStatus, hnew, hfailed, hrow, Nat.add_comm]
      · simp [Call.isFailedReport, World.storedStatus, hnew, hfailed, hrow, Job.record,
          Nat.add_comm]
      · simp [Call.isFailedReport, hfailed, hrow, Job.record]
    · exact ⟨job, by simp [find?_update, hj, hfind], by simp [Call.isFailedReport, hj]⟩

/-- The `FAILED` reports are the retries, the reports that stored `DEAD` and those that were rolled
back. -/
theorem count_run (accepts : JobCreateRequest → Bool) {w : World} {j : JobId} {job : Job}
    (calls : List Call) (hfind : w.jobs.find? j = some job) :
    ∃ job', (run (serve accepts) w calls).jobs.find? j = some job' ∧
      calls.countP (·.isFailedReport j) + job.retryCount =
        job'.retryCount + countSteps (serve accepts) (storesDead accepts j) w calls +
          calls.countP (·.losesReport accepts j) := by
  induction calls generalizing w job with
  | nil => exact ⟨job, hfind, by simp [countSteps]⟩
  | cons c calls ih =>
    have hhead : ∃ mid, (serve accepts w c).jobs.find? j = some mid ∧
        (if c.isFailedReport j then 1 else 0) + job.retryCount = mid.retryCount +
          (if storesDead accepts j w c then 1 else 0) +
            if c.losesReport accepts j then 1 else 0 := by
      cases hflushes : c.flushes accepts with
      | true =>
        obtain ⟨mid, hmid, hcount⟩ := count_step c hfind
        rw [serve_of_flushes hflushes]
        refine ⟨mid, hmid, ?_⟩
        simpa [storesDead, Call.losesReport, hflushes, serve_of_flushes hflushes] using hcount
      | false =>
        rw [serve_of_not_flushes hflushes]
        refine ⟨job, by rw [rolledBack_jobs, hfind], ?_⟩
        simp [storesDead, Call.losesReport, hflushes, Nat.add_comm]
    obtain ⟨mid, hmid, hcount⟩ := hhead
    obtain ⟨job', hend, hcount'⟩ := ih hmid
    refine ⟨job', hend, ?_⟩
    rw [List.countP_cons, List.countP_cons, countSteps]
    omega

/-- A delivered submission under a fresh id starts the trace. -/
theorem traced_create {w : World} (hknown : Known w) {j : JobId} (now : Time)
    (request : JobCreateRequest) (hfresh : w.jobs.find? j = none) :
    let w' := step w (.create j now .delivered request)
    let job := (newJob j now request).afterEnqueue .delivered
    w'.jobs.find? j = some job ∧ Traced request w' job := by
  refine ⟨by simp [find?_create, hfresh], ⟨rfl, Nat.zero_le _, (fun h => nomatch h), ?_⟩⟩
  have hjob : ((newJob j now request).afterEnqueue .delivered).jobId = j := rfl
  rw [hjob, submissions_create_self now .delivered request hfresh,
    submissions_of_absent hknown hfresh]
  rfl

/-- What is to hold of a job: the retries stay within the requested budget and `FAILED` is not the
stored status; the job's events are the original and its retries in order; and the `FAILED` reports
since its submission are the retries and the reports that stored `DEAD`. -/
def ExactTrace (accepts : JobCreateRequest → Bool) (j : JobId) (request : JobCreateRequest)
    (submitted : World) (after : List Call) : Prop :=
  ∃ job, (run (serve accepts) submitted after).jobs.find? j = some job ∧
    (0 ≤ job.retryCount ∧ job.retryCount ≤ job.maxRetries ∧
      job.maxRetries = request.maxRetries ∧ job.status ≠ .failed) ∧
    (run (serve accepts) submitted after).submissions j =
      eventTrace (originalEvent j request) job.retryCount ∧
    after.countP (·.isFailedReport j) =
      job.retryCount + countSteps (serve accepts) (storesDead accepts j) submitted after

/-- **The exact retry trace.** After any calls, a job is submitted under a fresh id with a
successful publish, and any further calls follow, all with successful publishes. The trace is exact
if and only if the texts of every `FAILED` report of the job fit their columns. -/
theorem exact_retry_trace_iff (accepts : JobCreateRequest → Bool) (before after : List Call)
    (j : JobId) (now : Time) (request : JobCreateRequest) (haccepted : accepts request = true)
    (hfresh : (run (serve accepts) World.empty before).jobs.find? j = none)
    (hdelivered : ∀ c ∈ after, c.delivery = .delivered) :
    ExactTrace accepts j request
        (serve accepts (run (serve accepts) World.empty before) (.create j now .delivered request))
        after ↔
      ∀ jobId time d u, .update jobId time d u ∈ after → jobId = j → u.status = .failed →
        u.fits = true := by
  have hknown : Known (run (serve accepts) World.empty before) :=
    (known_invariant accepts).run known_empty before
  rw [serve_of_flushes (show (Call.create j now .delivered request).flushes accepts = true from
    haccepted)]
  obtain ⟨hrow, htraced⟩ := traced_create hknown now request hfresh
  obtain ⟨job, hfind, hcount⟩ := count_run accepts after hrow
  have hstart : ((newJob j now request).afterEnqueue .delivered).retryCount = 0 := rfl
  have hreports : (∀ c ∈ after, c.losesReport accepts j = false) ↔
      ∀ jobId time d u, .update jobId time d u ∈ after → jobId = j → u.status = .failed →
        u.fits = true := by
    constructor
    · intro h jobId time d u hmem hj hfailed
      simpa [Call.losesReport, Call.isFailedReport, Call.flushes, hj, hfailed] using h _ hmem
    · rintro h (_ | ⟨jobId, time, d, u⟩ | _) hmem
      · rfl
      · have hfits := h jobId time d u hmem
        by_cases hj : jobId = j <;> by_cases hfailed : u.status = .failed <;>
          simp_all [Call.losesReport, Call.isFailedReport, Call.flushes]
      · rfl
  rw [← hreports]
  constructor
  · rintro ⟨job', hfind', -, -, hexact⟩
    obtain rfl := Option.some.inj (hfind.symm.trans hfind')
    have hnone : after.countP (·.losesReport accepts j) = 0 := by omega
    exact fun c hc => Bool.eq_false_iff.mpr (List.countP_eq_zero.mp hnone c hc)
  · intro hkept
    obtain ⟨job', hfind', h⟩ := traced_run hrow htraced hdelivered hkept
    obtain rfl := Option.some.inj (hfind.symm.trans hfind')
    obtain rfl : job.jobId = j := Table.key_of_find? hfind
    have hmax : job.maxRetries = request.maxRetries := congrArg JobEvent.maxRetries h.template
    have hnone : after.countP (·.losesReport accepts job.jobId) = 0 :=
      List.countP_eq_zero.mpr fun c hc => Bool.eq_false_iff.mp (hkept c hc)
    exact ⟨job, hfind, ⟨Nat.zero_le _, h.budget, hmax, h.not_failed⟩, h.events, by omega⟩

/-- A job whose two attempts fail: one retry, then `DEAD`. -/
theorem exact_retry_trace_iff_two_failures :
    let failed : JobStatusUpdate := { status := .failed, exitCode := some 1 }
    ExactTrace (fun _ => true) "job-1" sampleRequest
      (step World.empty (.create "job-1" 0 .delivered sampleRequest))
      [.update "job-1" 1 .delivered { status := .running },
        .update "job-1" 2 .delivered failed, .update "job-1" 3 .delivered failed] := by
  intro failed
  refine (exact_retry_trace_iff (fun _ => true) [] _ "job-1" 0 sampleRequest rfl rfl
    (by simp [Call.delivery])).mpr fun jobId time d u hmem _ _ => ?_
  simp only [List.mem_cons, List.not_mem_nil, or_false, Call.update.injEq] at hmem
  rcases hmem with ⟨-, -, -, rfl⟩ | ⟨-, -, -, rfl⟩ | ⟨-, -, -, rfl⟩ <;> rfl

/-- A `container_id` of 256 characters. -/
def longId : String := String.ofList (List.replicate 256 'x')

/-- The first attempt fails, with a container id that its column does not take: the retry event is
on the topic, and the row has not taken the retry. -/
theorem rolled_back_report_leaves_event : ¬ ExactTrace (fun _ => true) "job-1" sampleRequest
    (step World.empty (.create "job-1" 0 .delivered sampleRequest))
    [.update "job-1" 1 .delivered { status := .failed, containerId := some longId }] := by
  rintro ⟨job, hfind, -, hevents, -⟩
  have hfits : JobStatusUpdate.fits { status := .failed, containerId := some longId } = false := by
    decide +kernel
  have hflushes : (Call.update "job-1" 1 .delivered
      { status := .failed, containerId := some longId }).flushes (fun _ => true) = false := hfits
  rw [run_cons, run_nil, serve_of_not_flushes hflushes] at hfind hevents
  obtain rfl := Option.some.inj hfind
  exact absurd (congrArg List.length hevents) (by decide)

end DataHarbour.JobService
