import DataHarbour.JobService.KafkaAgreement

/-!
# The timestamps of a job

`started_at` and `completed_at` are written for the reported status. A `FAILED` report that
is followed by a retry leaves `completed_at` on a job that is queued again, and a late
`PROVISIONING` or `RUNNING` report takes a completed job back to a live status without clearing
it. This file says exactly which reports keep the timestamps in step with the status.
-/

namespace DataHarbour.JobService

open Relational Machine

/-- The timestamps of a row match its status. -/
structure Job.Stamped (job : Job) : Prop where
  completed_iff : job.completedAt.isSome ↔ job.status.isTerminal
  ordered : ∀ started completed, job.startedAt = some started →
    job.completedAt = some completed → started ≤ completed

/-- The timestamps of every row match its status. -/
def TimestampsMatch (w : World) : Prop :=
  ∀ j job, w.jobs.find? j = some job → job.Stamped

/-- The clock reading of a call. -/
def Call.now : Call → Time
  | .create _ now _ _ | .update _ now _ _ | .cancel _ now _ => now

/-- What keeps the timestamps right: a report leads to no retry, and a job in a terminal state
gets no report of a live status. -/
def KeepsStamps (w : World) : Call → Prop
  | .update jobId _ _ u => ∀ job, w.jobs.find? jobId = some job →
    ¬ job.retries u ∧ (job.status.isTerminal → u.status.completes)
  | _ => True

/-! ## One row -/

/-- The `started_at` that a report leaves. -/
theorem updated_startedAt (job : Job) (u : JobStatusUpdate) (now : Time) :
    (job.updated u now).startedAt = if u.status = .running then some now else job.startedAt := by
  rcases updated_cases job u now with ⟨-, -, h, -⟩ | ⟨-, -, h, -⟩ | ⟨-, h, -⟩ <;> rw [h] <;> rfl

/-- The `completed_at` that a report leaves. -/
theorem updated_completedAt (job : Job) (u : JobStatusUpdate) (now : Time) :
    (job.updated u now).completedAt =
      if u.status.completes then some now else job.completedAt := by
  rcases updated_cases job u now with ⟨-, -, h, -⟩ | ⟨-, -, h, -⟩ | ⟨-, h, -⟩ <;> rw [h] <;> rfl

/-- A row that has just completed is stamped exactly if its status is terminal. -/
theorem stamped_of_completed_iff {job : Job} {now : Time} (hcompleted : job.completedAt = some now)
    (hstarted : ∀ t, job.startedAt = some t → t ≤ now) :
    job.Stamped ↔ job.status.isTerminal := by
  constructor
  · intro h
    exact h.completed_iff.mp (by rw [hcompleted]; rfl)
  · intro hterminal
    refine ⟨by simp [hcompleted, hterminal], fun started completed hs hc => ?_⟩
    rw [hcompleted, Option.some.injEq] at hc
    exact hc ▸ hstarted started hs

/-- A report keeps the timestamps of a row exactly if it leads to no retry, and is final if
the row is. -/
theorem stamped_updated_iff {job : Job} (h : job.Stamped) {u : JobStatusUpdate} {now : Time}
    (hreported : u.status.isReported) (hstarted : ∀ t, job.startedAt = some t → t ≤ now) :
    (job.updated u now).Stamped ↔
      ¬ job.retries u ∧ (job.status.isTerminal → u.status.completes) := by
  have hrow := updated_completedAt job u now
  have hstart := updated_startedAt job u now
  have hbefore : ∀ t, (job.updated u now).startedAt = some t → t ≤ now := by
    intro t ht
    rw [hstart] at ht
    split at ht
    · exact (Option.some.inj ht).ge
    · exact hstarted t ht
  cases hcompletes : u.status.completes with
  | true =>
    rw [hcompletes, if_pos rfl] at hrow
    rw [stamped_of_completed_iff hrow hbefore]
    rcases updated_cases job u now with
      ⟨hfailed, hbudget, hupdated, -⟩ | ⟨hfailed, hspent, hupdated, -⟩ | ⟨hfailed, hupdated, -⟩
    · have hretries : job.retries u = true := retries_iff.mpr ⟨hfailed, hbudget⟩
      simp [hupdated, hretries, JobStatus.isTerminal]
    · have hretries : job.retries u = false := by simp [Job.retries, Nat.not_lt.mpr hspent]
      simp [hupdated, hretries, JobStatus.isTerminal]
    · have hretries : job.retries u = false := by simp [Job.retries, hfailed]
      have hstatus : (job.updated u now).status = u.status := by rw [hupdated]; rfl
      rw [hstatus, hretries]
      cases hu : u.status <;>
        simp_all [JobStatus.isTerminal, JobStatus.completes, JobStatus.isReported]
  | false =>
    rw [hcompletes, if_neg Bool.false_ne_true] at hrow
    have hfailed : u.status ≠ .failed := fun heq => by simp [heq, JobStatus.completes] at hcompletes
    have hstatus : (job.updated u now).status = u.status := by
      rw [(updated_of_not_failed now hfailed).1]
      rfl
    have hlive : u.status.isTerminal = false := by
      cases hu : u.status <;> simp_all [JobStatus.isTerminal, JobStatus.completes]
    have hretries : job.retries u = false := by simp [Job.retries, hfailed]
    rw [hretries]
    constructor
    · intro h'
      refine ⟨Bool.false_ne_true, fun hterminal => ?_⟩
      have hsome := h.completed_iff.mpr hterminal
      rw [← hrow, h'.completed_iff, hstatus, hlive] at hsome
      exact hsome
    · rintro ⟨-, hfinal⟩
      have hnone : job.completedAt = none := by
        rw [← Option.not_isSome_iff_eq_none, h.completed_iff]
        exact fun hterminal => Bool.false_ne_true (hfinal hterminal)
      constructor
      · rw [hrow, hnone, hstatus, hlive]
        simp
      · intro started completed _ hc
        rw [hrow, hnone] at hc
        cases hc

/-- A cancellation stamps the row that it cancels. -/
theorem stamped_afterCancel {job : Job} (h : job.Stamped) {now : Time}
    (hstarted : ∀ t, job.startedAt = some t → t ≤ now) : (job.afterCancel now).Stamped := by
  unfold Job.afterCancel
  split
  · exact h
  · have hrow : (job.cancelled now).completedAt = some now := rfl
    exact (stamped_of_completed_iff hrow hstarted).mpr rfl

/-- A new row carries no timestamps. -/
theorem stamped_newJob (jobId : JobId) (now : Time) (request : JobCreateRequest) (d : Delivery) :
    ((newJob jobId now request).afterEnqueue d).Stamped := by
  cases d <;> exact ⟨by simp [newJob, Job.afterEnqueue, JobStatus.isTerminal],
    fun started completed hs => by simp [newJob, Job.afterEnqueue] at hs⟩

/-! ## Runs -/

/-- No row has started after `now`. -/
def StartedBy (w : World) (now : Time) : Prop :=
  ∀ j job, w.jobs.find? j = some job → ∀ t, job.startedAt = some t → t ≤ now

/-- A call stamps at most its own clock reading. -/
theorem startedBy_step {w : World} {c : Call} (h : StartedBy w c.now) :
    StartedBy (step w c) c.now := by
  intro j job hfind t ht
  cases c with
  | create jobId now d request =>
    rw [find?_create] at hfind
    split at hfind
    · rw [Option.some.injEq] at hfind
      cases d <;> simp [← hfind, newJob, Job.afterEnqueue] at ht
    · exact h j job hfind t ht
  | update jobId now d u =>
    rw [find?_update] at hfind
    split at hfind
    · obtain ⟨old, hold, rfl⟩ := Option.map_eq_some_iff.mp hfind
      rw [updated_startedAt] at ht
      split at ht
      · exact (Option.some.inj ht).ge
      · exact h j old hold t ht
    · exact h j job hfind t ht
  | cancel jobId now d =>
    rw [find?_cancel] at hfind
    split at hfind
    · obtain ⟨old, hold, rfl⟩ := Option.map_eq_some_iff.mp hfind
      refine h j old hold t (ht ▸ ?_)
      unfold Job.afterCancel
      split <;> rfl
    · exact h j job hfind t ht

/-- One call keeps the timestamps exactly if it meets the condition. -/
theorem timestampsMatch_step_iff {w : World} (h : TimestampsMatch w) {c : Call}
    (hreported : c.Reported) (hstarted : StartedBy w c.now) :
    TimestampsMatch (step w c) ↔ KeepsStamps w c := by
  cases c with
  | create jobId now d request =>
    refine iff_of_true (fun j job hfind => ?_) trivial
    rw [find?_create] at hfind
    split at hfind
    · exact Option.some.inj hfind ▸ stamped_newJob jobId now request d
    · exact h j job hfind
  | update jobId now d u =>
    constructor
    · intro h' job hfind
      have hrow := find?_update w jobId now d u jobId
      rw [if_pos rfl, hfind, Option.map_some] at hrow
      exact (stamped_updated_iff (h jobId job hfind) hreported (hstarted jobId job hfind)).mp
        (h' jobId _ hrow)
    · intro hkeeps j job hfind
      rw [find?_update] at hfind
      split at hfind
      · next heq =>
        subst heq
        obtain ⟨old, hold, rfl⟩ := Option.map_eq_some_iff.mp hfind
        exact (stamped_updated_iff (h jobId old hold) hreported (hstarted jobId old hold)).mpr
          (hkeeps old hold)
      · exact h j job hfind
  | cancel jobId now d =>
    refine iff_of_true (fun j job hfind => ?_) trivial
    rw [find?_cancel] at hfind
    split at hfind
    · obtain ⟨old, hold, rfl⟩ := Option.map_eq_some_iff.mp hfind
      exact stamped_afterCancel (h j old hold) (hstarted j old hold)
    · exact h j job hfind

/-- **When the timestamps match the lifecycle.** Under a strictly increasing clock and with
reports of `PROVISIONING`, `RUNNING`, `SUCCESS` and `FAILED` only, they match in every state of
a run if and only if no `FAILED` report finds retry budget left and no job in a terminal state
is reported `PROVISIONING` or `RUNNING`. -/
theorem timestampsMatch_iff {calls : List Call} (hreported : ∀ c ∈ calls, c.Reported)
    (hclock : (calls.map Call.now).Pairwise (· < ·)) :
    Always step TimestampsMatch World.empty calls ↔ Along step KeepsStamps World.empty calls := by
  refine always_iff_along (I := fun w rest => (∀ c ∈ rest, c.Reported) ∧
    (rest.map Call.now).Pairwise (· < ·) ∧ ∀ c ∈ rest, StartedBy w c.now) ?_ ?_
    ⟨hreported, hclock, ?_⟩ ?_
  · rintro w c rest ⟨hreported, hclock, hstarted⟩
    obtain ⟨hlater, hclock⟩ := List.pairwise_cons.mp hclock
    refine ⟨fun c' hc' => hreported c' (List.mem_cons_of_mem c hc'), hclock, ?_⟩
    intro c' hc' j job hfind t ht
    have hnow := startedBy_step (hstarted c List.mem_cons_self) j job hfind t ht
    exact hnow.trans (hlater c'.now (List.mem_map_of_mem hc')).le
  · rintro w c rest ⟨hreported, -, hstarted⟩ hmatch
    exact timestampsMatch_step_iff hmatch (hreported c List.mem_cons_self)
      (hstarted c List.mem_cons_self)
  · intro c _ j job hfind
    simp [World.empty] at hfind
  · intro j job hfind
    simp [World.empty] at hfind

/-- `timestampsMatch_iff` at a run with one attempt that succeeds. -/
theorem timestampsMatch_iff_success :
    Always step TimestampsMatch World.empty [.create "job-1" 0 .delivered sampleRequest,
      .update "job-1" 1 .delivered { status := .running },
      .update "job-1" 2 .delivered { status := .success }] ↔
    Along step KeepsStamps World.empty [.create "job-1" 0 .delivered sampleRequest,
      .update "job-1" 1 .delivered { status := .running },
      .update "job-1" 2 .delivered { status := .success }] :=
  timestampsMatch_iff (by simp [Call.Reported, JobStatus.isReported]) (by decide)

/-- A job that is queued for its second attempt has `completed_at` set. -/
theorem queued_job_is_completed : ¬ TimestampsMatch (run step World.empty
    [.create "job-1" 0 .delivered sampleRequest,
      .update "job-1" 1 .delivered { status := .failed }]) := by
  intro h
  have hqueued := (h "job-1" _ rfl).completed_iff
  exact absurd (hqueued.mp rfl) (by decide)

end DataHarbour.JobService
