import DataHarbour.JobService.KafkaAgreement
import DataHarbour.Relational.Columns

/-!
# Requests that are rolled back

A text that does not fit its column makes a flush fail, and `get_db` rolls the transaction back.
`create_job` flushes its row before it publishes anything. `update_job_status` moves the metrics
and publishes the retry event first and flushes last, so that a report that is rolled back leaves
the row as it was and these two behind.
-/

namespace DataHarbour.JobService

open Python Relational Machine

/-- The texts of the report fit the columns `container_id`, a `VARCHAR(255)`, and `error_message`,
a `TEXT`; the body has no limits of its own. -/
def JobStatusUpdate.fits (u : JobStatusUpdate) : Bool :=
  u.containerId.all (fun containerId => (varchar 255 containerId).isSome) &&
    u.errorMessage.all fun text => decide ('\x00' ∉ text.toList)

/-- The flush of the call succeeds. `accepts` is the `INSERT` of a submission. -/
def Call.flushes (accepts : JobCreateRequest → Bool) : Call → Bool
  | .create _ _ _ request => accepts request
  | .update _ _ _ u => u.fits
  | .cancel _ _ _ => true

/-- The world after a call whose flush has failed. -/
def rolledBack (w : World) : Call → World
  | .create _ _ _ request => { w with metrics := w.metrics.submitted request }
  | c => { step w c with jobs := w.jobs }

/-- The world after one request, its transaction committed or rolled back. -/
def serve (accepts : JobCreateRequest → Bool) (w : World) (c : Call) : World :=
  if c.flushes accepts then step w c else rolledBack w c

variable {accepts : JobCreateRequest → Bool} {w : World} {c : Call}

/-- A call whose flush succeeds is a step of the service. -/
theorem serve_of_flushes (h : c.flushes accepts = true) : serve accepts w c = step w c :=
  if_pos h

/-- A call whose flush fails is rolled back. -/
theorem serve_of_not_flushes (h : c.flushes accepts = false) :
    serve accepts w c = rolledBack w c :=
  if_neg (by simp [h])

/-- A call that is rolled back leaves the rows as they are. -/
@[simp] theorem rolledBack_jobs (w : World) (c : Call) : (rolledBack w c).jobs = w.jobs := by
  cases c <;> rfl

/-- A call leaves the rows as they are, or changes them as a step of the service does. -/
theorem jobs_serve (accepts : JobCreateRequest → Bool) (w : World) (c : Call) :
    (serve accepts w c).jobs = w.jobs ∨ (serve accepts w c).jobs = (step w c).jobs := by
  cases hflushes : c.flushes accepts with
  | false => exact .inl (by rw [serve_of_not_flushes hflushes, rolledBack_jobs])
  | true => exact .inr (by rw [serve_of_flushes hflushes])

/-! ## The events of stored jobs -/

/-- Nothing is published in the empty world. -/
theorem known_empty : Known World.empty := fun e he => by simp [World.empty] at he

/-- A report that is rolled back publishes for a stored job, if at all. -/
theorem known_rolledBack (h : Known w) : Known (rolledBack w c) := by
  cases c with
  | create => exact h
  | cancel =>
    intro e he
    rw [rolledBack_jobs]
    exact h e (by simpa [rolledBack] using he)
  | update jobId now d u =>
    intro e he
    rw [rolledBack_jobs]
    have htopic : e ∈ (step w (.update jobId now d u)).jobTopic := he
    rw [jobTopic_update] at htopic
    split at htopic
    · next event hevent =>
      rcases mem_publish.mp htopic with hold | ⟨-, rfl⟩
      · exact h e hold
      · obtain ⟨job, hjob, hresubmission⟩ := Option.bind_eq_some_iff.mp hevent
        rw [resubmission_jobId hresubmission, Table.key_of_find? hjob, hjob]
        exact Option.some_ne_none job
    · exact h e htopic

/-- Only stored jobs are published about, whatever the flushes accept. -/
theorem known_invariant (accepts : JobCreateRequest → Bool) : Invariant (serve accepts) Known := by
  intro w c h
  cases hflushes : c.flushes accepts with
  | false =>
    rw [serve_of_not_flushes hflushes]
    exact known_rolledBack h
  | true =>
    rw [serve_of_flushes hflushes]
    intro e he
    rcases grounded_of_new he with hold | ⟨job, hjob, -⟩
    · obtain ⟨job, hjob⟩ := Option.ne_none_iff_exists'.mp (h e hold)
      obtain ⟨job', hjob', -⟩ := retryCount_mono w c hjob
      rw [hjob']
      exact Option.some_ne_none job'
    · rw [hjob]
      exact Option.some_ne_none job

end DataHarbour.JobService
