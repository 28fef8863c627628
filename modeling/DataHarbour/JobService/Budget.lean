import DataHarbour.JobService.Steps

/-!
# Reports and the retry budget

What one status report with a successful publish does to the columns that decide about
retries, to the stored status and to the job topic.
-/

namespace DataHarbour.JobService

open Relational

/-- The columns that decide about a retry: `retry_count` and `max_retries`. -/
def Job.budget (job : Job) : ℕ × ℕ := (job.retryCount, job.maxRetries)

/-- The retry columns stored for a job. -/
def World.budget (w : World) (jobId : JobId) : Option (ℕ × ℕ) :=
  (w.jobs.find? jobId).map Job.budget

/-- A job has no budget exactly when it has no row. -/
theorem budget_eq_none_iff {w : World} {k : JobId} :
    w.budget k = none ↔ w.jobs.find? k = none := by
  rw [World.budget, Option.map_eq_none_iff]

/-- A job with a status has a budget. -/
theorem budget_ne_none_of_storedStatus {w : World} {k : JobId} {status : JobStatus}
    (h : w.storedStatus k = some status) : w.budget k ≠ none := by
  intro hnone
  rw [World.storedStatus, budget_eq_none_iff.mp hnone] at h
  cases h

/-- A submission with a successful publish queues a fresh job and touches no other. -/
theorem storedStatus_create (w : World) (jobId : JobId) (now : Time) (request : JobCreateRequest)
    (k : JobId) : (step w (.create jobId now .delivered request)).storedStatus k =
      if jobId = k ∧ w.jobs.find? k = none then some .queued else w.storedStatus k := by
  rw [World.storedStatus, find?_create]
  split <;> rfl

/-- A submission under a fresh id starts with the requested budget. -/
theorem budget_create (w : World) (jobId : JobId) (now : Time) (d : Delivery)
    (request : JobCreateRequest) (k : JobId) :
    (step w (.create jobId now d request)).budget k =
      if jobId = k ∧ w.jobs.find? k = none then some (0, request.maxRetries)
      else w.budget k := by
  rw [World.budget, find?_create]
  split
  · cases d <;> rfl
  · rfl

/-- A report reaches the row of its own job only. -/
theorem find?_update_of_ne {w : World} {jobId k : JobId} (now : Time) (d : Delivery)
    (u : JobStatusUpdate) (h : jobId ≠ k) :
    (step w (.update jobId now d u)).jobs.find? k = w.jobs.find? k := by
  rw [find?_update, if_neg h]

private theorem find?_update_self (w : World) (jobId : JobId) (now : Time) (d : Delivery)
    (u : JobStatusUpdate) :
    (step w (.update jobId now d u)).jobs.find? jobId =
      (w.jobs.find? jobId).map (·.updated u now) := by
  rw [find?_update, if_pos rfl]

/-- A report that is not `FAILED` publishes nothing. -/
theorem jobTopic_update_of_not_failed {u : JobStatusUpdate} (h : u.status ≠ .failed) (w : World)
    (jobId : JobId) (now : Time) (d : Delivery) :
    (step w (.update jobId now d u)).jobTopic = w.jobTopic := by
  rw [jobTopic_update]
  cases w.jobs.find? jobId with
  | none => rfl
  | some job => rw [Option.bind_some, (updated_of_not_failed now h).2]

/-- A report that is not `FAILED` leaves every budget as it was. -/
theorem budget_update_of_not_failed {u : JobStatusUpdate} (h : u.status ≠ .failed) (w : World)
    (jobId : JobId) (now : Time) (d : Delivery) (k : JobId) :
    (step w (.update jobId now d u)).budget k = w.budget k := by
  by_cases hk : jobId = k
  · subst hk
    rw [World.budget, find?_update_self, World.budget, Option.map_map]
    congr 1
    funext job
    rw [Function.comp_apply, (updated_of_not_failed now h).1]
    rfl
  · rw [World.budget, find?_update_of_ne now d u hk, World.budget]

/-- A report that is not `FAILED` is the status stored after it. -/
theorem storedStatus_update_of_not_failed {w : World} {jobId : JobId} {u : JobStatusUpdate}
    (now : Time) (d : Delivery) (h : u.status ≠ .failed) (hstored : w.budget jobId ≠ none) :
    (step w (.update jobId now d u)).storedStatus jobId = some u.status := by
  rw [World.storedStatus, find?_update_self]
  cases hfind : w.jobs.find? jobId with
  | none => simp [World.budget, hfind] at hstored
  | some job =>
    rw [Option.map_some, Option.map_some, (updated_of_not_failed now h).1]
    rfl

/-- The world `w'` after a failed attempt of a job that had used `n` of its `m` retries, where
`topic` was the job topic before: the job is queued for the next attempt, or dead. -/
def Spends (topic : List JobEvent) (w' : World) (jobId : JobId) (n m : ℕ) : Prop :=
  (n < m ∧ w'.budget jobId = some (n + 1, m) ∧ w'.storedStatus jobId = some .queued ∧
    ∃ e, w'.jobTopic = topic ++ [e] ∧ e.jobId = jobId ∧ e.maxRetries = m ∧
      e.retry = some (n + 1)) ∨
  (m ≤ n ∧ w'.budget jobId = some (n, m) ∧ w'.storedStatus jobId = some .dead ∧
    w'.jobTopic = topic)

/-- A `FAILED` report with a successful publish spends a retry. -/
theorem spends_update {w : World} {jobId : JobId} {n m : ℕ} {u : JobStatusUpdate} (now : Time)
    (hbudget : w.budget jobId = some (n, m)) (hfailed : u.status = .failed) :
    Spends w.jobTopic (step w (.update jobId now .delivered u)) jobId n m := by
  unfold Spends
  obtain ⟨job, hfind, hjob⟩ := Option.map_eq_some_iff.mp hbudget
  obtain ⟨hcount, hmax⟩ := Prod.mk.inj hjob
  have hid : job.jobId = jobId := Table.key_of_find? hfind
  have hrow : (step w (.update jobId now .delivered u)).jobs.find? jobId =
      some (job.updated u now) := by
    rw [find?_update_self, hfind, Option.map_some]
  have htopic := jobTopic_update w jobId now .delivered u
  rw [hfind, Option.bind_some] at htopic
  rw [World.budget, World.storedStatus, hrow, Option.map_some, Option.map_some]
  rcases Nat.lt_or_ge job.retryCount job.maxRetries with hleft | hspent
  · left
    obtain ⟨hupdated, hevent⟩ := updated_of_retry now hfailed hleft
    rw [hevent] at htopic
    rw [hupdated] at htopic ⊢
    refine ⟨by omega, ?_, rfl, _, htopic, hid, hmax, ?_⟩
    · rw [← hcount, ← hmax]
      rfl
    · rw [← hcount]
      rfl
  · right
    obtain ⟨hupdated, hevent⟩ := updated_of_exhausted now hfailed hspent
    rw [hevent] at htopic
    rw [hupdated]
    refine ⟨by omega, ?_, rfl, htopic⟩
    rw [← hcount, ← hmax]
    rfl

/-! ## The stored container -/

/-- The `container_id` stored for a job. -/
def World.storedContainer (w : World) (jobId : JobId) : Option (Option String) :=
  (w.jobs.find? jobId).map Job.containerId

private theorem updated_containerId (job : Job) (u : JobStatusUpdate) (now : Time) :
    (job.updated u now).containerId = overwrite u.containerId job.containerId := by
  rcases updated_cases job u now with ⟨-, -, h, -⟩ | ⟨-, -, h, -⟩ | ⟨-, h, -⟩ <;> rw [h] <;> rfl

/-- A report overwrites the container id, if it carries one. -/
theorem storedContainer_update_self (w : World) (jobId : JobId) (now : Time) (d : Delivery)
    (u : JobStatusUpdate) :
    (step w (.update jobId now d u)).storedContainer jobId =
      (w.storedContainer jobId).map (overwrite u.containerId) := by
  rw [World.storedContainer, find?_update_self, World.storedContainer, Option.map_map,
    Option.map_map]
  congr 1
  funext job
  exact updated_containerId job u now

end DataHarbour.JobService
