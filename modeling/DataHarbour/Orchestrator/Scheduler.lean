import DataHarbour.JobService.Model
import Mathlib.Data.List.Sort

/-!
# The cron scheduler

`Scheduler._tick` with the lease held: it selects the due rows of `scheduled_jobs`, publishes
one event for each and advances the row. A publish that fails skips the row. An exception
from the next-run computation ends the tick; its updates are rolled back, its events stay.
-/

namespace DataHarbour.Orchestrator

open Python Relational JobService

/-- A row of `scheduled_jobs`. -/
structure ScheduledJob where
  scheduleId : String
  name : String
  cronExpression : String
  timezone : String := "UTC"
  jobTemplate : Dict
  enabled : Bool := true
  lastRunAt : Option Time := none
  lastRunJobId : Option JobId := none
  nextRunAt : Time

/-- `WHERE enabled = TRUE AND next_run_at <= NOW()`. -/
def ScheduledJob.due (row : ScheduledJob) (now : Time) : Bool :=
  row.enabled && decide (row.nextRunAt ≤ now)

/-- The rows that a tick selects: `ORDER BY next_run_at ASC LIMIT 50`. -/
def dueRows (now : Time) (rows : List ScheduledJob) : List ScheduledJob :=
  ((rows.filter (·.due now)).insertionSort (·.nextRunAt ≤ ·.nextRunAt)).take 50

/-- A selected row is stored and due. -/
theorem mem_dueRows {now : Time} {rows : List ScheduledJob} {row : ScheduledJob}
    (h : row ∈ dueRows now rows) : row ∈ rows ∧ row.due now = true :=
  List.mem_filter.mp ((List.perm_insertionSort _ _).mem_iff.mp (List.mem_of_mem_take h))

/-- No schedule is selected twice. -/
theorem nodup_dueRows {now : Time} {rows : List ScheduledJob}
    (h : (rows.map ScheduledJob.scheduleId).Nodup) :
    ((dueRows now rows).map ScheduledJob.scheduleId).Nodup := by
  have hfilter : ((rows.filter (·.due now)).map ScheduledJob.scheduleId).Nodup :=
    h.sublist (List.filter_sublist.map _)
  have hsorted := ((List.perm_insertionSort (fun a b : ScheduledJob => a.nextRunAt ≤ b.nextRunAt)
    (rows.filter (·.due now))).map ScheduledJob.scheduleId).nodup_iff.mpr hfilter
  exact hsorted.sublist ((List.take_sublist _ _).map _)

/-- A due row's time has come. -/
theorem nextRunAt_le_of_due {now : Time} {row : ScheduledJob} (h : row.due now = true) :
    row.nextRunAt ≤ now := by
  simp only [ScheduledJob.due, Bool.and_eq_true, decide_eq_true_eq] at h
  exact h.2

/-- The event of a fire: the template with a fresh `job_id` and the schedule's name. -/
def fireEvent (row : ScheduledJob) (jobId : JobId) : Json :=
  .obj ((((row.jobTemplate.set "job_id" (.str jobId)).set "scheduled" (.bool true)).set
    "schedule_id" (.str row.scheduleId)).set "schedule_name" (.str row.name))

/-- What the environment supplies to one `_fire`: the drawn UUID, the outcome of the publish
and the reading of the host clock. -/
structure Firing where
  jobId : JobId
  delivery : Delivery := .delivered
  hostNow : Time

/-- The columns that the `UPDATE` of a fire sets. -/
def ScheduledJob.advance (row : ScheduledJob) (now : Time) (jobId : JobId) (next : Time) :
    ScheduledJob :=
  { row with lastRunAt := some now, lastRunJobId := some jobId, nextRunAt := next }

/-- Advancing a row leaves its id. -/
@[simp] theorem advance_scheduleId (row : ScheduledJob) (now : Time) (jobId : JobId)
    (next : Time) : (row.advance now jobId next).scheduleId = row.scheduleId := rfl

/-- The table as the tick's transaction sees it, and the events published so far. -/
structure TickState where
  schedules : Table ScheduledJob.scheduleId
  published : List Json

/-- `croniter(cron, now_local).get_next` in a timezone, in UTC. -/
abbrev NextRun := String → String → Time → Except Exc Time

/-- The loop over the selected rows; an exception ends it. -/
def fireRows (next : NextRun) (now : Time) :
    List (ScheduledJob × Firing) → TickState → TickState × Option Exc
  | [], st => (st, none)
  | (row, firing) :: rest, st =>
    match firing.delivery with
    | .failed => fireRows next now rest st
    | .delivered =>
      let published := st.published ++ [fireEvent row firing.jobId]
      match next row.cronExpression row.timezone firing.hostNow with
      | .error e => ({ st with published := published }, some e)
      | .ok time =>
        fireRows next now rest
          ⟨st.schedules.set (row.advance now firing.jobId time), published⟩

/-- The rows of a tick with what the environment supplies to each `_fire`. -/
def tickRows (now : Time) (schedules : Table ScheduledJob.scheduleId) (firings : ℕ → Firing) :
    List (ScheduledJob × Firing) :=
  (dueRows now schedules.rows).mapIdx fun i row => (row, firings i)

/-- `_tick`: the committed table and the published events after it. -/
def tick (next : NextRun) (now : Time) (schedules : Table ScheduledJob.scheduleId)
    (firings : ℕ → Firing) : TickState :=
  match fireRows next now (tickRows now schedules firings) ⟨schedules, []⟩ with
  | (st, none) => st
  | (st, some _) => ⟨schedules, st.published⟩

/-- The `job_id` of an event as its consumer reads it. -/
def eventJobId (event : Json) : Option JobId :=
  match event.getItem "job_id" with
  | .ok (.str jobId) => some jobId
  | _ => none

/-- The published document names the job of its event. -/
@[simp] theorem eventJobId_toJson (e : JobEvent) : eventJobId e.toJson = some e.jobId := by
  simp [eventJobId, JobEvent.toJson, Json.getItem]

/-- The event of a fire carries the drawn id, whatever the template holds. -/
@[simp] theorem eventJobId_fireEvent (row : ScheduledJob) (jobId : JobId) :
    eventJobId (fireEvent row jobId) = some jobId := by
  have hget : Dict.get? ((((row.jobTemplate.set "job_id" (.str jobId)).set "scheduled"
      (.bool true)).set "schedule_id" (.str row.scheduleId)).set "schedule_name"
      (.str row.name)) "job_id" = some (.str jobId) := by
    rw [Dict.get?_set_of_ne (by decide), Dict.get?_set_of_ne (by decide),
      Dict.get?_set_of_ne (by decide), Dict.get?_set_self]
  simp [eventJobId, fireEvent, Json.getItem, hget]

/-- The event of a fire carries the id of its schedule, whatever the template holds. -/
theorem scheduleId_fireEvent (row : ScheduledJob) (jobId : JobId) :
    (fireEvent row jobId).getItem "schedule_id" = .ok (.str row.scheduleId) := by
  have hget : Dict.get? ((((row.jobTemplate.set "job_id" (.str jobId)).set "scheduled"
      (.bool true)).set "schedule_id" (.str row.scheduleId)).set "schedule_name"
      (.str row.name)) "schedule_id" = some (.str row.scheduleId) := by
    rw [Dict.get?_set_of_ne (by decide), Dict.get?_set_self]
  simp [fireEvent, Json.getItem, hget]

/-- What the loop publishes are events of its rows. -/
theorem mem_published_fireRows {next : NextRun} {now : Time}
    {rows : List (ScheduledJob × Firing)} {st : TickState} {event : Json}
    (h : event ∈ (fireRows next now rows st).1.published) :
    event ∈ st.published ∨ ∃ row firing, (row, firing) ∈ rows ∧
      event = fireEvent row firing.jobId := by
  induction rows generalizing st with
  | nil => exact .inl h
  | cons entry rest ih =>
    obtain ⟨row, firing⟩ := entry
    have hrest : ∀ {st' : TickState}, event ∈ (fireRows next now rest st').1.published →
        event ∈ st'.published ∨ ∃ row' firing', (row', firing') ∈ (row, firing) :: rest ∧
          event = fireEvent row' firing'.jobId := by
      intro st' h'
      rcases ih h' with hold | ⟨row', firing', hmem, heq⟩
      · exact .inl hold
      · exact .inr ⟨row', firing', List.mem_cons_of_mem _ hmem, heq⟩
    have hnew : event ∈ st.published ++ [fireEvent row firing.jobId] →
        event ∈ st.published ∨ ∃ row' firing', (row', firing') ∈ (row, firing) :: rest ∧
          event = fireEvent row' firing'.jobId := by
      intro h'
      rcases List.mem_append.mp h' with hold | hlast
      · exact .inl hold
      · exact .inr ⟨row, firing, List.mem_cons_self, List.mem_singleton.mp hlast⟩
    cases hdelivery : firing.delivery with
    | failed =>
      simp only [fireRows, hdelivery] at h
      exact hrest h
    | delivered =>
      cases hnext : next row.cronExpression row.timezone firing.hostNow with
      | error e =>
        simp only [fireRows, hdelivery, hnext] at h
        exact hnew h
      | ok time =>
        simp only [fireRows, hdelivery, hnext] at h
        rcases hrest h with hold | hlater
        · exact hnew hold
        · exact .inr hlater

/-- Every event that a tick publishes is one of its rows with the id drawn for it. -/
theorem mem_published_tick {next : NextRun} {now : Time}
    {schedules : Table ScheduledJob.scheduleId} {firings : ℕ → Firing} {event : Json}
    (h : event ∈ (tick next now schedules firings).published) :
    ∃ row firing, (row, firing) ∈ tickRows now schedules firings ∧
      event = fireEvent row firing.jobId := by
  have hloop : event ∈ (fireRows next now (tickRows now schedules firings)
      ⟨schedules, []⟩).1.published := by
    unfold tick at h
    split at h
    · rename_i st heq
      rw [heq]
      exact h
    · rename_i st e heq
      rw [heq]
      exact h
  rcases mem_published_fireRows hloop with hnone | hrow
  · exact absurd hnone List.not_mem_nil
  · exact hrow

end DataHarbour.Orchestrator
