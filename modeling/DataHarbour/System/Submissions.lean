import DataHarbour.JobService.Steps
import DataHarbour.Orchestrator.Scheduler

/-!
# Does every submission have a job row?

Three producers feed the job topic: `create_job`, the retry branch of `update_job_status` and
the scheduler. `create_job` publishes before its transaction commits, and the scheduler never
writes a row. The callbacks of an event find a row exactly when neither of the two is the
reason that it is missing.
-/

namespace DataHarbour.System

open Python Relational Machine JobService Orchestrator

/-- The committed state of the job service, its open `create_job` transactions, and the
scheduler's side. -/
structure Platform where
  world : World
  /-- Rows that `create_job` has flushed and announced but not committed. -/
  uncommitted : List Job := []
  schedules : Table ScheduledJob.scheduleId
  /-- The events on the job topic that the scheduler published. -/
  scheduled : List Json := []

/-- The job topic: the job service's events and the scheduler's. -/
def Platform.topic (s : Platform) : List Json :=
  s.world.jobTopic.map JobEvent.toJson ++ s.scheduled

/-- A drawn UUID is in use nowhere. -/
def Platform.Fresh (s : Platform) (jobId : JobId) : Prop :=
  s.world.jobs.find? jobId = none ∧ jobId ∉ s.uncommitted.map Job.jobId ∧
    ∀ e ∈ s.scheduled, eventJobId e ≠ some jobId

instance (s : Platform) (jobId : JobId) : Decidable (s.Fresh jobId) := by
  unfold Platform.Fresh
  have : Decidable (s.world.jobs.find? jobId = none) :=
    decidable_of_iff ((s.world.jobs.find? jobId).isNone = true) Option.isNone_iff_eq_none
  infer_instance

/-- A step of one party. Every publish of the job service succeeds and every transaction
commits; a drawn UUID that is in use disables the step. -/
inductive Action where
  /-- `create_job` up to its publish. -/
  | submit (jobId : JobId) (now : Time) (request : JobCreateRequest)
  /-- The commit of a `create_job` transaction. -/
  | commit (jobId : JobId)
  /-- `update_job_status`. -/
  | update (jobId : JobId) (now : Time) (update : JobStatusUpdate)
  /-- `cancel_job`. -/
  | cancel (jobId : JobId) (now : Time)
  /-- A tick of the scheduler. -/
  | tick (now : Time) (firings : ℕ → Firing)

/-- The state after a step. -/
def platformStep (next : NextRun) (s : Platform) : Action → Platform
  | .submit jobId now request =>
    if s.Fresh jobId then
      { s with
        world := { s.world with
          jobTopic := s.world.jobTopic ++ [originalEvent jobId request]
          metrics := (s.world.metrics.submitted request).afterEnqueue request.jobType .delivered }
        uncommitted := s.uncommitted ++ [(newJob jobId now request).afterEnqueue .delivered] }
    else s
  | .commit jobId =>
    match s.uncommitted.find? (·.jobId = jobId) with
    | none => s
    | some job =>
      match s.world.jobs.insert? job with
      | none => s
      | some jobs =>
        { s with
          world := { s.world with jobs := jobs }
          uncommitted := s.uncommitted.filter (·.jobId ≠ jobId) }
  | .update jobId now u => { s with world := (updateJobStatus s.world jobId now .delivered u).1 }
  | .cancel jobId now => { s with world := (cancelJob s.world jobId now .delivered).1 }
  | .tick now firings =>
    if ∀ r ∈ tickRows now s.schedules firings, s.Fresh r.2.jobId then
      let after := tick next now s.schedules firings
      { s with schedules := after.schedules, scheduled := s.scheduled ++ after.published }
    else s

/-- A status callback for an event on the job topic updates a row. -/
def FindsRow (s : Platform) (a : Action) : Prop :=
  ∀ jobId now u, a = .update jobId now u → (∃ e ∈ s.topic, eventJobId e = some jobId) →
    (updateJobStatus s.world jobId now .delivered u).2 ≠ none

/-- No callback is handled for an event of the scheduler, nor for a job whose `create_job`
has published its event and not yet committed its row. -/
def HandledInTime (s : Platform) (a : Action) : Prop :=
  ∀ jobId now u, a = .update jobId now u →
    (∀ e ∈ s.scheduled, eventJobId e ≠ some jobId) ∧ jobId ∉ s.uncommitted.map Job.jobId

/-- What relates the rows, the open transactions and the topic in every reachable state. -/
structure Accounted (s : Platform) : Prop where
  /-- An event of the job service has a row, committed or not. -/
  grounded : ∀ e ∈ s.world.jobTopic,
    s.world.jobs.find? e.jobId ≠ none ∨ e.jobId ∈ s.uncommitted.map Job.jobId
  /-- An open `create_job` has published its event. -/
  announced : ∀ jobId ∈ s.uncommitted.map Job.jobId, ∃ e ∈ s.world.jobTopic, e.jobId = jobId
  /-- Its row is not committed. -/
  open_fresh : ∀ jobId ∈ s.uncommitted.map Job.jobId, s.world.jobs.find? jobId = none
  /-- A scheduled event has no row. -/
  scheduled_fresh : ∀ e ∈ s.scheduled, ∀ jobId, eventJobId e = some jobId →
    s.world.jobs.find? jobId = none ∧ jobId ∉ s.uncommitted.map Job.jobId

private theorem createJob_eq {w : World} {jobId : JobId} (now : Time) (request : JobCreateRequest)
    (hfresh : w.jobs.find? ((newJob jobId now request).afterEnqueue .delivered).jobId = none) :
    (createJob w jobId now .delivered request).1 =
      { w with
        jobs := w.jobs.insert ((newJob jobId now request).afterEnqueue .delivered) hfresh
        jobTopic := w.jobTopic ++ [originalEvent jobId request]
        metrics := (w.metrics.submitted request).afterEnqueue request.jobType .delivered } := by
  simp only [createJob, Table.insert?_of_fresh hfresh, Delivery.publish]

/-- An undisturbed submission is `create_job`. -/
theorem submit_commit_eq_createJob {next : NextRun} {s : Platform} {jobId : JobId} (now : Time)
    (request : JobCreateRequest) (hfresh : s.Fresh jobId) :
    run (platformStep next) s [.submit jobId now request, .commit jobId] =
      { s with world := (createJob s.world jobId now .delivered request).1 } := by
  have hrow : s.world.jobs.find? ((newJob jobId now request).afterEnqueue .delivered).jobId =
      none := by simpa using hfresh.1
  have hothers : ∀ job ∈ s.uncommitted, job.jobId ≠ jobId :=
    fun job hjob heq => hfresh.2.1 (heq ▸ List.mem_map_of_mem hjob)
  have hfind : (s.uncommitted ++ [(newJob jobId now request).afterEnqueue .delivered]).find?
      (·.jobId = jobId) = some ((newJob jobId now request).afterEnqueue .delivered) := by
    rw [List.find?_append, List.find?_eq_none.mpr (by simpa using hothers)]
    simp
  have hfilter : (s.uncommitted ++ [(newJob jobId now request).afterEnqueue .delivered]).filter
      (·.jobId ≠ jobId) = s.uncommitted := by
    rw [List.filter_append, List.filter_eq_self.mpr (by simpa using hothers)]
    simp
  rw [createJob_eq now request hrow]
  simp only [run_cons, run_nil, platformStep, hfresh, if_true, hfind, hfilter,
    Table.insert?_of_fresh hrow]

/-- `update_job_status` answers with a row exactly when there is one. -/
theorem updateJobStatus_ne_none_iff {w : World} {jobId : JobId} {now : Time} {d : Delivery}
    {u : JobStatusUpdate} :
    (updateJobStatus w jobId now d u).2 ≠ none ↔ w.jobs.find? jobId ≠ none := by
  have hrow := find?_update w jobId now d u jobId
  cases hfind : w.jobs.find? jobId with
  | none => simp [updateJobStatus, hfind]
  | some job =>
    rw [if_pos rfl, hfind, JobService.step] at hrow
    have hresponse : (updateJobStatus w jobId now d u).2 =
        getJob (updateJobStatus w jobId now d u).1 jobId := by
      simp only [updateJobStatus, hfind]
    rw [hresponse, getJob, hrow]
    simp

/-- A status report adds and removes no row. -/
theorem find?_update_eq_none_iff (w : World) (jobId : JobId) (now : Time) (d : Delivery)
    (u : JobStatusUpdate) (k : JobId) :
    (JobService.step w (.update jobId now d u)).jobs.find? k = none ↔ w.jobs.find? k = none := by
  rw [find?_update]
  by_cases hk : jobId = k <;> simp [hk]

/-- Neither does a cancellation. -/
theorem find?_cancel_eq_none_iff (w : World) (jobId : JobId) (now : Time) (d : Delivery)
    (k : JobId) :
    (JobService.step w (.cancel jobId now d)).jobs.find? k = none ↔ w.jobs.find? k = none := by
  rw [find?_cancel]
  by_cases hk : jobId = k <;> simp [hk]

/-- An event that a status report adds to the job topic belongs to a stored job. -/
theorem mem_jobTopic_update {w : World} {jobId : JobId} {now : Time} {d : Delivery}
    {u : JobStatusUpdate} {e : JobEvent}
    (h : e ∈ (JobService.step w (.update jobId now d u)).jobTopic) :
    e ∈ w.jobTopic ∨ w.jobs.find? e.jobId ≠ none := by
  rw [jobTopic_update] at h
  cases hevent : (w.jobs.find? jobId).bind (·.resubmission u now) with
  | none =>
    rw [hevent] at h
    exact .inl h
  | some event =>
    rw [hevent] at h
    rcases mem_publish.mp h with hold | ⟨-, rfl⟩
    · exact .inl hold
    · right
      obtain ⟨job, hfind, hresubmission⟩ := Option.bind_eq_some_iff.mp hevent
      have hid : e.jobId = jobId := by
        rw [resubmission_jobId hresubmission, Table.key_of_find? hfind]
      rw [hid, hfind]
      simp

/-- A step that keeps the rows and the events keeps the accounts. -/
theorem Accounted.update {s : Platform} (h : Accounted s) {w : World}
    (hrows : ∀ k, w.jobs.find? k = none ↔ s.world.jobs.find? k = none)
    (htopic : ∀ e ∈ w.jobTopic, e ∈ s.world.jobTopic ∨ s.world.jobs.find? e.jobId ≠ none)
    (hkeep : ∀ e ∈ s.world.jobTopic, e ∈ w.jobTopic) : Accounted { s with world := w } where
  grounded e he := by
    rcases htopic e he with hold | hrow
    · rcases h.grounded e hold with hrow | hopen
      · exact .inl fun hnone => hrow ((hrows _).mp hnone)
      · exact .inr hopen
    · exact .inl fun hnone => hrow ((hrows _).mp hnone)
  announced jobId hopen := by
    obtain ⟨e, he, hid⟩ := h.announced jobId hopen
    exact ⟨e, hkeep e he, hid⟩
  open_fresh jobId hopen := (hrows jobId).mpr (h.open_fresh jobId hopen)
  scheduled_fresh e he jobId hid := by
    obtain ⟨hrow, hopen⟩ := h.scheduled_fresh e he jobId hid
    exact ⟨(hrows jobId).mpr hrow, hopen⟩

/-- An event under a fresh id is accounted for by the row about to be stored. -/
theorem Accounted.submit {s : Platform} (h : Accounted s) {jobId : JobId}
    (hfresh : s.Fresh jobId) {job : Job} (hid : job.jobId = jobId) {event : JobEvent}
    (hevent : event.jobId = jobId) (m : Metrics) :
    Accounted { s with
      world := { s.world with jobTopic := s.world.jobTopic ++ [event], metrics := m }
      uncommitted := s.uncommitted ++ [job] } where
  grounded e he := by
    rw [List.map_append, List.mem_append]
    rcases List.mem_append.mp he with hold | hnew
    · exact (h.grounded e hold).imp_right .inl
    · refine .inr (.inr ?_)
      rw [List.mem_singleton.mp hnew, hevent, ← hid]
      exact List.mem_singleton_self _
  announced k hk := by
    rw [List.map_append, List.mem_append] at hk
    rcases hk with hold | hnew
    · obtain ⟨e, he, hek⟩ := h.announced k hold
      exact ⟨e, List.mem_append_left _ he, hek⟩
    · have hkj : k = job.jobId := List.mem_singleton.mp hnew
      exact ⟨event, List.mem_append_right _ (List.mem_singleton_self event), by
        rw [hevent, hkj, hid]⟩
  open_fresh k hk := by
    rw [List.map_append, List.mem_append] at hk
    rcases hk with hold | hnew
    · exact h.open_fresh k hold
    · have hkj : k = job.jobId := List.mem_singleton.mp hnew
      rw [hkj, hid]
      exact hfresh.1
  scheduled_fresh e he k hk := by
    obtain ⟨hrow, hopen⟩ := h.scheduled_fresh e he k hk
    refine ⟨hrow, fun hmem => ?_⟩
    rw [List.map_append, List.mem_append] at hmem
    rcases hmem with hold | hnew
    · exact hopen hold
    · have hkj : k = job.jobId := List.mem_singleton.mp hnew
      rw [hkj, hid] at hk
      exact hfresh.2.2 e he hk

/-- Storing the row of a submission keeps the accounts. -/
theorem Accounted.commit {s : Platform} (h : Accounted s) {job : Job}
    (hopen : job ∈ s.uncommitted) (hrow : s.world.jobs.find? job.jobId = none) :
    Accounted { s with
      world := { s.world with jobs := s.world.jobs.insert job hrow }
      uncommitted := s.uncommitted.filter (·.jobId ≠ job.jobId) } := by
  have hids : ∀ k, k ∈ (s.uncommitted.filter (·.jobId ≠ job.jobId)).map Job.jobId ↔
      k ∈ s.uncommitted.map Job.jobId ∧ k ≠ job.jobId := by
    intro k
    simp only [List.mem_map, List.mem_filter, decide_eq_true_eq]
    constructor
    · rintro ⟨x, ⟨hx, hne⟩, rfl⟩
      exact ⟨⟨x, hx, rfl⟩, hne⟩
    · rintro ⟨⟨x, hx, rfl⟩, hne⟩
      exact ⟨x, ⟨hx, hne⟩, rfl⟩
  constructor
  · intro e he
    by_cases hid : e.jobId = job.jobId
    · exact .inl (by simp [hid])
    · rcases h.grounded e he with hold | hopen'
      · exact .inl (by simpa [Ne.symm hid] using hold)
      · exact .inr ((hids _).mpr ⟨hopen', hid⟩)
  · intro k hk
    exact h.announced k ((hids k).mp hk).1
  · intro k hk
    obtain ⟨hmem, hne⟩ := (hids k).mp hk
    simpa [Ne.symm hne] using h.open_fresh k hmem
  · intro e he k hk
    obtain ⟨hnone, hnot⟩ := h.scheduled_fresh e he k hk
    have hne : job.jobId ≠ k := fun heq => hnot (heq ▸ List.mem_map_of_mem hopen)
    exact ⟨by simpa [hne] using hnone, fun hmem => hnot ((hids k).mp hmem).1⟩

/-- Events of a tick under fresh ids keep the accounts. -/
theorem Accounted.tick {s : Platform} (h : Accounted s) (schedules : Table ScheduledJob.scheduleId)
    {published : List Json}
    (hfresh : ∀ e ∈ published, ∃ jobId, eventJobId e = some jobId ∧ s.Fresh jobId) :
    Accounted { s with schedules := schedules, scheduled := s.scheduled ++ published } where
  grounded := h.grounded
  announced := h.announced
  open_fresh := h.open_fresh
  scheduled_fresh e he k hk := by
    rcases List.mem_append.mp he with hold | hnew
    · exact h.scheduled_fresh e hold k hk
    · obtain ⟨jobId, hid, hrow, hopen, -⟩ := hfresh e hnew
      rw [hid, Option.some.injEq] at hk
      exact hk ▸ ⟨hrow, hopen⟩

private theorem accounted_invariant (next : NextRun) : Invariant (platformStep next) Accounted := by
  intro s a h
  cases a with
  | submit jobId now request =>
    by_cases hfresh : s.Fresh jobId
    · rw [platformStep, if_pos hfresh]
      exact h.submit hfresh (by simp) rfl _
    · rw [platformStep, if_neg hfresh]
      exact h
  | commit jobId =>
    cases hfind : s.uncommitted.find? (·.jobId = jobId) with
    | none => simpa only [platformStep, hfind] using h
    | some job =>
      have hid : job.jobId = jobId := by simpa using List.find?_some hfind
      subst hid
      have hopen := List.mem_of_find?_eq_some hfind
      have hrow := h.open_fresh job.jobId (List.mem_map_of_mem hopen)
      simp only [platformStep, hfind, Table.insert?_of_fresh hrow]
      exact h.commit hopen hrow
  | update jobId now u =>
    exact h.update (find?_update_eq_none_iff s.world jobId now .delivered u)
      (fun e he => mem_jobTopic_update he) fun e he => by
        rw [← JobService.step, jobTopic_update]
        split
        · exact mem_publish_of_mem he
        · exact he
  | cancel jobId now =>
    have htopic := jobTopic_cancel s.world jobId now .delivered
    exact h.update (find?_cancel_eq_none_iff s.world jobId now .delivered)
      (fun e he => .inl (htopic ▸ he)) fun e he => htopic.symm ▸ he
  | tick now firings =>
    by_cases hfresh : ∀ r ∈ tickRows now s.schedules firings, s.Fresh r.2.jobId
    · rw [platformStep, if_pos hfresh]
      refine h.tick _ fun e he => ?_
      obtain ⟨row, firing, hmem, rfl⟩ := mem_published_tick he
      exact ⟨firing.jobId, eventJobId_fireEvent row firing.jobId, hfresh _ hmem⟩
    · rw [platformStep, if_neg hfresh]
      exact h

private theorem exists_topic_iff {s : Platform} {jobId : JobId} :
    (∃ e ∈ s.topic, eventJobId e = some jobId) ↔
      (∃ e ∈ s.world.jobTopic, e.jobId = jobId) ∨ ∃ e ∈ s.scheduled, eventJobId e = some jobId := by
  constructor
  · rintro ⟨e, he, hid⟩
    rcases List.mem_append.mp he with hjob | hscheduled
    · obtain ⟨event, hevent, rfl⟩ := List.mem_map.mp hjob
      rw [eventJobId_toJson, Option.some.injEq] at hid
      exact .inl ⟨event, hevent, hid⟩
    · exact .inr ⟨e, hscheduled, hid⟩
  · rintro (⟨event, hevent, rfl⟩ | ⟨e, he, hid⟩)
    · exact ⟨event.toJson, List.mem_append_left _ (List.mem_map_of_mem hevent),
        eventJobId_toJson event⟩
    · exact ⟨e, List.mem_append_right _ he, hid⟩

/-- In a reachable state, the callbacks of a step find a row exactly when it handles them in
time. -/
theorem findsRow_iff {s : Platform} (h : Accounted s) (a : Action) :
    FindsRow s a ↔ HandledInTime s a := by
  constructor
  · intro hfinds jobId now u ha
    have hrow : (∃ e ∈ s.topic, eventJobId e = some jobId) → s.world.jobs.find? jobId ≠ none :=
      fun htopic => updateJobStatus_ne_none_iff.mp (hfinds jobId now u ha htopic)
    constructor
    · intro e he hid
      exact hrow (exists_topic_iff.mpr (.inr ⟨e, he, hid⟩)) (h.scheduled_fresh e he jobId hid).1
    · intro hopen
      have htopic := exists_topic_iff.mpr (.inl (h.announced jobId hopen))
      exact hrow htopic (h.open_fresh jobId hopen)
  · intro hintime jobId now u ha htopic
    obtain ⟨hscheduled, hopen⟩ := hintime jobId now u ha
    apply updateJobStatus_ne_none_iff.mpr
    rcases exists_topic_iff.mp htopic with ⟨e, he, rfl⟩ | ⟨e, he, hid⟩
    · exact (h.grounded e he).resolve_right hopen
    · exact absurd hid (hscheduled e he)

/-- The platform before any submission. -/
def Platform.start (schedules : Table ScheduledJob.scheduleId) : Platform :=
  { world := World.empty, schedules := schedules }

private theorem accounted_start (schedules : Table ScheduledJob.scheduleId) :
    Accounted (.start schedules) where
  grounded _ h := absurd h List.not_mem_nil
  announced _ h := absurd h List.not_mem_nil
  open_fresh _ h := absurd h List.not_mem_nil
  scheduled_fresh _ h := absurd h List.not_mem_nil

/-- **When every submission has a row.** In a run of submissions, callbacks, cancellations
and scheduler ticks, every callback for an event on the job topic finds a row if and only if
none is handled for an event of the scheduler or before its `create_job` has committed. -/
theorem callbacks_find_rows_iff (next : NextRun) (schedules : Table ScheduledJob.scheduleId)
    (actions : List Action) :
    Along (platformStep next) FindsRow (.start schedules) actions ↔
      Along (platformStep next) HandledInTime (.start schedules) actions := by
  have hiff : ∀ before a, FindsRow (run (platformStep next) (.start schedules) before) a ↔
      HandledInTime (run (platformStep next) (.start schedules) before) a := fun before a =>
    findsRow_iff ((accounted_invariant next).run (accounted_start schedules) before) a
  rw [along_iff_forall_split, along_iff_forall_split]
  constructor
  · intro h before a rest heq
    exact (hiff before a).mp (h before a rest heq)
  · intro h before a rest heq
    exact (hiff before a).mpr (h before a rest heq)

/-- A schedule that is due at time 60. -/
def sampleSchedule : ScheduledJob where
  scheduleId := "schedule-1"
  name := "nightly-etl"
  cronExpression := "0 2 * * *"
  jobTemplate := [("job_name", .str "daily_sales_etl"), ("max_retries", .int 3)]
  nextRunAt := 60

/-- The table that holds the sample schedule. -/
def sampleSchedules : Table ScheduledJob.scheduleId :=
  Table.empty.insert sampleSchedule rfl

/-- A tick fires the sample schedule, and the orchestrator's `PROVISIONING` report for the
event finds no row. -/
theorem scheduled_event_has_no_row : ¬ Along (platformStep fun _ _ now => .ok (now + 86400))
    FindsRow (.start sampleSchedules)
    [.tick 60 fun _ => { jobId := "job-1", hostNow := 60 },
      .update "job-1" 61 { status := .provisioning }] := by
  rintro ⟨-, hfinds, -⟩
  refine hfinds "job-1" 61 { status := .provisioning } rfl ?_ rfl
  exact ⟨fireEvent sampleSchedule "job-1", List.mem_cons_self, rfl⟩

end DataHarbour.System
