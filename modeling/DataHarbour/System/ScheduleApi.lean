import DataHarbour.JobService.Payloads
import DataHarbour.JobService.Rollbacks
import DataHarbour.Orchestrator.EcsManager
import DataHarbour.Relational.Columns
import DataHarbour.System.ScheduleUpdates

/-!
# The schedules API

`create_schedule`, `update_schedule`, `delete_schedule` and `trigger_schedule` beside the ticks of
the scheduler replicas and the calls of the job service. Each API call is one transaction, rolled
back if a flush fails. Whatever is called, every stored template can be submitted, and a fire of the
scheduler asks for the same task as a trigger. A `PATCH` that would change a schedule is rolled
back.
-/

namespace DataHarbour.System

open Python Relational Machine JobService Orchestrator

/-! ## The calls -/

/-- What the API relies on that is not code of this repository. -/
structure Libraries where
  /-- `croniter(...).get_next`. -/
  next : NextRun
  /-- `croniter(value)` does not raise. -/
  validCron : String → Bool
  /-- The column `job_template`. -/
  column : JsonColumn
  /-- The conversion of a JSON value to a field of type `int`. -/
  readInt : Json → Option ℤ
  readInt_int : ∀ n, readInt (.int n) = some n
  /-- The `INSERT` of a submission does not fail. -/
  acceptsJob : JobCreateRequest → Bool

/-- How a call fails. -/
inductive ApiError where
  | notFound
  | conflict
  | unprocessable
  | internal
  deriving DecidableEq, Repr

/-- `ScheduleCreateRequest`. -/
structure ScheduleCreateRequest where
  name : String
  cronExpression : String
  timezone : String := "UTC"
  jobTemplate : CheckedRequest
  enabled : Bool := true
  createdBy : Option String := none

/-- The checks of the fields of `ScheduleCreateRequest`. -/
def ScheduleCreateRequest.checked (lib : Libraries) (request : ScheduleCreateRequest) : Bool :=
  decide (1 ≤ request.name.length ∧ request.name.length ≤ 255) &&
    decide (request.timezone.length ≤ 64) && lib.validCron request.cronExpression

/-- The text fits into a column of type `VARCHAR(n)`. -/
def fits (n : ℕ) (text : String) : Bool := (varchar n text).isSome

/-- The texts of a row fit into the columns of `scheduled_jobs`. -/
def rowFits (row : ScheduledJob) : Bool :=
  fits 255 row.name && fits 255 row.cronExpression && fits 64 row.timezone

/-- The texts of a request fit into the columns of `jobs`; only the length of `job_name` is
checked before. -/
def jobFits (request : JobCreateRequest) : Bool :=
  fits 255 request.jobName && fits 255 request.submittedBy &&
    request.databaseName.all (fits 255) && request.tableName.all (fits 255)

/-- The record that `create_schedule` builds. -/
def newSchedule (scheduleId : String) (nextRunAt : Time) (request : ScheduleCreateRequest) :
    ScheduledJob where
  scheduleId := scheduleId
  name := request.name
  cronExpression := request.cronExpression
  timezone := request.timezone
  jobTemplate := request.jobTemplate.request.dump
  enabled := request.enabled
  nextRunAt := nextRunAt

/-- `create_schedule` for the drawn `schedule_id`: the table after it, and the response. -/
def createSchedule (lib : Libraries) (schedules : Table ScheduledJob.scheduleId)
    (scheduleId : String) (now : Time) (request : ScheduleCreateRequest) :
    Table ScheduledJob.scheduleId × Except ApiError ScheduledJob :=
  if !request.checked lib then (schedules, .error .unprocessable)
  else if schedules.rows.any (·.name = request.name) then (schedules, .error .conflict)
  else
    match lib.next request.cronExpression request.timezone now with
    | .error _ => (schedules, .error .internal)
    | .ok time =>
      let record := newSchedule scheduleId time request
      match lib.column.storeDict record.jobTemplate with
      | none => (schedules, .error .internal)
      | some template =>
        if rowFits record && request.createdBy.all (fits 255) then
          match schedules.insert? { record with jobTemplate := template } with
          | none => (schedules, .error .internal)
          | some schedules' => (schedules', .ok record)
        else (schedules, .error .internal)

/-- The body of `update_schedule`, its template checked. -/
structure SchedulePatch where
  cronExpression : Option String := none
  timezone : Option String := none
  jobTemplate : Option CheckedRequest := none
  enabled : Option Bool := none

/-- The request with its template dumped. -/
def SchedulePatch.dumped (patch : SchedulePatch) : ScheduleUpdateRequest where
  cronExpression := patch.cronExpression
  timezone := patch.timezone
  jobTemplate := patch.jobTemplate.map fun checked => checked.request.dump
  enabled := patch.enabled

/-- `update_schedule`. -/
def updateSchedule (lib : Libraries) (schedules : Table ScheduledJob.scheduleId)
    (scheduleId : String) (now : Time) (patch : SchedulePatch) :
    Table ScheduledJob.scheduleId × Except ApiError ScheduledJob :=
  if !(patch.cronExpression.map lib.validCron).getD true then (schedules, .error .unprocessable)
  else
    match schedules.find? scheduleId with
    | none => (schedules, .error .notFound)
    | some row =>
      match updatedSchedule lib.next now row patch.dumped with
      | .error _ => (schedules, .error .internal)
      | .ok record =>
        if Unchanged row record then (schedules, .ok record)
        else
          -- the `UPDATE` fails, or it leaves `updated_at` expired and the response fails
          (schedules, .error .internal)

/-- `delete_schedule`. -/
def deleteSchedule (schedules : Table ScheduledJob.scheduleId) (scheduleId : String) :
    Table ScheduledJob.scheduleId × Except ApiError Unit :=
  match schedules.find? scheduleId with
  | none => (schedules, .error .notFound)
  | some _ => (schedules.erase scheduleId, .ok ())

/-- The columns that a trigger stamps. -/
def stampRow (row : ScheduledJob) (now : Time) (jobId : JobId) : ScheduledJob :=
  { row with lastRunAt := some now, lastRunJobId := some jobId }

/-- The job service with the scheduler replicas, over one database. -/
structure Desk (ι : Type*) where
  world : World
  cluster : Cluster ι

/-- A new deployment. -/
def Desk.start {ι : Type*} (clock : Time) : Desk ι := ⟨World.empty, Cluster.start Table.empty clock⟩

variable {ι : Type*}

/-- The table `scheduled_jobs`. -/
def Desk.schedules (s : Desk ι) : Table ScheduledJob.scheduleId := s.cluster.schedules

/-- Another table. -/
def Desk.withSchedules (s : Desk ι) (schedules : Table ScheduledJob.scheduleId) : Desk ι :=
  { s with cluster := { s.cluster with schedules := schedules } }

/-- `trigger_schedule`: `create_job` with the stored template, then the stamps. -/
def triggerSchedule (lib : Libraries) (s : Desk ι) (scheduleId : String) (jobId : JobId)
    (now stampedAt : Time) (delivery : Delivery) : Desk ι × Except ApiError JobResponse :=
  match s.schedules.find? scheduleId with
  | none => (s, .error .notFound)
  | some row =>
    match validateRequest lib.readInt row.jobTemplate with
    | none => (s, .error .internal)
    | some checked =>
      if jobFits checked.request then
        match createJob s.world jobId now delivery checked.request with
        | (world, none) => ({ s with world := world }, .error .internal)
        | (world, some response) =>
          ({ s with world := world }.withSchedules
            (s.schedules.set (stampRow row stampedAt response.jobId)), .ok response)
      else
        -- the `INSERT` fails before anything is published
        ({ s with world := { s.world with
          metrics := s.world.metrics.submitted checked.request } }, .error .internal)

/-- A step of the scheduler replicas, a call of the schedules API, or a call of the job service. -/
inductive DeskStep (ι : Type*) where
  | tick (a : ClusterStep ι)
  | create (scheduleId : String) (now : Time) (request : ScheduleCreateRequest)
  | update (scheduleId : String) (now : Time) (patch : SchedulePatch)
  | delete (scheduleId : String)
  | trigger (scheduleId : String) (jobId : JobId) (now stampedAt : Time) (delivery : Delivery)
  | job (call : Call)

/-- The state after a step. -/
def deskStep [DecidableEq ι] (lib : Libraries) (s : Desk ι) : DeskStep ι → Desk ι
  | .tick a => { s with cluster := clusterStep lib.next s.cluster a }
  | .create scheduleId now request =>
    s.withSchedules (createSchedule lib s.schedules scheduleId now request).1
  | .update scheduleId now patch =>
    s.withSchedules (updateSchedule lib s.schedules scheduleId now patch).1
  | .delete scheduleId => s.withSchedules (deleteSchedule s.schedules scheduleId).1
  | .trigger scheduleId jobId now stampedAt delivery =>
    (triggerSchedule lib s scheduleId jobId now stampedAt delivery).1
  | .job call => { s with world := serve lib.acceptsJob s.world call }

/-! ## What one call can do -/

/-- A creation is refused, or inserts a row with a new name. -/
theorem createSchedule_cases (lib : Libraries) (schedules : Table ScheduledJob.scheduleId)
    (scheduleId : String) (now : Time) (request : ScheduleCreateRequest) :
    (createSchedule lib schedules scheduleId now request).1 = schedules ∨
      ∃ row hfresh, (∀ r ∈ schedules.rows, r.name ≠ request.name) ∧
        row.scheduleId = scheduleId ∧ row.name = request.name ∧ row.enabled = request.enabled ∧
        lib.column.storeDict request.jobTemplate.request.dump = some row.jobTemplate ∧
        (createSchedule lib schedules scheduleId now request).1 = schedules.insert row hfresh := by
  unfold createSchedule
  split
  · exact .inl rfl
  · split
    · exact .inl rfl
    · next hname =>
      split
      · exact .inl rfl
      · next time _ =>
        simp only
        split
        · exact .inl rfl
        · next template htemplate =>
          split
          · split
            · exact .inl rfl
            · next schedules' hinsert =>
              obtain ⟨hfresh, rfl⟩ := Table.insert?_eq_some hinsert
              have hnames : ∀ r ∈ schedules.rows, r.name ≠ request.name := fun r hr heq =>
                hname (List.any_eq_true.mpr ⟨r, hr, decide_eq_true heq⟩)
              exact .inr ⟨_, hfresh, hnames, rfl, rfl, rfl, htemplate, rfl⟩
          · exact .inl rfl

/-- Nothing that `update_schedule` writes is committed. -/
@[simp] theorem updateSchedule_fst (lib : Libraries) (schedules : Table ScheduledJob.scheduleId)
    (scheduleId : String) (now : Time) (patch : SchedulePatch) :
    (updateSchedule lib schedules scheduleId now patch).1 = schedules := by
  unfold updateSchedule
  split
  · rfl
  · split
    · rfl
    · split
      · rfl
      · split <;> rfl

/-- A trigger leaves all rows as they are, or submits the template and stamps the row. -/
theorem triggerSchedule_cases (lib : Libraries) (s : Desk ι) (scheduleId : String)
    (jobId : JobId) (now stampedAt : Time) (delivery : Delivery) :
    (∃ world e, world.jobs = s.world.jobs ∧
        triggerSchedule lib s scheduleId jobId now stampedAt delivery =
          ({ s with world := world }, .error e)) ∨
      ∃ (row : ScheduledJob) (checked : CheckedRequest) (world : World) (response : JobResponse),
        s.schedules.find? scheduleId = some row ∧
        createJob s.world jobId now delivery checked.request = (world, some response) ∧
        triggerSchedule lib s scheduleId jobId now stampedAt delivery =
          ({ s with world := world }.withSchedules
            (s.schedules.set (stampRow row stampedAt response.jobId)), .ok response) := by
  unfold triggerSchedule
  split
  · exact .inl ⟨s.world, _, rfl, rfl⟩
  · next row hrow =>
    split
    · exact .inl ⟨s.world, _, rfl, rfl⟩
    · next checked _ =>
      split
      · split
        · next world hcreate =>
          refine .inl ⟨world, _, ?_, rfl⟩
          unfold createJob at hcreate
          simp only at hcreate
          split at hcreate
          · rw [← (Prod.mk.inj hcreate).1]
          · cases (Prod.mk.inj hcreate).2
        · next world response hcreate =>
          exact .inr ⟨row, checked, world, response, hrow, hcreate, rfl⟩
      · exact .inl
          ⟨{ s.world with metrics := s.world.metrics.submitted checked.request }, _, rfl, rfl⟩

/-! ## A fire and a trigger ask for the same task -/

/-- The entries of a fire other than its own four are those of the template. -/
theorem get?_fireEvent {row : ScheduledJob} {jobId : JobId} {k : String}
    (hk : k ∉ ["job_id", "scheduled", "schedule_id", "schedule_name"]) :
    Dict.get? ((((row.jobTemplate.set "job_id" (.str jobId)).set "scheduled" (.bool true)).set
      "schedule_id" (.str row.scheduleId)).set "schedule_name" (.str row.name)) k =
      row.jobTemplate.get? k := by
  simp only [List.mem_cons, List.not_mem_nil, or_false, not_or] at hk
  obtain ⟨hid, hscheduled, hschedule, hname⟩ := hk
  rw [Dict.get?_set_of_ne hname, Dict.get?_set_of_ne hschedule, Dict.get?_set_of_ne hscheduled,
    Dict.get?_set_of_ne hid]

/-- The request to ECS for a fire of a stored template is that for its submission. -/
theorem runTaskRequest_fireEvent {row : ScheduledJob} {request : JobCreateRequest}
    (h : TemplateOf row.jobTemplate request) (jobId : JobId) :
    runTaskRequest (fireEvent row jobId) =
      runTaskRequest (originalEvent jobId request).toJson := by
  rw [runTaskRequest_toJson]
  have hid : (fireEvent row jobId).getItem "job_id" = .ok (.str jobId) := by
    have hget := eventJobId_fireEvent row jobId
    unfold eventJobId at hget
    split at hget
    · next jobId' heq =>
      rw [heq, Option.some.inj hget]
    · cases hget
  have hretry : (fireEvent row jobId).get "retry_count" (.int 0) = .ok (.int 0) := by
    rw [fireEvent, Json.get, get?_fireEvent (by decide), h.others _ (by decide)]
    rfl
  have hwords : (fireEvent row jobId).get "arguments" (.arr []) =
      .ok (.arr (request.arguments.map .str)) := by
    rw [fireEvent, Json.get, get?_fireEvent (by decide), h.arguments]
    rfl
  have hconfig : (fireEvent row jobId).get "spark_config" (.obj []) =
      .ok (.obj request.sparkConfig) := by
    rw [fireEvent, Json.get, get?_fireEvent (by decide), h.sparkConfig]
    rfl
  have hentrypoint : (fireEvent row jobId).getItem "entrypoint" =
      .ok (.str request.entrypoint) := by
    rw [fireEvent, Json.getItem, get?_fireEvent (by decide), h.entrypoint]
  simp only [runTaskRequest, hid, hretry, hwords, hconfig, hentrypoint, Json.toInt, configItems,
    bind, Except.bind, joinArguments_map_str, validated, sliced, pure, Except.pure]
  rfl

/-! ## Every stored template can be submitted -/

/-- The template of the row holds a request that passes the checks. -/
def Submittable (row : ScheduledJob) : Prop :=
  ∃ checked : CheckedRequest, TemplateOf row.jobTemplate checked.request

/-- The invariant of the schedules: their names are distinct, and every template, stored or in the
hand of a replica, can be submitted. -/
structure Desk.Sound (s : Desk ι) : Prop where
  names : (s.schedules.rows.map ScheduledJob.name).Nodup
  templates : ∀ k row, s.schedules.find? k = some row → Submittable row
  selected : ∀ i, ∀ row ∈ (s.cluster.phase i).selected, Submittable row
  published : ∀ f ∈ s.cluster.published, Submittable f.1

private theorem submittable_of_storeDict {column : JsonColumn} {checked : CheckedRequest}
    {template : Dict} (h : column.storeDict checked.request.dump = some template)
    {row : ScheduledJob} (hrow : row.jobTemplate = template) : Submittable row := by
  obtain ⟨config, -, htemplate⟩ := JsonColumn.templateOf_storeDict h
  exact ⟨⟨{ checked.request with sparkConfig := config }, checked.name_length,
    checked.maxRetries_le⟩, hrow ▸ htemplate⟩

/-- A change of the table. -/
theorem Desk.Sound.withSchedules {s : Desk ι} (h : s.Sound)
    {schedules : Table ScheduledJob.scheduleId}
    (hnames : (schedules.rows.map ScheduledJob.name).Nodup)
    (htemplates : ∀ k row, schedules.find? k = some row → Submittable row) :
    (s.withSchedules schedules).Sound :=
  ⟨hnames, htemplates, h.selected, h.published⟩

/-- A stored row is replaced by one with its name and a template that can be submitted. -/
theorem Desk.Sound.set {s : Desk ι} (h : s.Sound) {row old : ScheduledJob}
    (hold : s.schedules.find? row.scheduleId = some old) (hname : row.name = old.name)
    (hrow : Submittable row) : (s.withSchedules (s.schedules.set row)).Sound := by
  refine h.withSchedules ?_ fun k r hr => ?_
  · rw [Table.map_set hold hname]
    exact h.names
  · rw [Table.find?_set] at hr
    split at hr
    · obtain ⟨x, -, rfl⟩ := Option.map_eq_some_iff.mp hr
      exact hrow
    · exact h.templates k r hr

private theorem sound_create {lib : Libraries} {s : Desk ι} (h : s.Sound) (scheduleId : String)
    (now : Time) (request : ScheduleCreateRequest) :
    (s.withSchedules (createSchedule lib s.schedules scheduleId now request).1).Sound := by
  rcases createSchedule_cases lib s.schedules scheduleId now request with
    heq | ⟨row, hfresh, hnames, -, hname, -, htemplate, heq⟩
  · rw [heq]
    exact h
  · rw [heq]
    refine h.withSchedules (List.nodup_cons.mpr ⟨?_, h.names⟩) fun k r hr => ?_
    · intro hmem
      obtain ⟨x, hx, hsame⟩ := List.mem_map.mp hmem
      exact hnames x hx (hsame.trans hname)
    · rw [Table.find?_insert] at hr
      split at hr
      · obtain rfl := Option.some.inj hr
        exact submittable_of_storeDict htemplate rfl
      · exact h.templates k r hr

private theorem sound_delete {s : Desk ι} (h : s.Sound) (scheduleId : String) :
    (s.withSchedules (deleteSchedule s.schedules scheduleId).1).Sound := by
  unfold deleteSchedule
  split
  · exact h
  · refine h.withSchedules (h.names.sublist (List.filter_sublist.map _)) fun k row hrow => ?_
    have hmem := (Table.mem_erase.mp (Table.mem_of_find? hrow)).1
    exact h.templates _ row (Table.find?_of_mem hmem)

private theorem sound_trigger {lib : Libraries} {s : Desk ι} (h : s.Sound) (scheduleId : String)
    (jobId : JobId) (now stampedAt : Time) (delivery : Delivery) :
    (triggerSchedule lib s scheduleId jobId now stampedAt delivery).1.Sound := by
  have hworld : ∀ world, Desk.Sound { s with world := world } := fun _ =>
    ⟨h.names, h.templates, h.selected, h.published⟩
  rcases triggerSchedule_cases lib s scheduleId jobId now stampedAt delivery with
    ⟨world, e, -, heq⟩ | ⟨row, checked, world, response, hrow, -, heq⟩
  · rw [heq]
    exact hworld world
  · rw [heq]
    have hold : s.schedules.find? (stampRow row stampedAt response.jobId).scheduleId =
        some row := Table.find?_of_mem (Table.mem_of_find? hrow)
    have hstamped : Submittable (stampRow row stampedAt response.jobId) :=
      h.templates scheduleId row hrow
    exact (hworld world).set hold rfl hstamped

/-- The `UPDATE`s of a tick change nothing that an advance leaves alone. -/
theorem map_foldl_apply {α : Type*} {f : ScheduledJob → α}
    (hf : ∀ row now jobId next, f (ScheduledJob.advance row now jobId next) = f row) (now : Time)
    (updates : List Advance) (schedules : Table ScheduledJob.scheduleId) :
    (updates.foldl (Advance.apply now) schedules).rows.map f = schedules.rows.map f := by
  induction updates generalizing schedules with
  | nil => rfl
  | cons u updates ih =>
    rw [List.foldl_cons, ih, Advance.apply]
    split
    · next row hrow =>
      have hold : schedules.find? (row.advance now u.jobId u.next).scheduleId = some row :=
        Table.find?_of_mem (Table.mem_of_find? hrow)
      exact Table.map_set hold (hf row now u.jobId u.next)
    · rfl

/-- The empty desk is sound. -/
theorem sound_start (clock : Time) : (Desk.start clock : Desk ι).Sound where
  names := List.nodup_nil
  templates _ _ h := by cases h
  selected _ _ h := absurd h List.not_mem_nil
  published _ h := absurd h List.not_mem_nil

section Steps

variable [DecidableEq ι]

/-- A replica moves on with rows that can be submitted. -/
theorem Desk.Sound.enter {s : Desk ι} (h : s.Sound) {t : Cluster ι} {i : ι} {phase : TickPhase}
    (hphase : t.phase = s.cluster.phase)
    (hnames : (t.schedules.rows.map ScheduledJob.name).Nodup)
    (htemplates : ∀ k row, t.schedules.find? k = some row → Submittable row)
    (hselected : ∀ row ∈ phase.selected, Submittable row)
    (hpublished : ∀ f ∈ t.published, Submittable f.1) :
    Desk.Sound ⟨s.world, t.enter i phase⟩ := by
  refine ⟨hnames, htemplates, fun k => ?_, hpublished⟩
  by_cases hk : k = i
  · rw [hk, enter_phase_self]
    exact hselected
  · rw [enter_phase_of_ne hk, hphase]
    exact h.selected k

private theorem sound_tick {next : NextRun} {s : Desk ι} (h : s.Sound) {cluster : Cluster ι}
    (hmoves : Moves next s.cluster cluster) : Desk.Sound ⟨s.world, cluster⟩ := by
  have hnone : ∀ row ∈ ([] : List ScheduledJob), Submittable row := by simp
  cases hmoves with
  | stay => exact h
  | elapse duration => exact ⟨h.names, h.templates, h.selected, h.published⟩
  | acquire _ _ _ => exact h.enter rfl h.names h.templates hnone h.published
  | select scan _ =>
    refine h.enter rfl h.names h.templates (fun row hrow => ?_) h.published
    have hmem := (scan.perm _).mem_iff.mp (mem_dueRows hrow).1
    exact h.templates _ row (Table.find?_of_mem hmem)
  | @skip i _ row _ _ hphase =>
    refine h.enter rfl h.names h.templates (fun other hother => h.selected i other ?_) h.published
    rw [hphase]
    exact List.mem_cons_of_mem row hother
  | @publish i _ row _ _ _ hphase =>
    have hselected := h.selected i
    rw [hphase] at hselected
    refine h.enter rfl h.names h.templates hselected fun f hf => ?_
    rcases List.mem_append.mp hf with hold | hnew
    · exact h.published f hold
    · rw [List.mem_singleton.mp hnew]
      exact hselected row List.mem_cons_self
  | @update i _ row _ _ _ _ hphase _ =>
    refine h.enter rfl h.names h.templates (fun other hother => h.selected i other ?_) h.published
    rw [hphase]
    exact List.mem_cons_of_mem row hother
  | raise _ _ => exact h.enter rfl h.names h.templates hnone h.published
  | @commit i now updates _ =>
    refine h.enter rfl ?_ (fun k row hrow => ?_) hnone h.published
    · rw [map_foldl_apply fun _ _ _ _ => rfl]
      exact h.names
    · exact forall_foldl_apply (P := fun _ row => Submittable row) h.templates
        (fun _ _ _ hold => hold) hrow
  | unlock _ => exact h.enter rfl h.names h.templates hnone h.published

/-- Every run keeps the desk sound. -/
theorem sound_invariant (lib : Libraries) : Invariant (deskStep (ι := ι) lib) Desk.Sound := by
  intro s a h
  cases a with
  | tick a => exact sound_tick h (moves_clusterStep lib.next s.cluster a)
  | create scheduleId now request => exact sound_create h scheduleId now request
  | update scheduleId now patch =>
    rw [deskStep, updateSchedule_fst]
    exact h
  | delete scheduleId => exact sound_delete h scheduleId
  | trigger scheduleId jobId now stampedAt delivery =>
    exact sound_trigger h scheduleId jobId now stampedAt delivery
  | job call => exact ⟨h.names, h.templates, h.selected, h.published⟩

end Steps

/-- A trigger fails only for want of the schedule, for a drawn id that is in use, or for a text
that does not fit. -/
theorem Desk.Sound.trigger_fails {lib : Libraries} {s : Desk ι} (h : s.Sound)
    {scheduleId : String} {jobId : JobId} {now stampedAt : Time} {delivery : Delivery}
    {e : ApiError} (hfails :
      (triggerSchedule lib s scheduleId jobId now stampedAt delivery).2 = .error e) :
    s.schedules.find? scheduleId = none ∨ (s.world.jobs.find? jobId).isSome ∨
      ∃ row checked, s.schedules.find? scheduleId = some row ∧
        validateRequest lib.readInt row.jobTemplate = some checked ∧
        jobFits checked.request = false := by
  unfold triggerSchedule at hfails
  split at hfails
  · next hnone => exact .inl hnone
  · next row hrow =>
    right
    obtain ⟨checked, htemplate⟩ := h.templates _ _ hrow
    have hvalid := validateRequest_of_templateOf lib.readInt_int htemplate
    rw [hvalid] at hfails
    simp only at hfails
    split at hfails
    · left
      split at hfails
      · next world hcreate =>
        by_contra hfresh
        have hkey : s.world.jobs.find?
            ((newJob jobId now checked.request).afterEnqueue delivery).jobId = none := by
          cases delivery <;> simpa [newJob, Job.afterEnqueue] using hfresh
        simp [createJob, Table.insert?_of_fresh hkey] at hcreate
      · cases hfails
    · next hlong => exact .inr ⟨row, checked, hrow, hvalid, Bool.not_eq_true _ ▸ hlong⟩

/-- **Every schedule can be submitted.** In every interleaving of the API's calls with the ticks of
the replicas, the names are distinct, and the template of every stored schedule validates, so that
a trigger fails only if the schedule is missing, the drawn id in use, or a text of the template too
long for its column in `jobs`. A fire of the scheduler asks ECS for the same task as a trigger that
draws the same id, and no published event, of the scheduler or of the job service, fails to ask for
one. -/
theorem schedules_submittable [DecidableEq ι] (lib : Libraries) (clock : Time)
    (steps : List (DeskStep ι)) :
    let s := run (deskStep lib) (Desk.start clock) steps
    (s.schedules.rows.map ScheduledJob.name).Nodup ∧
      (∀ row ∈ s.schedules.rows, ∃ checked,
        validateRequest lib.readInt row.jobTemplate = some checked ∧
          ∀ jobId, runTaskRequest (fireEvent row jobId) =
            runTaskRequest (originalEvent jobId checked.request).toJson) ∧
      (∀ scheduleId jobId now stampedAt delivery e,
        (triggerSchedule lib s scheduleId jobId now stampedAt delivery).2 = .error e →
          s.schedules.find? scheduleId = none ∨ (s.world.jobs.find? jobId).isSome ∨
            ∃ row checked, s.schedules.find? scheduleId = some row ∧
              validateRequest lib.readInt row.jobTemplate = some checked ∧
              jobFits checked.request = false) ∧
      (∀ f ∈ s.cluster.published, ∃ request, runTaskRequest (fireEvent f.1 f.2) = .ok request ∧
        request.jobId = f.2 ∧ request.retryCount = 0) ∧
      ∀ e ∈ s.world.jobTopic, ∃ request, runTaskRequest e.toJson = .ok request ∧
        request.jobId = e.jobId ∧ request.retryCount = e.retry.getD 0 := by
  intro s
  have h : s.Sound := (sound_invariant lib).run (sound_start clock) steps
  refine ⟨h.names, fun row hrow => ?_, fun _ _ _ _ _ _ => h.trigger_fails, fun f hf => ?_,
    fun e _ => ⟨_, runTaskRequest_toJson e, rfl, rfl⟩⟩
  · obtain ⟨checked, htemplate⟩ := h.templates _ row (Table.find?_of_mem hrow)
    exact ⟨checked, validateRequest_of_templateOf lib.readInt_int htemplate,
      runTaskRequest_fireEvent htemplate⟩
  · obtain ⟨checked, htemplate⟩ := h.published f hf
    exact ⟨_, (runTaskRequest_fireEvent htemplate f.2).trans (runTaskRequest_toJson _), rfl, rfl⟩

/-- `croniter` for `* * * * *` only, a column that gives back what was written, and a conversion
that takes integers only. -/
def plainLibraries : Libraries where
  next := everyMinute
  validCron cron := cron == "* * * * *"
  column := JsonColumn.exact
  readInt
    | .int n => some n
    | _ => none
  readInt_int _ := rfl
  acceptsJob := jobFits

/-- The request of a nightly job. -/
def nightlyRequest : CheckedRequest where
  request :=
    { jobName := "etl", jobType := .sparkEtl, entrypoint := "etl.py", submittedBy := "ops" }
  name_length := by decide
  maxRetries_le := by decide

-- A schedule that was created is triggered.
example :
    let s : Desk Bool := run (deskStep plainLibraries) (Desk.start 0)
      [.create "s-1" 0
        { name := "nightly", cronExpression := "* * * * *", jobTemplate := nightlyRequest },
        .trigger "s-1" "job-1" 5 5 .delivered]
    s.schedules.rows.length = 1 ∧ s.world.jobs.rows.length = 1 := by decide

end DataHarbour.System
