import DataHarbour.Orchestrator.ReplicaSafety

/-!
# Schedule updates and ticks

`update_schedule` of the job service and the scheduler's tick write `next_run_at` of the same
rows. An `update_schedule` that changes a column never commits: `updated_at` has an `onupdate` of
the database, so the flush leaves it expired, and the response cannot read it without another
query. The request fails and is rolled back. What is committed is what the ticks write, from an
expression that stays as it is.
-/

namespace DataHarbour.System

open Python Relational Machine JobService Orchestrator

/-! ## `update_schedule` -/

/-- `ScheduleUpdateRequest`; the template is the dumped one. -/
structure ScheduleUpdateRequest where
  cronExpression : Option String := none
  timezone : Option String := none
  jobTemplate : Option Dict := none
  enabled : Option Bool := none

/-- The record as the handler leaves it: a change of the cron expression or the timezone brings
a new next run. -/
def updatedSchedule (next : NextRun) (now : Time) (row : ScheduledJob)
    (request : ScheduleUpdateRequest) : Except Exc ScheduledJob := do
  let record : ScheduledJob := { row with
    cronExpression := request.cronExpression.getD row.cronExpression
    timezone := request.timezone.getD row.timezone
    jobTemplate := request.jobTemplate.getD row.jobTemplate
    enabled := request.enabled.getD row.enabled }
  if request.cronExpression.isSome || request.timezone.isSome then
    let time ← next record.cronExpression record.timezone now
    return { record with nextRunAt := time }
  else
    return record

/-- The template of the record equals the one that was read. -/
def sameTemplate (row record : ScheduledJob) : Bool :=
  (Json.obj record.jobTemplate).pyEq (.obj row.jobTemplate)

/-- The flush has nothing to write. -/
def Unchanged (row record : ScheduledJob) : Prop :=
  record.cronExpression = row.cronExpression ∧ record.timezone = row.timezone ∧
    record.nextRunAt = row.nextRunAt ∧ sameTemplate row record = true ∧
    record.enabled = row.enabled

instance (row record : ScheduledJob) : Decidable (Unchanged row record) :=
  inferInstanceAs (Decidable (_ ∧ _ ∧ _ ∧ _ ∧ _))

/-! ## Interleavings -/

/-- How far a transaction of `update_schedule` has come. -/
inductive PatchPhase where
  | idle
  | loaded (row : ScheduledJob) (request : ScheduleUpdateRequest)
  | modified (row record : ScheduledJob)
  /-- The `UPDATE`, if there is one, is executed and holds the row lock. -/
  | flushed (row record : ScheduledJob)
  | committed
  /-- The next-run computation or the response has raised. -/
  | rolledBack

/-- The scheduler replicas with the committed rows, and the transactions of the job service. -/
structure Scheduling (ι τ : Type*) where
  cluster : Cluster ι
  patch : τ → PatchPhase := fun _ => .idle
  /-- The transaction of the job service that holds the lock of a row. -/
  rowLock : String → Option τ := fun _ => none

/-- A step of the scheduler or of one transaction. -/
inductive SchedulingStep (ι τ : Type*) where
  | tick (a : ClusterStep ι)
  | load (t : τ) (scheduleId : String) (request : ScheduleUpdateRequest)
  | modify (t : τ)
  | flush (t : τ)
  /-- The response is built, and the transaction ends. -/
  | respond (t : τ)

variable {ι τ : Type*}

/-- The transaction of a tick holds the lock of the row. -/
def lockedByTick (s : Cluster ι) (scheduleId : String) : Bool :=
  match s.lease with
  | some i => decide (scheduleId ∈ (s.phase i).updates.map Advance.scheduleId)
  | none => false

/-- Nobody holds the lock of the row. -/
def Scheduling.RowFree (s : Scheduling ι τ) (scheduleId : String) : Prop :=
  s.rowLock scheduleId = none ∧ lockedByTick s.cluster scheduleId = false

section Steps

variable [DecidableEq ι] [DecidableEq τ]

instance (s : Scheduling ι τ) (scheduleId : String) : Decidable (s.RowFree scheduleId) :=
  inferInstanceAs (Decidable (_ ∧ _))

/-- A transaction moves on. -/
def Scheduling.enter (s : Scheduling ι τ) (t : τ) (phase : PatchPhase) : Scheduling ι τ :=
  { s with patch := Function.update s.patch t phase }

/-- The row locks after the end of a transaction. -/
def Scheduling.release (s : Scheduling ι τ) (t : τ) (scheduleId : String) : Option τ :=
  if s.rowLock scheduleId = some t then none else s.rowLock scheduleId

/-- The state after a step; a step that is not enabled changes nothing. An `UPDATE` waits while
another transaction holds the lock of its row. -/
def schedulingStep (next : NextRun) (s : Scheduling ι τ) : SchedulingStep ι τ → Scheduling ι τ
  | .tick (.update i) =>
    match s.cluster.phase i with
    | .advancing _ row _ _ _ =>
      if s.rowLock row.scheduleId = none then
        { s with cluster := clusterStep next s.cluster (.update i) }
      else s
    | _ => s
  | .tick a => { s with cluster := clusterStep next s.cluster a }
  | .load t scheduleId request =>
    match s.patch t, s.cluster.schedules.find? scheduleId with
    | .idle, some row => s.enter t (.loaded row request)
    | _, _ => s
  | .modify t =>
    match s.patch t with
    | .loaded row request =>
      match updatedSchedule next s.cluster.clock row request with
      | .ok record => s.enter t (.modified row record)
      | .error _ => s.enter t .rolledBack
    | _ => s
  | .flush t =>
    match s.patch t with
    | .modified row record =>
      if Unchanged row record then s.enter t (.flushed row record)
      else if s.RowFree row.scheduleId then
        { s with rowLock := Function.update s.rowLock row.scheduleId (some t) }.enter t
          (.flushed row record)
      else s
    | _ => s
  | .respond t =>
    match s.patch t with
    | .flushed row record =>
      -- after an `UPDATE` the response cannot read `updated_at`
      { s with rowLock := s.release t }.enter t
        (if Unchanged row record then .committed else .rolledBack)
    | _ => s

end Steps

/-! ## What is stored, and what is to be written -/

/-- The next run is an occurrence of the row's expression in the row's timezone. -/
def OnSchedule (occurs : String → String → Time → Prop) (row : ScheduledJob) : Prop :=
  occurs row.cronExpression row.timezone row.nextRunAt

/-- Every committed row is on its schedule. -/
def Scheduling.OnSchedule (occurs : String → String → Time → Prop) (s : Scheduling ι τ) : Prop :=
  ∀ row ∈ s.cluster.schedules.rows, System.OnSchedule occurs row

/-- The committed row with the id, if there is one, has the expression and the timezone. -/
def Times (schedules : Table ScheduledJob.scheduleId)
    (scheduleId cronExpression timezone : String) : Prop :=
  ∀ row, schedules.find? scheduleId = some row →
    row.cronExpression = cronExpression ∧ row.timezone = timezone

/-- The committed rows are on schedule, and the ticks work on rows as they are committed, so that
the rows will be on schedule after the commits to come. -/
structure OnTime (occurs : String → String → Time → Prop) (s : Cluster ι) : Prop where
  stored : ∀ k row, s.schedules.find? k = some row → OnSchedule occurs row
  selected : ∀ i, ∀ row ∈ (s.phase i).selected,
    Times s.schedules row.scheduleId row.cronExpression row.timezone
  updates : ∀ i, ∀ u ∈ (s.phase i).updates, ∃ cronExpression timezone,
    Times s.schedules u.scheduleId cronExpression timezone ∧
      occurs cronExpression timezone u.next

variable {occurs : String → String → Time → Prop}

/-! ## Ticks -/

section Ticks

variable [DecidableEq ι] {next : NextRun} {s : Cluster ι}

/-- The `UPDATE`s of a tick leave expressions and timezones alone. -/
theorem Times.foldl_apply {now : Time} {updates : List Advance}
    {schedules : Table ScheduledJob.scheduleId} {scheduleId cronExpression timezone : String}
    (h : Times schedules scheduleId cronExpression timezone) :
    Times (updates.foldl (Advance.apply now) schedules) scheduleId cronExpression timezone := by
  intro row hrow
  exact forall_foldl_apply (P := fun k row => k = scheduleId →
      row.cronExpression = cronExpression ∧ row.timezone = timezone)
    (fun k row hfind hk => h row (hk ▸ hfind)) (fun _ _ _ hold => hold) hrow rfl

/-- The rows are on schedule after the `UPDATE`s if each of these brings an occurrence. -/
theorem onSchedule_foldl_apply {now : Time} {updates : List Advance}
    {schedules : Table ScheduledJob.scheduleId}
    (hstored : ∀ k row, schedules.find? k = some row → OnSchedule occurs row)
    (hupdates : ∀ u ∈ updates, ∃ cronExpression timezone,
      Times schedules u.scheduleId cronExpression timezone ∧
        occurs cronExpression timezone u.next)
    {k : String} {row : ScheduledJob}
    (hrow : (updates.foldl (Advance.apply now) schedules).find? k = some row) :
    OnSchedule occurs row := by
  rcases find?_foldl_apply hrow with ⟨u, hu, rfl, hnext⟩ | ⟨-, hold⟩
  · obtain ⟨cronExpression, timezone, htimes, hoccurs⟩ := hupdates u hu
    obtain ⟨hcron, htimezone⟩ := htimes.foldl_apply row hrow
    rw [OnSchedule, hcron, htimezone, hnext]
    exact hoccurs
  · exact hstored k row hold

/-- A replica moves on, and the table stays as it is. -/
theorem OnTime.enter (h : OnTime occurs s) {t : Cluster ι} {i : ι} {phase : TickPhase}
    (hphase : t.phase = s.phase) (hschedules : t.schedules = s.schedules)
    (hselected : ∀ row ∈ phase.selected,
      Times s.schedules row.scheduleId row.cronExpression row.timezone)
    (hupdates : ∀ u ∈ phase.updates, ∃ cronExpression timezone,
      Times s.schedules u.scheduleId cronExpression timezone ∧
        occurs cronExpression timezone u.next) : OnTime occurs (t.enter i phase) := by
  have htable : (t.enter i phase).schedules = s.schedules := hschedules
  refine ⟨htable ▸ h.stored, fun k => ?_, fun k => ?_⟩ <;> rw [htable]
  · by_cases hk : k = i
    · rw [hk, enter_phase_self]
      exact hselected
    · rw [enter_phase_of_ne hk, hphase]
      exact h.selected k
  · by_cases hk : k = i
    · rw [hk, enter_phase_self]
      exact hupdates
    · rw [enter_phase_of_ne hk, hphase]
      exact h.updates k

/-- **One step of a replica.** -/
theorem OnTime.moves (hnext : ∀ cron timezone base time, next cron timezone base = .ok time →
    occurs cron timezone time) (h : OnTime occurs s) {t : Cluster ι} (hmoves : Moves next s t) :
    OnTime occurs t := by
  have hnone : ∀ u ∈ ([] : List Advance), ∃ cronExpression timezone,
      Times s.schedules u.scheduleId cronExpression timezone ∧
        occurs cronExpression timezone u.next := by simp
  have hnoRow : ∀ row ∈ ([] : List ScheduledJob),
      Times s.schedules row.scheduleId row.cronExpression row.timezone := by simp
  cases hmoves with
  | stay => exact h
  | elapse duration => exact ⟨h.stored, h.selected, h.updates⟩
  | acquire _ _ _ => exact h.enter rfl rfl hnoRow hnone
  | select scan _ =>
    refine h.enter rfl rfl (fun row hrow current hcurrent => ?_) hnone
    -- a selected row is the committed one
    have hmem := (scan.perm _).mem_iff.mp (mem_dueRows hrow).1
    obtain rfl := Option.some.inj (hcurrent.symm.trans (Table.find?_of_mem hmem))
    exact ⟨rfl, rfl⟩
  | @skip i _ row _ _ hphase =>
    have hselected := h.selected i
    have hupdates := h.updates i
    rw [hphase] at hselected hupdates
    exact h.enter rfl rfl (fun other hother => hselected other (List.mem_cons_of_mem row hother))
      hupdates
  | @publish i _ row _ _ _ hphase =>
    have hselected := h.selected i
    have hupdates := h.updates i
    rw [hphase] at hselected hupdates
    exact h.enter rfl rfl hselected hupdates
  | @update i _ row _ _ _ time hphase htime =>
    have hselected := h.selected i
    have hupdates := h.updates i
    rw [hphase] at hselected hupdates
    refine h.enter rfl rfl
      (fun other hother => hselected other (List.mem_cons_of_mem row hother)) fun u hu => ?_
    rcases List.mem_append.mp hu with hold | hnew
    · exact hupdates u hold
    · obtain rfl := List.mem_singleton.mp hnew
      exact ⟨row.cronExpression, row.timezone, hselected row List.mem_cons_self,
        hnext _ _ _ _ htime⟩
  | raise _ _ => exact h.enter rfl rfl hnoRow hnone
  | @commit i now updates hphase =>
    have hpending := h.updates i
    rw [hphase] at hpending
    have hcommitted : OnTime occurs
        { s with schedules := updates.foldl (Advance.apply now) s.schedules } := by
      refine ⟨fun k row hrow => onSchedule_foldl_apply h.stored hpending hrow,
        fun k row hrow => (h.selected k row hrow).foldl_apply, fun k u hu => ?_⟩
      obtain ⟨cronExpression, timezone, htimes, hoccurs⟩ := h.updates k u hu
      exact ⟨cronExpression, timezone, htimes.foldl_apply, hoccurs⟩
    exact hcommitted.enter rfl rfl (by simp [TickPhase.selected]) (by simp [TickPhase.updates])
  | unlock _ => exact h.enter rfl rfl hnoRow hnone

end Ticks

/-! ## Runs -/

section Runs

variable [DecidableEq ι] [DecidableEq τ]

/-- Only the steps of a replica reach the committed rows. -/
theorem cluster_schedulingStep (next : NextRun) (s : Scheduling ι τ) (a : SchedulingStep ι τ) :
    Moves next s.cluster (schedulingStep next s a).cluster := by
  cases a with
  | tick a =>
    have hmoves := moves_clusterStep next s.cluster a
    cases a with
    | update i =>
      simp only [schedulingStep]
      split
      · split
        · exact hmoves
        · exact .stay
      · exact .stay
    | _ => exact hmoves
  | load t scheduleId request =>
    simp only [schedulingStep]
    split <;> exact .stay
  | modify t =>
    simp only [schedulingStep]
    split
    · split <;> exact .stay
    · exact .stay
  | flush t =>
    simp only [schedulingStep]
    split
    · split
      · exact .stay
      · split <;> exact .stay
    · exact .stay
  | respond t =>
    simp only [schedulingStep]
    split <;> exact .stay

/-- No tick and no transaction has begun. -/
def Scheduling.start (schedules : Table ScheduledJob.scheduleId) (clock : Time) :
    Scheduling ι τ :=
  { cluster := Cluster.start schedules clock }

/-- **The next run belongs to the stored cron expression.** In every interleaving of the ticks of
any number of replicas with any `update_schedule` transactions, every committed row is on its
schedule at all times. -/
theorem scheduling_on_schedule {next : NextRun} {schedules : Table ScheduledJob.scheduleId}
    (hnext : ∀ cron timezone base time, next cron timezone base = .ok time →
      occurs cron timezone time)
    (hstored : ∀ row ∈ schedules.rows, OnSchedule occurs row) (clock : Time)
    (steps : List (SchedulingStep ι τ)) :
    Always (schedulingStep next) (Scheduling.OnSchedule occurs)
      (Scheduling.start schedules clock) steps := by
  have hinvariant : Invariant (schedulingStep (ι := ι) (τ := τ) next)
      fun s => OnTime occurs s.cluster :=
    fun s a h => h.moves hnext (cluster_schedulingStep next s a)
  have hstart : OnTime occurs (Scheduling.start schedules clock : Scheduling ι τ).cluster :=
    ⟨fun k row hrow => hstored row (Table.mem_of_find? hrow),
      fun _ _ hrow => absurd hrow List.not_mem_nil, fun _ _ hu => absurd hu List.not_mem_nil⟩
  rintro before rest rfl row hrow
  have hontime := hinvariant.run hstart before
  exact hontime.stored row.scheduleId row (Table.find?_of_mem hrow)

end Runs

/-! ## A change of the expression during a tick -/

/-- `croniter` for the expressions `* * * * *` and `0 0 * * *`, with times in seconds. -/
def minuteOrDay : NextRun := fun cron _ base =>
  .ok (if cron = "* * * * *" then (base / 60 + 1) * 60 else (base / 86400 + 1) * 86400)

/-- The occurrences of the two expressions. -/
def MinuteOrDay (cron _timezone : String) (time : Time) : Prop :=
  if cron = "* * * * *" then 60 ∣ time else 86400 ∣ time

private theorem minuteOrDay_occurs (cron timezone : String) (base time : Time)
    (h : minuteOrDay cron timezone base = .ok time) : MinuteOrDay cron timezone time := by
  obtain rfl := Except.ok.inj h
  unfold MinuteOrDay
  split
  · exact Nat.dvd_mul_left 60 _
  · exact Nat.dvd_mul_left 86400 _

/-- A row that is due every minute. -/
def everyMinuteSchedule : Table ScheduledJob.scheduleId where
  rows := [{
    scheduleId := "s-1", name := "report", cronExpression := "* * * * *", jobTemplate := []
    nextRunAt := 60 }]
  nodup := List.nodup_singleton _

/-- The first steps of a tick, up to its `SELECT`. -/
def beginTick : List (SchedulingStep Unit Unit) :=
  [.tick (.tryLock () 70), .tick (.select () ⟨id, fun rows => List.Perm.refl rows⟩)]

/-- The rest of the tick. -/
def finishTick : List (SchedulingStep Unit Unit) :=
  [.tick (.publish () "job-1" .delivered), .tick (.update ()), .tick (.commit ()),
    .tick (.unlock ())]

/-- The schedule is changed to once a day. -/
def changeToDaily : List (SchedulingStep Unit Unit) :=
  [.load () "s-1" { cronExpression := some "0 0 * * *" }, .modify (), .flush (), .respond ()]

/-- A change between the `SELECT` of the tick and its `UPDATE` is rolled back. -/
theorem scheduling_on_schedule_change_during_tick :
    Always (schedulingStep minuteOrDay) (Scheduling.OnSchedule MinuteOrDay)
      (Scheduling.start everyMinuteSchedule 70) (beginTick ++ changeToDaily ++ finishTick) := by
  refine scheduling_on_schedule minuteOrDay_occurs ?_ 70 _
  intro row hrow
  obtain rfl := List.mem_singleton.mp hrow
  exact ⟨1, rfl⟩

-- The change is gone, and the tick has moved the row on by a minute.
example :
    let s := run (schedulingStep minuteOrDay) (Scheduling.start everyMinuteSchedule 70)
      (beginTick ++ changeToDaily ++ finishTick)
    s.cluster.schedules.rows.map ScheduledJob.cronExpression = ["* * * * *"] ∧
      s.cluster.schedules.rows.map ScheduledJob.nextRunAt = [120] := by decide

end DataHarbour.System
