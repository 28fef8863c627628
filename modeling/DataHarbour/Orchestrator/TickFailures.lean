import DataHarbour.Machine.Runs
import DataHarbour.Orchestrator.Scheduler

/-!
# Failures inside a tick

The tick of one scheduler when any of its steps may fail. The publish of a row and its `UPDATE`
have no transaction in common: a failed publish only skips the row, but every other exception
leaves the loop before the single commit, and with it the `UPDATE`s of all rows before.
-/

namespace DataHarbour.Orchestrator

open Python Relational Machine JobService

/-! ## The tick with failures -/

/-- What goes wrong in a `_fire` apart from its publish and its next-run computation. A crash of
the process counts as an exception: either way the transaction is not committed. -/
inductive Fault where
  /-- An exception before the event is published. -/
  | beforePublish
  /-- An exception after the event is published, at the latest from the `UPDATE`. -/
  | afterPublish

/-- A selected row with what the environment does to its `_fire`. -/
structure Fire where
  row : ScheduledJob
  firing : Firing
  fault : Option Fault := none

/-- How a `_fire` ends. -/
inductive FireOutcome where
  /-- The publish failed and the row is left as it is. -/
  | skipped
  /-- An exception leaves the loop. -/
  | raised (published : Bool)
  /-- The event is published and the row updated. -/
  | fired (nextRunAt : Time)
  deriving DecidableEq

/-- `_fire`: the publish, the next-run computation and the `UPDATE`. -/
def Fire.outcome (next : NextRun) (f : Fire) : FireOutcome :=
  match f.fault, f.firing.delivery with
  | some .beforePublish, _ => .raised false
  | _, .failed => .skipped
  | some .afterPublish, .delivered => .raised true
  | none, .delivered =>
    match next f.row.cronExpression f.row.timezone f.firing.hostNow with
    | .error _ => .raised true
    | .ok time => .fired time

/-- The event of the row. -/
def Fire.event (f : Fire) : Json := fireEvent f.row f.firing.jobId

/-- The loop over the selected rows, and whether it came to its end. -/
def fireLoop (next : NextRun) (now : Time) : List Fire → TickState → TickState × Bool
  | [], st => (st, true)
  | f :: rest, st =>
    match f.outcome next with
    | .skipped => fireLoop next now rest st
    | .raised false => (st, false)
    | .raised true => ({ st with published := st.published ++ [f.event] }, false)
    | .fired time =>
      fireLoop next now rest
        ⟨st.schedules.set (f.row.advance now f.firing.jobId time), st.published ++ [f.event]⟩

/-- What the environment does to one tick. -/
structure TickEnvironment where
  /-- `NOW()`. -/
  now : Time
  /-- The lock is acquired and the `SELECT` succeeds. -/
  selects : Bool := true
  firings : ℕ → Firing
  faults : ℕ → Option Fault := fun _ => none
  /-- The `COMMIT` takes effect; it may raise all the same. -/
  commits : Bool := true

/-- The selected rows of a tick. -/
def tickFires (schedules : Table ScheduledJob.scheduleId) (env : TickEnvironment) : List Fire :=
  (dueRows env.now schedules.rows).mapIdx fun k row => ⟨row, env.firings k, env.faults k⟩

/-- `_tick`: the committed table after it, and the events that it has published. The unlock at
its end, successful or not, changes neither. -/
def tickWith (next : NextRun) (schedules : Table ScheduledJob.scheduleId)
    (env : TickEnvironment) : TickState :=
  if env.selects then
    let outcome := fireLoop next env.now (tickFires schedules env) ⟨schedules, []⟩
    ⟨if outcome.2 && env.commits then outcome.1.schedules else schedules, outcome.1.published⟩
  else ⟨schedules, []⟩

/-- Without faults the loop is `fireRows`. -/
theorem fireLoop_of_faultless (next : NextRun) (now : Time)
    (rows : List (ScheduledJob × Firing)) (st : TickState) :
    fireLoop next now (rows.map fun entry => ⟨entry.1, entry.2, none⟩) st =
      ((fireRows next now rows st).1, (fireRows next now rows st).2.isNone) := by
  induction rows generalizing st with
  | nil => rfl
  | cons entry rows ih =>
    obtain ⟨row, firing⟩ := entry
    rw [List.map_cons]
    cases hdelivery : firing.delivery with
    | failed => simp only [fireLoop, Fire.outcome, fireRows, hdelivery, ih]
    | delivered =>
      cases hnext : next row.cronExpression row.timezone firing.hostNow with
      | error e => simp [fireLoop, Fire.outcome, Fire.event, fireRows, hdelivery, hnext]
      | ok time => simp only [fireLoop, Fire.outcome, Fire.event, fireRows, hdelivery, hnext, ih]

/-- Without faults the tick is `tick`. -/
theorem tickWith_of_faultless (next : NextRun) (schedules : Table ScheduledJob.scheduleId)
    (now : Time) (firings : ℕ → Firing) :
    tickWith next schedules { now := now, firings := firings } =
      tick next now schedules firings := by
  have hfires : tickFires schedules { now := now, firings := firings } =
      (tickRows now schedules firings).map fun entry => ⟨entry.1, entry.2, none⟩ := by
    rw [tickFires, tickRows]
    apply List.ext_getElem
    · simp
    · intro n _ _
      simp
  unfold tickWith tick
  rw [hfires]
  simp only [if_true, fireLoop_of_faultless, Bool.and_true]
  cases houtcome : fireRows next now (tickRows now schedules firings) ⟨schedules, []⟩ with
  | mk st failure => cases failure <;> simp

/-! ## What the loop does to one row -/

section Loop

variable {next : NextRun} {now : Time} {f : Fire} {fires : List Fire} {st : TickState}

private theorem delivery_of_fired {time : Time} (h : f.outcome next = .fired time) :
    f.firing.delivery = .delivered := by
  unfold Fire.outcome at h
  split at h
  · cases h
  · cases h
  · cases h
  · next hdelivery => exact hdelivery

private theorem delivery_of_skipped (h : f.outcome next = .skipped) :
    f.firing.delivery = .failed := by
  unfold Fire.outcome at h
  split at h
  · cases h
  · next hdelivery _ => exact hdelivery
  · cases h
  · split at h <;> cases h

/-- The loop takes back no event. -/
theorem mem_published_of_mem {event : Json} (h : event ∈ st.published) :
    event ∈ (fireLoop next now fires st).1.published := by
  induction fires generalizing st with
  | nil => exact h
  | cons f fires ih =>
    unfold fireLoop
    split
    · exact ih h
    · exact h
    · exact List.mem_append_left _ h
    · exact ih (List.mem_append_left _ h)

/-- A row that the loop has changed was fired by it, and the event is published. -/
theorem find?_fireLoop (next : NextRun) (now : Time) (fires : List Fire) (st : TickState)
    (k : String) :
    (fireLoop next now fires st).1.schedules.find? k = st.schedules.find? k ∨
      ∃ f ∈ fires, f.row.scheduleId = k ∧ f.firing.delivery = .delivered ∧
        f.event ∈ (fireLoop next now fires st).1.published ∧
        ∃ time, (fireLoop next now fires st).1.schedules.find? k =
          (st.schedules.find? k).map fun _ => f.row.advance now f.firing.jobId time := by
  induction fires generalizing st with
  | nil => exact .inl rfl
  | cons f fires ih =>
    cases houtcome : f.outcome next with
    | skipped =>
      simp only [fireLoop, houtcome]
      refine (ih st).imp_right ?_
      rintro ⟨g, hg, hrest⟩
      exact ⟨g, List.mem_cons_of_mem f hg, hrest⟩
    | raised published =>
      left
      cases published <;> simp only [fireLoop, houtcome]
    | fired time =>
      let st₁ : TickState := ⟨st.schedules.set (f.row.advance now f.firing.jobId time),
        st.published ++ [f.event]⟩
      have hset : st₁.schedules.find? k = if f.row.scheduleId = k then
          (st.schedules.find? k).map fun _ => f.row.advance now f.firing.jobId time
          else st.schedules.find? k := Table.find?_set k
      simp only [fireLoop, houtcome]
      rcases ih st₁ with hsame | ⟨g, hg, hid, hdelivered, hevent, later, hrow⟩
      · rw [hset] at hsame
        by_cases hk : f.row.scheduleId = k
        · rw [if_pos hk] at hsame
          have hevent : f.event ∈ (fireLoop next now fires st₁).1.published :=
            mem_published_of_mem (List.mem_append_right _ List.mem_cons_self)
          exact .inr ⟨f, List.mem_cons_self, hk, delivery_of_fired houtcome, hevent, time, hsame⟩
        · rw [if_neg hk] at hsame
          exact .inl hsame
      · refine .inr ⟨g, List.mem_cons_of_mem f hg, hid, hdelivered, hevent, later, ?_⟩
        rw [hrow, hset]
        by_cases hk : f.row.scheduleId = k
        · rw [if_pos hk, Option.map_map]
          rfl
        · rw [if_neg hk]

/-- An exception ends the loop, whatever was fired before. -/
theorem not_finished_of_raised {before after : List Fire}
    (hbefore : ∀ x ∈ before, ∀ published, x.outcome next ≠ .raised published)
    (hraised : ∃ published, f.outcome next = .raised published) :
    (fireLoop next now (before ++ f :: after) st).2 = false := by
  induction before generalizing st with
  | nil =>
    obtain ⟨published, houtcome⟩ := hraised
    cases published <;> simp only [List.nil_append, fireLoop, houtcome]
  | cons x before ih =>
    have hrest : ∀ y ∈ before, ∀ published, y.outcome next ≠ .raised published :=
      fun y hy => hbefore y (List.mem_cons_of_mem x hy)
    rw [List.cons_append]
    cases houtcome : x.outcome next with
    | skipped =>
      simp only [fireLoop, houtcome]
      exact ih hrest
    | raised published => exact absurd houtcome (hbefore x List.mem_cons_self published)
    | fired time =>
      simp only [fireLoop, houtcome]
      exact ih hrest

end Loop

private theorem mem_tickFires {schedules : Table ScheduledJob.scheduleId} {env : TickEnvironment}
    {f : Fire} (h : f ∈ tickFires schedules env) :
    ∃ k, (dueRows env.now schedules.rows)[k]? = some f.row ∧ f.firing = env.firings k := by
  obtain ⟨k, hk, rfl⟩ := List.mem_mapIdx.mp h
  exact ⟨k, List.getElem?_eq_getElem hk, rfl⟩

private theorem row_mem_of_mem_tickFires {schedules : Table ScheduledJob.scheduleId}
    {env : TickEnvironment} {f : Fire} (h : f ∈ tickFires schedules env) :
    f.row ∈ dueRows env.now schedules.rows := by
  obtain ⟨k, hk, -⟩ := mem_tickFires h
  exact List.mem_of_getElem? hk

/-! ## A fire is never silently skipped -/

/-- The columns that a fire stamps are the same. -/
def ScheduledJob.SameStamps (row row' : ScheduledJob) : Prop :=
  row'.nextRunAt = row.nextRunAt ∧ row'.lastRunAt = row.lastRunAt ∧
    row'.lastRunJobId = row.lastRunJobId

/-- The tick has selected the row as due and published an event for it with the `job_id` that
`row'` has as its `last_run_job_id`. -/
def FiredIn (schedules : Table ScheduledJob.scheduleId) (env : TickEnvironment)
    (published : List Json) (row row' : ScheduledJob) : Prop :=
  row ∈ dueRows env.now schedules.rows ∧ row.enabled = true ∧ row.nextRunAt ≤ env.now ∧
    ∃ event ∈ published, event.getItem "schedule_id" = .ok (.str row.scheduleId) ∧
      ∃ jobId, eventJobId event = some jobId ∧ row'.lastRunJobId = some jobId

/-- What a tick owes to the stored schedules: a row with new stamps was fired in this tick, and a
row whose publish failed is unchanged and stays due. -/
structure SkipsNothing (schedules : Table ScheduledJob.scheduleId) (env : TickEnvironment)
    (after : TickState) : Prop where
  stamped : ∀ row ∈ schedules.rows, ∃ row', after.schedules.find? row.scheduleId = some row' ∧
    (row.SameStamps row' ∨ FiredIn schedules env after.published row row')
  unpublished : ∀ k row, (dueRows env.now schedules.rows)[k]? = some row →
    (env.firings k).delivery = .failed → after.schedules.find? row.scheduleId = some row ∧
      ∀ later, env.now ≤ later → row.due later = true

/-- The committed row after a tick: as before, or fired. -/
theorem find?_tickWith (next : NextRun) (schedules : Table ScheduledJob.scheduleId)
    (env : TickEnvironment) {row : ScheduledJob} (hrow : row ∈ schedules.rows) :
    (tickWith next schedules env).schedules.find? row.scheduleId = some row ∨
      ∃ f ∈ tickFires schedules env, f.row = row ∧ f.firing.delivery = .delivered ∧
        f.event ∈ (tickWith next schedules env).published ∧
        ∃ time, (tickWith next schedules env).schedules.find? row.scheduleId =
          some (row.advance env.now f.firing.jobId time) := by
  have hfind : schedules.find? row.scheduleId = some row := Table.find?_of_mem hrow
  unfold tickWith
  split
  · simp only
    split
    · rcases find?_fireLoop next env.now (tickFires schedules env) ⟨schedules, []⟩ row.scheduleId
        with hsame | ⟨f, hf, hid, hdelivered, hevent, time, hadvanced⟩
      · exact .inl (hsame.trans hfind)
      · have hmem := (mem_dueRows (row_mem_of_mem_tickFires hf)).1
        have hsame : f.row = row := by
          have hboth := Table.find?_of_mem hmem
          rw [hid, hfind] at hboth
          exact (Option.some.inj hboth).symm
        refine .inr ⟨f, hf, hsame, hdelivered, hevent, time, ?_⟩
        rw [hadvanced, ← hsame]
        simp only [hsame, hfind, Option.map_some]
    · exact .inl hfind
  · exact .inl hfind

private theorem due_mono {row : ScheduledJob} {now later : Time} (h : row.due now = true)
    (hle : now ≤ later) : row.due later = true := by
  simp only [ScheduledJob.due, Bool.and_eq_true, decide_eq_true_eq] at h ⊢
  exact ⟨h.1, h.2.trans hle⟩

private theorem skipsNothing_tickWith (next : NextRun) (schedules : Table ScheduledJob.scheduleId)
    (env : TickEnvironment) : SkipsNothing schedules env (tickWith next schedules env) where
  stamped row hrow := by
    rcases find?_tickWith next schedules env hrow with
      hsame | ⟨f, hf, rfl, -, hevent, time, hadvanced⟩
    · exact ⟨row, hsame, .inl ⟨rfl, rfl, rfl⟩⟩
    · have hselected := row_mem_of_mem_tickFires hf
      have hdue := (mem_dueRows hselected).2
      simp only [ScheduledJob.due, Bool.and_eq_true, decide_eq_true_eq] at hdue
      refine ⟨_, hadvanced, .inr ⟨hselected, hdue.1, hdue.2, f.event, hevent, ?_⟩⟩
      exact ⟨scheduleId_fireEvent f.row f.firing.jobId, f.firing.jobId,
        eventJobId_fireEvent f.row f.firing.jobId, rfl⟩
  unpublished k row hget hfailed := by
    obtain ⟨hrow, hdue⟩ := mem_dueRows (List.mem_of_getElem? hget)
    refine ⟨?_, fun later hlater => due_mono hdue hlater⟩
    rcases find?_tickWith next schedules env hrow with hsame | ⟨f, hf, rfl, hdelivered, -⟩
    · exact hsame
    · -- the row was selected once, so the publish that succeeded is the one that failed
      obtain ⟨n, hn, hfiring⟩ := mem_tickFires hf
      have hnodup : (dueRows env.now schedules.rows).Nodup :=
        (nodup_dueRows schedules.nodup).of_map _
      have hindex : n = k := by
        obtain ⟨hlt, -⟩ := List.getElem?_eq_some_iff.mp hn
        exact (List.getElem?_inj hlt hnodup).mp (hn.trans hget.symm)
      rw [hfiring, hindex, hfailed] at hdelivered
      cases hdelivered

/-- A tick as a step on the committed table. -/
def scheduleStep (next : NextRun) (schedules : Table ScheduledJob.scheduleId)
    (env : TickEnvironment) : Table ScheduledJob.scheduleId :=
  (tickWith next schedules env).schedules

/-- **No fire is silently skipped.** In every run of ticks, whatever fails in them, each tick
stamps only rows that it has selected as due and published with the stamped `job_id`, and leaves
a row whose publish failed unchanged and due. -/
theorem ticks_skip_nothing (next : NextRun) (schedules : Table ScheduledJob.scheduleId)
    (environments : List TickEnvironment) :
    Along (scheduleStep next) (fun t env => SkipsNothing t env (tickWith next t env)) schedules
      environments := by
  induction environments generalizing schedules with
  | nil => trivial
  | cons env environments ih => exact ⟨skipsNothing_tickWith next schedules env, ih _⟩

/-! ## Does a failing schedule fire the others again? -/

/-- The fire of `x` is committed with the next run `time`, and no later tick selects the schedule
for its old due value. -/
structure Kept (x : Fire) (time : Time) (after : Table ScheduledJob.scheduleId) : Prop where
  advanced : ∃ row, after.find? x.row.scheduleId = some row ∧ row.nextRunAt = time ∧
    row.nextRunAt ≠ x.row.nextRunAt
  not_again : ∀ now, ∀ row ∈ dueRows now after.rows, row.scheduleId = x.row.scheduleId →
    row.nextRunAt ≠ x.row.nextRunAt

/-- If the `_fire` of a row raises, all rows that the tick has fired before are kept. -/
def KeepsEarlier (next : NextRun) (schedules : Table ScheduledJob.scheduleId)
    (env : TickEnvironment) : Prop :=
  env.selects = true → ∀ before f after, tickFires schedules env = before ++ f :: after →
    (∀ x ∈ before, ∀ published, x.outcome next ≠ .raised published) →
    (∃ published, f.outcome next = .raised published) →
    ∀ x ∈ before, ∀ time, x.outcome next = .fired time →
      Kept x time (tickWith next schedules env).schedules

/-- If the `_fire` of a row raises, the publishes of all rows before it have failed. -/
def NothingBefore (next : NextRun) (schedules : Table ScheduledJob.scheduleId)
    (env : TickEnvironment) : Prop :=
  env.selects = true → ∀ before f after, tickFires schedules env = before ++ f :: after →
    (∀ x ∈ before, ∀ published, x.outcome next ≠ .raised published) →
    (∃ published, f.outcome next = .raised published) →
    ∀ x ∈ before, x.firing.delivery = .failed

/-- A tick that an exception has left commits nothing. -/
theorem schedules_tickWith_of_raised {next : NextRun} {schedules : Table ScheduledJob.scheduleId}
    {env : TickEnvironment} {before after : List Fire} {f : Fire}
    (hfires : tickFires schedules env = before ++ f :: after)
    (hbefore : ∀ x ∈ before, ∀ published, x.outcome next ≠ .raised published)
    (hraised : ∃ published, f.outcome next = .raised published) :
    (tickWith next schedules env).schedules = schedules := by
  unfold tickWith
  split
  · simp [hfires, not_finished_of_raised hbefore hraised]
  · rfl

/-- **When one failing schedule does not fire the others again.** A row that raises leaves the
earlier fires of its tick committed if and only if there are none. -/
theorem keepsEarlier_iff (next : NextRun) (schedules : Table ScheduledJob.scheduleId)
    (env : TickEnvironment) :
    KeepsEarlier next schedules env ↔ NothingBefore next schedules env := by
  constructor
  · intro h hselects before f after hfires hbefore hraised x hx
    have hrow : x.row ∈ schedules.rows := by
      have hmem : x ∈ tickFires schedules env := hfires ▸ List.mem_append_left _ hx
      exact (mem_dueRows (row_mem_of_mem_tickFires hmem)).1
    cases houtcome : x.outcome next with
    | skipped => exact delivery_of_skipped houtcome
    | raised published => exact absurd houtcome (hbefore x hx published)
    | fired time =>
      obtain ⟨row, hfind, -, hne⟩ :=
        (h hselects before f after hfires hbefore hraised x hx time houtcome).advanced
      rw [schedules_tickWith_of_raised hfires hbefore hraised, Table.find?_of_mem hrow] at hfind
      obtain rfl := Option.some.inj hfind
      exact absurd rfl hne
  · intro h hselects before f after hfires hbefore hraised x hx time houtcome
    have hfailed := h hselects before f after hfires hbefore hraised x hx
    rw [delivery_of_fired houtcome] at hfailed
    cases hfailed

/-- `croniter` for the two schedules of `schedulesWithBadCron`, with times in seconds. -/
def nextOfBadCron : NextRun := fun cron _ now =>
  if cron = "* * * * *" then .ok ((now / 60 + 1) * 60)
  else .error (.valueError "Exactly 5, 6 or 7 columns has to be specified for iterator expression.")

/-- Two due schedules, the later one with a cron expression that `croniter` refuses. -/
def schedulesWithBadCron : Table ScheduledJob.scheduleId where
  rows := [
    { scheduleId := "s-1", name := "report", cronExpression := "* * * * *", jobTemplate := [],
      nextRunAt := 60 },
    { scheduleId := "s-2", name := "cleanup", cronExpression := "daily", jobTemplate := [],
      nextRunAt := 61 }]
  nodup := by decide

/-- The first schedule is published and updated, the second one raises, and the first one stays
due at the instant for which it was published. -/
theorem earlier_schedule_fires_again : ¬ KeepsEarlier nextOfBadCron schedulesWithBadCron
    { now := 70, firings := fun _ => { jobId := "job-1", hostNow := 70 } } := by
  intro h
  let first : Fire := {
    row := { scheduleId := "s-1", name := "report", cronExpression := "* * * * *",
             jobTemplate := [], nextRunAt := 60 }
    firing := { jobId := "job-1", hostNow := 70 } }
  have hfired : first.outcome nextOfBadCron = .fired 120 := by decide
  have hkept := h rfl [first] _ [] rfl ?_ ⟨true, rfl⟩ first List.mem_cons_self 120 hfired
  · exact hkept.not_again 100 first.row (List.mem_of_getElem? (i := 0) rfl) rfl rfl
  · intro x hx published
    rw [List.mem_singleton.mp hx, hfired]
    simp

end DataHarbour.Orchestrator
