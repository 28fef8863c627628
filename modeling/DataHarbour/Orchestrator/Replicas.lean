import DataHarbour.Machine.Runs
import DataHarbour.Orchestrator.Scheduler

/-!
# Scheduler replicas

Every orchestrator replica runs the scheduler's tick against the same table. A tick takes the
advisory lock, selects the due rows, publishes and updates row by row, commits and unlocks; the
steps of the replicas interleave freely.
-/

namespace DataHarbour.Orchestrator

open Python Relational Machine JobService

/-- The parameters of the `UPDATE` in `_fire`. -/
structure Advance where
  scheduleId : String
  jobId : JobId
  next : Time

/-- The `UPDATE` in `_fire`, with `now` for `NOW()`. -/
def Advance.apply (now : Time) (schedules : Table ScheduledJob.scheduleId) (u : Advance) :
    Table ScheduledJob.scheduleId :=
  match schedules.find? u.scheduleId with
  | some row => schedules.set (row.advance now u.jobId u.next)
  | none => schedules

/-- How far the tick of a replica has come. `now` is `NOW()`, the start of its transaction. -/
inductive TickPhase where
  /-- Between two ticks. -/
  | idle
  /-- The lock is acquired. -/
  | leased (now : Time)
  /-- In the loop: `rows` are still to be fired, `updates` are not committed yet. -/
  | firing (now : Time) (rows : List ScheduledJob) (updates : List Advance)
  /-- The event for `row` is published. -/
  | advancing (now : Time) (row : ScheduledJob) (jobId : JobId) (rows : List ScheduledJob)
    (updates : List Advance)
  /-- The transaction is committed or will be rolled back; only the unlock is left. -/
  | ended

/-- The replicas, the state that they share, and a record of the publishes. -/
structure Cluster (ι : Type*) where
  /-- The committed rows of `scheduled_jobs`. -/
  schedules : Table ScheduledJob.scheduleId
  /-- The replica whose connection holds the advisory lock. -/
  lease : Option ι := none
  /-- The one clock of the hosts and the database. -/
  clock : Time := 0
  phase : ι → TickPhase := fun _ => .idle
  /-- The published events: the row that was fired and the drawn id. -/
  published : List (ScheduledJob × JobId) := []

/-- An order in which a scan may find the rows of a table; it decides between rows that are due
at the same instant. -/
structure Scan where
  order : List ScheduledJob → List ScheduledJob
  perm : ∀ rows, (order rows).Perm rows

/-- A step of the clock or of one replica. -/
inductive ClusterStep (ι : Type*) where
  | elapse (duration : ℕ)
  /-- `pg_try_advisory_lock`, in a transaction that began at `now`. -/
  | tryLock (i : ι) (now : Time)
  | select (i : ι) (scan : Scan)
  /-- `send_and_wait` for the next row. -/
  | publish (i : ι) (jobId : JobId) (delivery : Delivery)
  /-- The next-run computation and the `UPDATE`. -/
  | update (i : ι)
  | commit (i : ι)
  | unlock (i : ι)

variable {ι : Type*}

section Steps

variable [DecidableEq ι]

/-- A replica moves on to another phase of its tick. -/
def Cluster.enter (s : Cluster ι) (i : ι) (phase : TickPhase) : Cluster ι :=
  { s with phase := Function.update s.phase i phase }

/-- A replica is in the phase it enters. -/
@[simp] theorem enter_phase_self (s : Cluster ι) (i : ι) (phase : TickPhase) :
    (s.enter i phase).phase i = phase := by
  simp [Cluster.enter]

/-- Entering a phase leaves the other replicas' phases. -/
theorem enter_phase_of_ne {i k : ι} (h : k ≠ i) (s : Cluster ι) (phase : TickPhase) :
    (s.enter i phase).phase k = s.phase k := by
  simp [Cluster.enter, h]

/-- The state after a step; a step that is not enabled changes nothing. A next-run computation
that raises ends the tick without a commit. The host reads the same clock as the database. -/
def clusterStep (next : NextRun) (s : Cluster ι) : ClusterStep ι → Cluster ι
  | .elapse duration => { s with clock := s.clock + duration }
  | .tryLock i now =>
    match s.phase i, s.lease with
    | .idle, none =>
      if now ≤ s.clock then { s with lease := some i }.enter i (.leased now) else s
    | _, _ => s
  | .select i scan =>
    match s.phase i with
    | .leased now => s.enter i (.firing now (dueRows now (scan.order s.schedules.rows)) [])
    | _ => s
  | .publish i jobId delivery =>
    match s.phase i with
    | .firing now (row :: rows) updates =>
      match delivery with
      | .failed => s.enter i (.firing now rows updates)
      | .delivered =>
        { s with published := s.published ++ [(row, jobId)] }.enter i
          (.advancing now row jobId rows updates)
    | _ => s
  | .update i =>
    match s.phase i with
    | .advancing now row jobId rows updates =>
      match next row.cronExpression row.timezone s.clock with
      | .ok time => s.enter i (.firing now rows (updates ++ [⟨row.scheduleId, jobId, time⟩]))
      | .error _ => s.enter i .ended
    | _ => s
  | .commit i =>
    match s.phase i with
    | .firing now [] updates =>
      { s with schedules := updates.foldl (Advance.apply now) s.schedules }.enter i .ended
    | _ => s
  | .unlock i =>
    match s.phase i with
    | .ended => { s with lease := if s.lease = some i then none else s.lease }.enter i .idle
    | _ => s

/-- What a step can do. -/
inductive Moves (next : NextRun) (s : Cluster ι) : Cluster ι → Prop
  | stay : Moves next s s
  | elapse (duration : ℕ) : Moves next s { s with clock := s.clock + duration }
  | acquire {i : ι} {now : Time} (hidle : s.phase i = .idle) (hfree : s.lease = none)
    (hnow : now ≤ s.clock) : Moves next s ({ s with lease := some i }.enter i (.leased now))
  | select {i : ι} {now : Time} (scan : Scan) (hphase : s.phase i = .leased now) :
    Moves next s (s.enter i (.firing now (dueRows now (scan.order s.schedules.rows)) []))
  | skip {i : ι} {now : Time} {row : ScheduledJob} {rows : List ScheduledJob}
    {updates : List Advance} (hphase : s.phase i = .firing now (row :: rows) updates) :
    Moves next s (s.enter i (.firing now rows updates))
  | publish {i : ι} {now : Time} {row : ScheduledJob} {rows : List ScheduledJob}
    {updates : List Advance} (jobId : JobId)
    (hphase : s.phase i = .firing now (row :: rows) updates) :
    Moves next s ({ s with published := s.published ++ [(row, jobId)] }.enter i
      (.advancing now row jobId rows updates))
  | update {i : ι} {now : Time} {row : ScheduledJob} {jobId : JobId} {rows : List ScheduledJob}
    {updates : List Advance} {time : Time}
    (hphase : s.phase i = .advancing now row jobId rows updates)
    (hnext : next row.cronExpression row.timezone s.clock = .ok time) :
    Moves next s (s.enter i (.firing now rows (updates ++ [⟨row.scheduleId, jobId, time⟩])))
  | raise {i : ι} {now : Time} {row : ScheduledJob} {jobId : JobId} {rows : List ScheduledJob}
    {updates : List Advance} {e : Exc}
    (hphase : s.phase i = .advancing now row jobId rows updates)
    (hnext : next row.cronExpression row.timezone s.clock = .error e) :
    Moves next s (s.enter i .ended)
  | commit {i : ι} {now : Time} {updates : List Advance}
    (hphase : s.phase i = .firing now [] updates) :
    Moves next s ({ s with schedules := updates.foldl (Advance.apply now) s.schedules }.enter i
      .ended)
  | unlock {i : ι} (hphase : s.phase i = .ended) :
    Moves next s ({ s with lease := if s.lease = some i then none else s.lease }.enter i .idle)

/-- `Moves` says all that a step of the cluster does. -/
theorem moves_clusterStep (next : NextRun) (s : Cluster ι) (a : ClusterStep ι) :
    Moves next s (clusterStep next s a) := by
  cases a with
  | elapse duration => exact .elapse duration
  | tryLock i now =>
    simp only [clusterStep]
    split
    · next hidle hfree =>
      split
      · next hnow => exact .acquire hidle hfree hnow
      · exact .stay
    · exact .stay
  | select i scan =>
    simp only [clusterStep]
    split
    · next hphase => exact .select scan hphase
    · exact .stay
  | publish i jobId delivery =>
    simp only [clusterStep]
    split
    · next hphase =>
      cases delivery with
      | failed => exact .skip hphase
      | delivered => exact .publish jobId hphase
    · exact .stay
  | update i =>
    simp only [clusterStep]
    split
    · next hphase =>
      split
      · next hnext => exact .update hphase hnext
      · next hnext => exact .raise hphase hnext
    · exact .stay
  | commit i =>
    simp only [clusterStep]
    split
    · next hphase => exact .commit hphase
    · exact .stay
  | unlock i =>
    simp only [clusterStep]
    split
    · next hphase => exact .unlock hphase
    · exact .stay

/-- Whoever is inside a tick holds the lease. -/
theorem exclusive_moves {next : NextRun} {s s' : Cluster ι}
    (h : ∀ i, s.phase i ≠ .idle → s.lease = some i) (hmoves : Moves next s s') (i : ι)
    (hi : s'.phase i ≠ .idle) : s'.lease = some i := by
  -- a replica inside its tick moves on, and the lease stays as it is
  have hinside : ∀ {k : ι} {phase : TickPhase} {t : Cluster ι}, t.phase = s.phase →
      t.lease = s.lease → s.phase k ≠ .idle → (t.enter k phase).phase i ≠ .idle →
        (t.enter k phase).lease = some i := by
    intro k phase t hphase hlease hk hi
    by_cases hik : i = k
    · exact hlease.trans (hik ▸ h k hk)
    · rw [enter_phase_of_ne hik, hphase] at hi
      exact hlease.trans (h i hi)
  cases hmoves with
  | stay => exact h i hi
  | elapse duration => exact h i hi
  | @acquire k now hidle hfree hnow =>
    by_cases hik : i = k
    · exact hik ▸ rfl
    · rw [enter_phase_of_ne hik] at hi
      have hlease := h i hi
      rw [hfree] at hlease
      cases hlease
  | select scan hphase => exact hinside rfl rfl (by simp [hphase]) hi
  | skip hphase => exact hinside rfl rfl (by simp [hphase]) hi
  | publish jobId hphase => exact hinside rfl rfl (by simp [hphase]) hi
  | update hphase hnext => exact hinside rfl rfl (by simp [hphase]) hi
  | raise hphase hnext => exact hinside rfl rfl (by simp [hphase]) hi
  | commit hphase => exact hinside rfl rfl (by simp [hphase]) hi
  | @unlock k hphase =>
    by_cases hik : i = k
    · rw [hik, enter_phase_self] at hi
      exact absurd rfl hi
    · rw [enter_phase_of_ne hik] at hi
      have hlease := (h k (by simp [hphase])).symm.trans (h i hi)
      exact absurd (Option.some.inj hlease).symm hik

end Steps

end DataHarbour.Orchestrator
