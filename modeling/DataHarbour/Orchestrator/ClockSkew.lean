import Mathlib.Order.Bounds.Basic
import DataHarbour.Orchestrator.LoneReplica
import DataHarbour.Orchestrator.ReplicaSafety

/-!
# Two clocks

A row is due by the clock of the database, and its next run is computed from the clock of the
host. A fire moves the row past the occurrence that it fires for exactly if the host has reached
that occurrence too; while the host is behind, the same occurrence is stored again.
-/

namespace DataHarbour.Orchestrator

open Python Relational Machine JobService

/-- `croniter(cron, base).get_next` in a timezone, for valid expressions. -/
abbrev GetNext := String → String → Time → Time

/-- A tick in which nothing fails: `NOW()`, and for each fire the drawn id and the reading of the
host clock. -/
structure ClockedTick where
  now : Time
  jobIds : ℕ → JobId
  hostNow : ℕ → Time

/-- What the environment supplies to the fires. -/
def ClockedTick.firings (t : ClockedTick) : ℕ → Firing := fun k =>
  { jobId := t.jobIds k, hostNow := t.hostNow k }

/-- A published event: its schedule, the occurrence stored as `next_run_at` and the readings of
the two clocks. -/
structure CronFire where
  scheduleId : String
  due : Time
  now : Time
  hostNow : Time
  deriving DecidableEq

/-- The committed schedules, and what was published. -/
structure ClockedScheduler where
  schedules : Table ScheduledJob.scheduleId
  fires : List CronFire := []

/-- The fires of a tick, in the order in which it publishes them; by `published_tick` it publishes
one event for each. -/
def ClockedTick.fires (t : ClockedTick) (schedules : Table ScheduledJob.scheduleId) :
    List CronFire :=
  (tickRows t.now schedules t.firings).map fun (row, firing) =>
    ⟨row.scheduleId, row.nextRunAt, t.now, firing.hostNow⟩

/-- A tick of the scheduler. -/
def clockStep (getNext : GetNext) (s : ClockedScheduler) (t : ClockedTick) : ClockedScheduler :=
  let next : NextRun := fun cron timezone base => .ok (getNext cron timezone base)
  ⟨(tick next t.now s.schedules t.firings).schedules, s.fires ++ t.fires s.schedules⟩

/-- No occurrence of a schedule leads to two events. -/
def ClockedScheduler.FiredOnce (s : ClockedScheduler) : Prop :=
  (s.fires.map fun f => (f.scheduleId, f.due)).Nodup

/-- The host clock has reached every occurrence that the tick fires for. -/
def HostCaughtUp (s : ClockedScheduler) (t : ClockedTick) : Prop :=
  ∀ f ∈ t.fires s.schedules, f.due ≤ f.hostNow

/-! ## What a tick does -/

section Tick

variable {getNext : GetNext} {now : Time} {rows : List (ScheduledJob × Firing)}

/-- The rows as the loop stores them. -/
def advanced (getNext : GetNext) (now : Time) (entry : ScheduledJob × Firing) : ScheduledJob :=
  entry.1.advance now entry.2.jobId
    (getNext entry.1.cronExpression entry.1.timezone entry.2.hostNow)

/-- When every publish succeeds, the loop publishes and advances all its rows. -/
theorem fireRows_delivered (hdelivered : ∀ entry ∈ rows, entry.2.delivery = .delivered)
    (st : TickState) :
    fireRows (fun cron timezone base => .ok (getNext cron timezone base)) now rows st =
      (⟨rows.foldl (fun schedules entry => schedules.set (advanced getNext now entry))
          st.schedules,
        st.published ++ rows.map fun entry => fireEvent entry.1 entry.2.jobId⟩, none) := by
  induction rows generalizing st with
  | nil => simp [fireRows]
  | cons entry rows ih =>
    obtain ⟨row, firing⟩ := entry
    have hfirst : firing.delivery = .delivered := hdelivered (row, firing) List.mem_cons_self
    have hrest : ∀ entry ∈ rows, entry.2.delivery = .delivered := fun entry hentry =>
      hdelivered entry (List.mem_cons_of_mem _ hentry)
    simp only [fireRows, hfirst, ih hrest, List.foldl_cons, List.map_cons, List.append_assoc,
      List.singleton_append]
    rfl

/-- A stored row after the loop: one of the advanced rows, or as it was. -/
theorem find?_foldl_advanced {schedules : Table ScheduledJob.scheduleId} {k : String}
    {row' : ScheduledJob}
    (h : (rows.foldl (fun schedules entry => schedules.set (advanced getNext now entry))
      schedules).find? k = some row') :
    (∃ entry ∈ rows, entry.1.scheduleId = k ∧ row' = advanced getNext now entry) ∨
      (∀ entry ∈ rows, entry.1.scheduleId ≠ k) ∧ schedules.find? k = some row' := by
  induction rows generalizing schedules with
  | nil => exact .inr ⟨fun entry hentry => absurd hentry List.not_mem_nil, h⟩
  | cons entry rows ih =>
    rcases ih h with ⟨later, hlater, hid, hrow⟩ | ⟨hothers, hfind⟩
    · exact .inl ⟨later, List.mem_cons_of_mem entry hlater, hid, hrow⟩
    · rw [Table.find?_set] at hfind
      by_cases hk : (advanced getNext now entry).scheduleId = k
      · rw [if_pos hk] at hfind
        obtain ⟨old, -, rfl⟩ := Option.map_eq_some_iff.mp hfind
        exact .inl ⟨entry, List.mem_cons_self, hk, rfl⟩
      · rw [if_neg hk] at hfind
        refine .inr ⟨?_, hfind⟩
        rintro entry' hentry'
        rcases List.mem_cons.mp hentry' with rfl | hentry'
        · exact hk
        · exact hothers entry' hentry'

/-- The loop adds and removes no schedule. -/
theorem keys_foldl_advanced (schedules : Table ScheduledJob.scheduleId) :
    (rows.foldl (fun schedules entry => schedules.set (advanced getNext now entry))
      schedules).rows.map ScheduledJob.scheduleId =
      schedules.rows.map ScheduledJob.scheduleId := by
  induction rows generalizing schedules with
  | nil => rfl
  | cons entry rows ih => rw [List.foldl_cons, ih, Table.keys_set]

end Tick

private theorem delivered_tickRows {t : ClockedTick} {schedules : Table ScheduledJob.scheduleId}
    {entry : ScheduledJob × Firing} (h : entry ∈ tickRows t.now schedules t.firings) :
    entry.2.delivery = .delivered := by
  obtain ⟨k, hk, rfl⟩ := List.mem_mapIdx.mp h
  rfl

private theorem mem_schedules_of_mem_tickRows {t : ClockedTick}
    {schedules : Table ScheduledJob.scheduleId} {entry : ScheduledJob × Firing}
    (h : entry ∈ tickRows t.now schedules t.firings) : entry.1 ∈ schedules.rows := by
  have hmap := List.mem_map_of_mem (f := Prod.fst) h
  rw [map_fst_tickRows] at hmap
  exact (mem_dueRows hmap).1

/-- One event is published for each fire of the tick. -/
theorem published_tick (getNext : GetNext) (schedules : Table ScheduledJob.scheduleId)
    (t : ClockedTick) :
    (tick (fun cron timezone base => .ok (getNext cron timezone base)) t.now schedules
      t.firings).published =
      (tickRows t.now schedules t.firings).map fun entry => fireEvent entry.1 entry.2.jobId := by
  rw [tick, fireRows_delivered fun entry => delivered_tickRows]
  rfl

/-- A committed row after a tick: as before, or fired and advanced. -/
theorem find?_clockStep {getNext : GetNext} {s : ClockedScheduler} {t : ClockedTick} {k : String}
    {row' : ScheduledJob} (h : (clockStep getNext s t).schedules.find? k = some row') :
    (∃ entry ∈ tickRows t.now s.schedules t.firings, entry.1.scheduleId = k ∧
      row' = advanced getNext t.now entry) ∨
      (∀ entry ∈ tickRows t.now s.schedules t.firings, entry.1.scheduleId ≠ k) ∧
        s.schedules.find? k = some row' := by
  rw [clockStep] at h
  simp only [tick, fireRows_delivered fun entry => delivered_tickRows] at h
  exact find?_foldl_advanced h

/-- A fired row is committed as the loop has advanced it. -/
theorem find?_clockStep_of_fired (getNext : GetNext) {s : ClockedScheduler} {t : ClockedTick}
    {entry : ScheduledJob × Firing} (hentry : entry ∈ tickRows t.now s.schedules t.firings) :
    ∃ entry' ∈ tickRows t.now s.schedules t.firings, entry'.1 = entry.1 ∧
      (clockStep getNext s t).schedules.find? entry.1.scheduleId =
        some (advanced getNext t.now entry') := by
  have hmem := mem_schedules_of_mem_tickRows hentry
  have hkeys : (clockStep getNext s t).schedules.rows.map ScheduledJob.scheduleId =
      s.schedules.rows.map ScheduledJob.scheduleId := by
    simp only [clockStep, tick, fireRows_delivered fun entry => delivered_tickRows]
    exact keys_foldl_advanced s.schedules
  cases hfind : (clockStep getNext s t).schedules.find? entry.1.scheduleId with
  | none =>
    refine absurd (Table.find?_eq_none_iff.mp hfind) (not_not.mpr ?_)
    rw [hkeys]
    exact List.mem_map_of_mem hmem
  | some row' =>
    rcases find?_clockStep hfind with ⟨entry', hentry', hid, rfl⟩ | ⟨hothers, -⟩
    · exact ⟨entry', hentry',
        Table.eq_of_key_eq (mem_schedules_of_mem_tickRows hentry') hmem hid, rfl⟩
    · exact absurd rfl (hothers entry hentry)

/-! ## When a fire passes its occurrence -/

/-- `get_next(base)` is the least occurrence of the row's expression strictly after `base`. -/
def ScheduledJob.NextIsLeast (occurs : String → String → Time → Prop) (getNext : GetNext)
    (row : ScheduledJob) : Prop :=
  ∀ base, IsLeast {time | base < time ∧ occurs row.cronExpression row.timezone time}
    (getNext row.cronExpression row.timezone base)

section Passing

variable {occurs : String → String → Time → Prop} {getNext : GetNext} {row : ScheduledJob}

/-- A host that is behind stores the occurrence again that it has computed before. -/
theorem getNext_eq_of_behind (h : row.NextIsLeast occurs getNext) {base hostNow : Time}
    (hclock : base ≤ hostNow)
    (hbehind : hostNow < getNext row.cronExpression row.timezone base) :
    getNext row.cronExpression row.timezone hostNow =
      getNext row.cronExpression row.timezone base := by
  obtain ⟨⟨-, hoccurs⟩, hleast⟩ := h base
  obtain ⟨⟨hlater, hoccurs'⟩, hleast'⟩ := h hostNow
  exact le_antisymm (hleast' ⟨hbehind, hoccurs⟩) (hleast ⟨hclock.trans_lt hlater, hoccurs'⟩)

/-- A fire with a host that is behind leaves the row due for the same occurrence, at all times
to come. -/
theorem stays_due_of_behind {s : ClockedScheduler} {t : ClockedTick}
    (hrow : row ∈ dueRows t.now s.schedules.rows) (h : row.NextIsLeast occurs getNext)
    {base : Time} (hnext : row.nextRunAt = getNext row.cronExpression row.timezone base)
    (hclock : ∀ k, base ≤ t.hostNow k) (hbehind : ∀ k, t.hostNow k < row.nextRunAt) :
    ∃ row', (clockStep getNext s t).schedules.find? row.scheduleId = some row' ∧
      row'.nextRunAt = row.nextRunAt ∧ ∀ later, t.now ≤ later → row'.due later = true := by
  rw [← map_fst_tickRows t.now s.schedules t.firings] at hrow
  obtain ⟨entry, hentry, rfl⟩ := List.mem_map.mp hrow
  obtain ⟨entry', hentry', hsame, hfind⟩ := find?_clockStep_of_fired getNext hentry
  obtain ⟨k, hk, rfl⟩ := List.mem_mapIdx.mp hentry'
  rw [hnext] at hbehind
  have hagain : (advanced getNext t.now
      ((dueRows t.now s.schedules.rows)[k], t.firings k)).nextRunAt = entry.1.nextRunAt := by
    rw [hnext, ← getNext_eq_of_behind h (hclock k) (hbehind k)]
    exact congrArg (fun row => getNext row.cronExpression row.timezone (t.hostNow k)) hsame
  refine ⟨_, hfind, hagain, fun later hlater => ?_⟩
  have hdue := (mem_dueRows (List.getElem_mem hk)).2
  have hle := nextRunAt_le_of_due hdue
  simp only [ScheduledJob.due, Bool.and_eq_true, decide_eq_true_eq] at hdue ⊢
  refine ⟨hdue.1, ?_⟩
  rw [hagain, ← hsame]
  exact hle.trans hlater

end Passing

/-! ## Runs -/

/-- Every stored row lies past the occurrences that its schedule has fired for. -/
structure Passed (occurs : String → String → Time → Prop) (getNext : GetNext)
    (s : ClockedScheduler) : Prop where
  least : ∀ {k row}, s.schedules.find? k = some row → row.NextIsLeast occurs getNext
  past : ∀ f ∈ s.fires, ∀ row, s.schedules.find? f.scheduleId = some row → f.due < row.nextRunAt
  once : s.FiredOnce

private theorem exists_entry_of_mem_fires {t : ClockedTick}
    {schedules : Table ScheduledJob.scheduleId}
    {f : CronFire} (h : f ∈ t.fires schedules) :
    ∃ entry ∈ tickRows t.now schedules t.firings, schedules.find? f.scheduleId = some entry.1 ∧
      f.due = entry.1.nextRunAt ∧ f.hostNow = entry.2.hostNow := by
  obtain ⟨entry, hentry, rfl⟩ := List.mem_map.mp h
  exact ⟨entry, hentry, Table.find?_of_mem (mem_schedules_of_mem_tickRows hentry), rfl, rfl⟩

private theorem nodup_fires (t : ClockedTick) (schedules : Table ScheduledJob.scheduleId) :
    ((t.fires schedules).map CronFire.scheduleId).Nodup := by
  have hids : (t.fires schedules).map CronFire.scheduleId =
      ((tickRows t.now schedules t.firings).map Prod.fst).map ScheduledJob.scheduleId := by
    simp [ClockedTick.fires]
  rw [hids, map_fst_tickRows]
  exact nodup_dueRows schedules.nodup

/-- What a tick with a caught-up host preserves. -/
theorem Passed.step {occurs : String → String → Time → Prop} {getNext : GetNext}
    {s : ClockedScheduler} {t : ClockedTick} (h : Passed occurs getNext s)
    (hhost : HostCaughtUp s t) : Passed occurs getNext (clockStep getNext s t) := by
  have hadvanced : ∀ entry ∈ tickRows t.now s.schedules t.firings,
      entry.1.nextRunAt < (advanced getNext t.now entry).nextRunAt := by
    intro entry hentry
    have hreached : entry.1.nextRunAt ≤ entry.2.hostNow :=
      hhost _ (List.mem_map_of_mem hentry)
    have hfind := Table.find?_of_mem (mem_schedules_of_mem_tickRows hentry)
    exact hreached.trans_lt (h.least hfind entry.2.hostNow).1.1
  refine ⟨?_, ?_, ?_⟩
  · intro k row' hrow'
    rcases find?_clockStep hrow' with ⟨entry, hentry, -, rfl⟩ | ⟨-, hold⟩
    · have hleast := h.least (Table.find?_of_mem (mem_schedules_of_mem_tickRows hentry))
      exact hleast
    · exact h.least hold
  · intro f hf row' hrow'
    rcases find?_clockStep hrow' with ⟨entry, hentry, hid, rfl⟩ | ⟨hothers, hold⟩
    · have hfind := Table.find?_of_mem (mem_schedules_of_mem_tickRows hentry)
      rw [hid] at hfind
      refine lt_of_le_of_lt ?_ (hadvanced entry hentry)
      rcases List.mem_append.mp hf with hf | hf
      · exact (h.past f hf entry.1 hfind).le
      · obtain ⟨entry', -, hfind', hdue, -⟩ := exists_entry_of_mem_fires hf
        rw [hdue, Option.some.inj (hfind.symm.trans hfind')]
    · rcases List.mem_append.mp hf with hf | hf
      · exact h.past f hf row' hold
      · obtain ⟨entry, hentry, rfl⟩ := List.mem_map.mp hf
        exact absurd rfl (hothers entry hentry)
  · have hnew : ((t.fires s.schedules).map fun f => (f.scheduleId, f.due)).Nodup := by
      have hids := nodup_fires t s.schedules
      exact List.Nodup.of_map Prod.fst (by simpa [Function.comp_def] using hids)
    rw [ClockedScheduler.FiredOnce, clockStep, List.map_append]
    refine h.once.append hnew ?_
    -- a schedule that fires again does so for a later occurrence
    intro value hold hfired
    obtain ⟨f, hf, rfl⟩ := List.mem_map.mp hold
    obtain ⟨g, hg, heq⟩ := List.mem_map.mp hfired
    obtain ⟨hid, hdue⟩ := Prod.mk.inj heq
    obtain ⟨entry, -, hfind, hentry, -⟩ := exists_entry_of_mem_fires hg
    have hpast := h.past f hf entry.1 (hid ▸ hfind)
    exact absurd (hdue.symm.trans hentry) hpast.ne

/-- **No occurrence fires twice while the host keeps up.** Whatever the two clocks show, in every
run of ticks in which each fire finds the host clock at or past the occurrence that it fires for,
no occurrence of a schedule leads to a second event. -/
theorem fired_once_of_caught_up {occurs : String → String → Time → Prop} {getNext : GetNext}
    {schedules : Table ScheduledJob.scheduleId} (ticks : List ClockedTick)
    (hleast : ∀ row ∈ schedules.rows, row.NextIsLeast occurs getNext)
    (hhost : Along (clockStep getNext) HostCaughtUp ⟨schedules, []⟩ ticks) :
    Always (clockStep getNext) ClockedScheduler.FiredOnce ⟨schedules, []⟩ ticks := by
  have hstart : Passed occurs getNext ⟨schedules, []⟩ :=
    ⟨fun hrow => hleast _ (Table.mem_of_find? hrow), fun f hf => absurd hf List.not_mem_nil,
      List.nodup_nil⟩
  rintro before rest rfl
  exact ((along_append.mp hhost).1.preserves (fun s t h hhost => h.step hhost) hstart).once

/-! ## A host that is behind -/

/-- `everyMinute` as a total function. -/
def nextMinute : GetNext := fun _ _ base => (base / 60 + 1) * 60

private theorem nextIsLeast_nextMinute (row : ScheduledJob) :
    row.NextIsLeast (fun _ _ time => 60 ∣ time) nextMinute := by
  have hlater : ∀ n : ℕ, n < (n / 60 + 1) * 60 := by
    intro n
    omega
  have hleast : ∀ n time : ℕ, n < time → 60 ∣ time → (n / 60 + 1) * 60 ≤ time := by
    intro n time hn hdvd
    omega
  exact fun base => ⟨⟨hlater base, Nat.dvd_mul_left 60 _⟩, fun time htime =>
    hleast base time htime.1 htime.2⟩

/-- A schedule whose next run was computed in the first minute. -/
def minuteSchedule : Table ScheduledJob.scheduleId where
  rows := [{
    scheduleId := "s-1", name := "report", cronExpression := "* * * * *", jobTemplate := []
    nextRunAt := nextMinute "* * * * *" "UTC" 10 }]
  nodup := List.nodup_singleton _

/-- Two ticks, of which the database shows the first two arguments and the host the last. -/
def twoTicks (now now' hostNow hostNow' : Time) : List ClockedTick :=
  [⟨now, fun _ => "job-1", fun _ => hostNow⟩, ⟨now', fun _ => "job-2", fun _ => hostNow'⟩]

/-- A host one second off the database fires each of two minutes once. -/
theorem fired_once_two_minutes :
    Always (clockStep nextMinute) ClockedScheduler.FiredOnce ⟨minuteSchedule, []⟩
      (twoTicks 61 121 60 122) := by
  refine fired_once_of_caught_up _ (fun row _ => nextIsLeast_nextMinute row) ?_
  refine ⟨?_, ?_, trivial⟩
  · unfold HostCaughtUp
    decide
  · unfold HostCaughtUp
    decide

/-- The host clock is behind that of the database: the occurrence 60 fires twice, although both
clocks advance. -/
theorem behind_host_fires_twice :
    (twoTicks 61 91 50 55).Pairwise (·.now < ·.now) ∧
    ((run (clockStep nextMinute) ⟨minuteSchedule, []⟩ (twoTicks 61 91 50 55)).fires).Pairwise
      (·.hostNow < ·.hostNow) ∧
    ¬ Always (clockStep nextMinute) ClockedScheduler.FiredOnce ⟨minuteSchedule, []⟩
      (twoTicks 61 91 50 55) := by
  refine ⟨by decide, by decide, fun h => ?_⟩
  have honce := h (twoTicks 61 91 50 55) [] rfl
  unfold ClockedScheduler.FiredOnce at honce
  exact absurd honce (by decide)

end DataHarbour.Orchestrator
