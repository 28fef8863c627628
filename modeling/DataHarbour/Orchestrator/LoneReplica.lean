import DataHarbour.Orchestrator.Replicas

/-!
# One replica on its own

A replica whose tick no other replica interferes with does what `tick` says: the same rows are
committed and the same events published, also when a next-run computation raises.
-/

namespace DataHarbour.Orchestrator

open Python Relational Machine JobService

variable {ι : Type*} [DecidableEq ι]

/-- The events on the topic. -/
def Cluster.events (s : Cluster ι) : List Json :=
  s.published.map fun f => fireEvent f.1 f.2

/-- The steps of the loop. After a failed publish the second step of a row does nothing. -/
def fireSteps (i : ι) (rows : List (ScheduledJob × Firing)) : List (ClusterStep ι) :=
  rows.flatMap fun entry => [.publish i entry.2.jobId entry.2.delivery, .update i]

/-- The scan that finds the rows in the order of the table. -/
def Scan.inOrder : Scan := ⟨id, fun rows => List.Perm.refl rows⟩

/-- The steps of a whole tick. -/
def tickSteps (i : ι) (now : Time) (rows : List (ScheduledJob × Firing)) :
    List (ClusterStep ι) :=
  .tryLock i now :: .select i .inOrder :: (fireSteps i rows ++ [.commit i, .unlock i])

/-- After an exception the loop is left. -/
theorem run_fireSteps_of_ended (next : NextRun) {s : Cluster ι} {i : ι}
    (hphase : s.phase i = .ended) (rows : List (ScheduledJob × Firing)) :
    run (clusterStep next) s (fireSteps i rows) = s := by
  induction rows with
  | nil => rfl
  | cons entry rows ih =>
    have hpublish : clusterStep next s (.publish i entry.2.jobId entry.2.delivery) = s := by
      simp only [clusterStep, hphase]
    have hupdate : clusterStep next s (.update i) = s := by
      simp only [clusterStep, hphase]
    rw [fireSteps, List.flatMap_cons, run_append, run_cons, run_cons, run_nil, hpublish, hupdate]
    exact ih

/-- What the loop leaves behind when `fireRows` gives `outcome`. -/
structure LoopEnd (s s' : Cluster ι) (i : ι) (now : Time) (outcome : TickState × Option Exc) :
    Prop where
  schedules : s'.schedules = s.schedules
  lease : s'.lease = s.lease
  events : s'.events = outcome.1.published
  finished : outcome.2 = none → ∃ updates, s'.phase i = .firing now [] updates ∧
    updates.foldl (Advance.apply now) s.schedules = outcome.1.schedules
  raised : outcome.2 ≠ none → s'.phase i = .ended

/-- The `UPDATE` of a selected row that is still as it was selected. -/
theorem apply_of_find? {now : Time} {schedules : Table ScheduledJob.scheduleId}
    {row : ScheduledJob} (h : schedules.find? row.scheduleId = some row) (jobId : JobId)
    (time : Time) : (⟨row.scheduleId, jobId, time⟩ : Advance).apply now schedules =
      schedules.set (row.advance now jobId time) := by
  simp only [Advance.apply, h]

/-! ### The two steps of one row -/

section OneRow

variable {s : Cluster ι} {i : ι} {now : Time} {row : ScheduledJob} {rest : List ScheduledJob}
  {updates : List Advance}

/-- The row is left out after a failed publish. -/
theorem fire_failed (next : NextRun) (hphase : s.phase i = .firing now (row :: rest) updates)
    (jobId : JobId) :
    clusterStep next (clusterStep next s (.publish i jobId .failed)) (.update i) =
      s.enter i (.firing now rest updates) := by
  simp only [clusterStep, hphase, enter_phase_self]

/-- The event is out when the computation of the next run raises. -/
theorem fire_raised {next : NextRun} {e : Exc}
    (hnext : next row.cronExpression row.timezone s.clock = .error e)
    (hphase : s.phase i = .firing now (row :: rest) updates) (jobId : JobId) :
    clusterStep next (clusterStep next s (.publish i jobId .delivered)) (.update i) =
      (Cluster.enter { s with published := s.published ++ [(row, jobId)] } i
        (.advancing now row jobId rest updates)).enter i .ended := by
  simp only [clusterStep, hphase, enter_phase_self]
  simp only [Cluster.enter, hnext]

/-- The event is out and the row is to advance. -/
theorem fire_advanced {next : NextRun} {time : Time}
    (hnext : next row.cronExpression row.timezone s.clock = .ok time)
    (hphase : s.phase i = .firing now (row :: rest) updates) (jobId : JobId) :
    clusterStep next (clusterStep next s (.publish i jobId .delivered)) (.update i) =
      (Cluster.enter { s with published := s.published ++ [(row, jobId)] } i
        (.advancing now row jobId rest updates)).enter i
          (.firing now rest (updates ++ [⟨row.scheduleId, jobId, time⟩])) := by
  simp only [clusterStep, hphase, enter_phase_self]
  simp only [Cluster.enter, hnext]

end OneRow

/-- The loop of a replica is `fireRows`. -/
theorem loopEnd_fireSteps (next : NextRun) {i : ι} {now : Time}
    (rows : List (ScheduledJob × Firing)) (s : Cluster ι) (updates : List Advance)
    (hphase : s.phase i = .firing now (rows.map Prod.fst) updates)
    (hclock : ∀ entry ∈ rows, entry.2.hostNow = s.clock)
    (hrows : ∀ entry ∈ rows, (updates.foldl (Advance.apply now) s.schedules).find?
      entry.1.scheduleId = some entry.1)
    (hdistinct : (rows.map fun entry => entry.1.scheduleId).Nodup) :
    LoopEnd s (run (clusterStep next) s (fireSteps i rows)) i now
      (fireRows next now rows ⟨updates.foldl (Advance.apply now) s.schedules, s.events⟩) := by
  induction rows generalizing s updates with
  | nil => exact ⟨rfl, rfl, rfl, fun _ => ⟨updates, hphase, rfl⟩, fun h => absurd rfl h⟩
  | cons entry rows ih =>
    obtain ⟨row, firing⟩ := entry
    obtain ⟨hfresh, hdistinct'⟩ := List.nodup_cons.mp hdistinct
    obtain ⟨hhost, hclock'⟩ := List.forall_mem_cons.mp hclock
    obtain ⟨hrow, hrest⟩ := List.forall_mem_cons.mp hrows
    have hsteps : run (clusterStep next) s (fireSteps i ((row, firing) :: rows)) =
        run (clusterStep next) (clusterStep next (clusterStep next s
          (.publish i firing.jobId firing.delivery)) (.update i)) (fireSteps i rows) := rfl
    rw [hsteps]
    cases hdelivery : firing.delivery with
    | failed =>
      rw [fire_failed next hphase]
      simp only [fireRows, hdelivery]
      obtain ⟨hschedules, hlease, hevents, hfinished, hraised⟩ :=
        ih (s.enter i (.firing now (rows.map Prod.fst) updates)) updates (enter_phase_self ..)
          hclock' hrest hdistinct'
      exact ⟨hschedules, hlease, hevents, hfinished, hraised⟩
    | delivered =>
      let s₁ : Cluster ι := { s with published := s.published ++ [(row, firing.jobId)] }
      have hevents₁ : s₁.events = s.events ++ [fireEvent row firing.jobId] := by
        simp [s₁, Cluster.events]
      cases hnext : next row.cronExpression row.timezone firing.hostNow with
      | error e =>
        rw [fire_raised (hhost ▸ hnext) hphase, run_fireSteps_of_ended next (enter_phase_self ..)]
        simp only [fireRows, hdelivery, hnext]
        refine ⟨rfl, rfl, hevents₁, ?_, fun _ => enter_phase_self ..⟩
        intro hnone
        cases hnone
      | ok time =>
        let update : Advance := ⟨row.scheduleId, firing.jobId, time⟩
        have happly : (updates ++ [update]).foldl (Advance.apply now) s.schedules =
            (updates.foldl (Advance.apply now) s.schedules).set
              (row.advance now firing.jobId time) := by
          rw [List.foldl_append]
          exact apply_of_find? hrow firing.jobId time
        -- the rows that are left are other rows
        have hrest' : ∀ entry ∈ rows, ((updates ++ [update]).foldl (Advance.apply now)
            s.schedules).find? entry.1.scheduleId = some entry.1 := by
          intro entry hentry
          have hne : row.scheduleId ≠ entry.1.scheduleId := fun heq =>
            hfresh (List.mem_map.mpr ⟨entry, hentry, heq.symm⟩)
          rw [happly, Table.find?_set, advance_scheduleId, if_neg hne]
          exact hrest entry hentry
        rw [fire_advanced (hhost ▸ hnext) hphase]
        simp only [fireRows, hdelivery, hnext]
        rw [← happly, ← hevents₁]
        obtain ⟨hschedules, hlease, hevents, hfinished, hraised⟩ :=
          ih ((s₁.enter i (.advancing now row firing.jobId (rows.map Prod.fst) updates)).enter i
            (.firing now (rows.map Prod.fst) (updates ++ [update]))) (updates ++ [update])
            (enter_phase_self ..) hclock' hrest' hdistinct'
        exact ⟨hschedules, hlease, hevents, hfinished, hraised⟩

/-- A tick goes through the due rows in order. -/
theorem map_fst_tickRows (now : Time) (schedules : Table ScheduledJob.scheduleId)
    (firings : ℕ → Firing) :
    (tickRows now schedules firings).map Prod.fst = dueRows now schedules.rows := by
  apply List.ext_getElem
  · simp [tickRows]
  · intro n _ _
    simp [tickRows]

/-- The loop only adds to what is published. -/
theorem fireRows_published (next : NextRun) (now : Time) (rows : List (ScheduledJob × Firing))
    (schedules : Table ScheduledJob.scheduleId) (published : List Json) :
    fireRows next now rows ⟨schedules, published⟩ =
      (⟨(fireRows next now rows ⟨schedules, []⟩).1.schedules,
        published ++ (fireRows next now rows ⟨schedules, []⟩).1.published⟩,
        (fireRows next now rows ⟨schedules, []⟩).2) := by
  induction rows generalizing schedules published with
  | nil => simp [fireRows]
  | cons entry rows ih =>
    obtain ⟨row, firing⟩ := entry
    cases hdelivery : firing.delivery with
    | failed =>
      simp only [fireRows, hdelivery]
      exact ih schedules published
    | delivered =>
      cases hnext : next row.cronExpression row.timezone firing.hostNow with
      | error e => simp only [fireRows, hdelivery, hnext, List.nil_append]
      | ok time =>
        simp only [fireRows, hdelivery, hnext, List.nil_append]
        rw [ih _ (published ++ [fireEvent row firing.jobId]), ih _ [fireEvent row firing.jobId],
          List.append_assoc]

/-- **An undisturbed tick is `tick`.** From a state in which nobody holds the lock, the steps of
one replica commit the rows and publish the events that `tick` gives. -/
theorem run_tickSteps (next : NextRun) {s : Cluster ι} {i : ι} (hidle : s.phase i = .idle)
    (hfree : s.lease = none) {now : Time} (hnow : now ≤ s.clock) (firings : ℕ → Firing)
    (hclock : ∀ k, (firings k).hostNow = s.clock) :
    let s' := run (clusterStep next) s (tickSteps i now (tickRows now s.schedules firings))
    s'.schedules = (tick next now s.schedules firings).schedules ∧
      s'.events = s.events ++ (tick next now s.schedules firings).published ∧
      s'.lease = none ∧ s'.phase i = .idle := by
  let rows := tickRows now s.schedules firings
  let s₁ : Cluster ι := ({ s with lease := some i }.enter i (.leased now)).enter i
    (.firing now (dueRows now s.schedules.rows) [])
  have hfirst : clusterStep next (clusterStep next s (.tryLock i now)) (.select i .inOrder) =
      s₁ := by
    simp only [clusterStep, hidle, hfree, if_pos hnow, enter_phase_self]
    rfl
  have hmem : ∀ entry ∈ rows, entry.1 ∈ dueRows now s.schedules.rows := by
    intro entry hentry
    rw [← map_fst_tickRows now s.schedules firings]
    exact List.mem_map_of_mem hentry
  have hend : LoopEnd s₁ (run (clusterStep next) s₁ (fireSteps i rows)) i now
      (fireRows next now rows ⟨s.schedules, s.events⟩) := by
    apply loopEnd_fireSteps next rows s₁ []
    · rw [map_fst_tickRows]
      exact enter_phase_self ..
    · intro entry hentry
      obtain ⟨k, hk, rfl⟩ := List.mem_mapIdx.mp hentry
      exact hclock k
    · exact fun entry hentry => Table.find?_of_mem (mem_dueRows (hmem entry hentry)).1
    · have hkeys : ((dueRows now s.schedules.rows).map ScheduledJob.scheduleId).Nodup :=
        nodup_dueRows s.schedules.nodup
      rwa [← map_fst_tickRows now s.schedules firings, List.map_map] at hkeys
  have hrun : run (clusterStep next) s (tickSteps i now rows) =
      clusterStep next (clusterStep next (run (clusterStep next) s₁ (fireSteps i rows))
        (.commit i)) (.unlock i) := by
    rw [tickSteps, run_cons, run_cons, hfirst, run_append]
    rfl
  intro s'
  have hs' : s' = clusterStep next (clusterStep next
      (run (clusterStep next) s₁ (fireSteps i rows)) (.commit i)) (.unlock i) := hrun
  generalize run (clusterStep next) s₁ (fireSteps i rows) = s₂ at hend hs'
  rw [fireRows_published] at hend
  obtain ⟨hschedules, hlease, hevents, hfinished, hraised⟩ := hend
  replace hlease : s₂.lease = some i := hlease
  unfold tick
  cases houtcome : fireRows next now rows ⟨s.schedules, []⟩ with
  | mk st failure =>
    rw [houtcome] at hevents hfinished hraised
    cases failure with
    | none =>
      obtain ⟨updates, hphase, hcommitted⟩ := hfinished rfl
      let committed := updates.foldl (Advance.apply now) s₂.schedules
      have hfinal : s' =
          ({ s₂ with schedules := committed, lease := none }.enter i .ended).enter i .idle := by
        rw [hs']
        simp only [clusterStep, hphase, enter_phase_self]
        simp only [Cluster.enter, hlease, if_true, committed]
      rw [hfinal]
      refine ⟨?_, hevents, rfl, enter_phase_self ..⟩
      exact (congrArg (updates.foldl (Advance.apply now)) hschedules).trans hcommitted
    | some e =>
      have hphase : s₂.phase i = .ended := hraised (by simp)
      have hfinal : s' = { s₂ with lease := none }.enter i .idle := by
        rw [hs']
        simp only [clusterStep, hphase, hlease, if_true]
      rw [hfinal]
      exact ⟨hschedules, hevents, rfl, enter_phase_self ..⟩

end DataHarbour.Orchestrator
