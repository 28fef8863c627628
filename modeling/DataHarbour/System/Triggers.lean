import DataHarbour.Machine.Simulation
import DataHarbour.Orchestrator.LoneReplica
import DataHarbour.System.ScheduleApi

/-!
# Triggers do not disturb the scheduler

A trigger writes only the two columns that record the last run, and the scheduler does not read
them. Whatever is triggered while the replicas tick, they publish what they could have published
without it, and the schedules are due when they would have been.
-/

namespace DataHarbour.System

open Python Relational Machine JobService Orchestrator

/-! ## Rows up to their stamps -/

/-- The row without the record of its last run. -/
def unstamped (row : ScheduledJob) : ScheduledJob :=
  { row with lastRunAt := none, lastRunJobId := none }

/-- The rows differ at most in their stamps. -/
def SameRows (rows rows' : List ScheduledJob) : Prop := rows.map unstamped = rows'.map unstamped

private theorem exists_stamps {row row' : ScheduledJob} (h : unstamped row = unstamped row') :
    ∃ lastRunAt lastRunJobId,
      row' = { row with lastRunAt := lastRunAt, lastRunJobId := lastRunJobId } := by
  refine ⟨row'.lastRunAt, row'.lastRunJobId, ?_⟩
  calc row' = { unstamped row' with
        lastRunAt := row'.lastRunAt, lastRunJobId := row'.lastRunJobId } := rfl
    _ = { unstamped row with
        lastRunAt := row'.lastRunAt, lastRunJobId := row'.lastRunJobId } := by rw [h]

/-- A fire does not read the stamps. -/
theorem fireEvent_eq {row row' : ScheduledJob} (h : unstamped row = unstamped row')
    (jobId : JobId) : fireEvent row jobId = fireEvent row' jobId := by
  show fireEvent (unstamped row) jobId = fireEvent (unstamped row') jobId
  rw [h]

/-- What does not read the stamps is the same for rows that differ at most in them. -/
theorem SameRows.map_eq {rows rows' : List ScheduledJob} (h : SameRows rows rows') {α : Type*}
    {f : ScheduledJob → α} (hf : ∀ row, f (unstamped row) = f row) : rows.map f = rows'.map f := by
  have hfactor : f = f ∘ unstamped := funext fun row => (hf row).symm
  rw [hfactor, ← List.map_map, ← List.map_map, h]

/-- An order of the one list is, up to stamps, an order of the other. -/
theorem exists_perm_map {α β : Type*} {f : α → β} {l : List α} {m : List β}
    (h : m.Perm (l.map f)) : ∃ l' : List α, l'.Perm l ∧ l'.map f = m := by
  generalize hn : l.map f = n at h
  induction h generalizing l with
  | nil =>
    obtain rfl := List.map_eq_nil_iff.mp hn
    exact ⟨[], List.Perm.refl _, rfl⟩
  | cons x _ ih =>
    obtain ⟨a, rest, rfl, rfl, hrest⟩ := List.map_eq_cons_iff.mp hn
    obtain ⟨l', hperm, rfl⟩ := ih hrest
    exact ⟨a :: l', hperm.cons a, rfl⟩
  | swap x y l₀ =>
    obtain ⟨a, rest, rfl, rfl, hrest⟩ := List.map_eq_cons_iff.mp hn
    obtain ⟨b, rest', rfl, rfl, rfl⟩ := List.map_eq_cons_iff.mp hrest
    exact ⟨b :: a :: rest', List.Perm.swap a b rest', rfl⟩
  | trans _ _ ih₁ ih₂ =>
    obtain ⟨l₂, hperm₂, hmap₂⟩ := ih₂ hn
    obtain ⟨l₁, hperm₁, hmap₁⟩ := ih₁ hmap₂
    exact ⟨l₁, hperm₁.trans hperm₂, hmap₁⟩

/-- The selection of a tick does not read the stamps. -/
theorem sameRows_dueRows (now : Time) {rows rows' : List ScheduledJob} (h : SameRows rows rows') :
    SameRows (dueRows now rows) (dueRows now rows') := by
  have hmap : ∀ l : List ScheduledJob, (dueRows now l).map unstamped =
      dueRows now (l.map unstamped) := by
    intro l
    have hfilter : (l.map unstamped).filter (·.due now) =
        (l.filter (·.due now)).map unstamped := by
      rw [List.filter_map]
      rfl
    rw [dueRows, dueRows, List.map_take, hfilter]
    congr 1
    exact List.map_insertionSort _ _ _ _ fun _ _ _ _ => Iff.rfl
  rw [SameRows, hmap, hmap, h]

/-- A scan of the one table is answered by a scan of the other. -/
theorem exists_scan (scan : Scan) {rows rows' : List ScheduledJob} (h : SameRows rows rows') :
    ∃ scan' : Scan, SameRows (scan.order rows) (scan'.order rows') := by
  classical
  have hperm : ((scan.order rows).map unstamped).Perm (rows'.map unstamped) :=
    h ▸ (scan.perm rows).map unstamped
  obtain ⟨found, hfound, hsame⟩ := exists_perm_map hperm
  refine ⟨⟨fun l => if l = rows' then found else l, fun l => ?_⟩, ?_⟩
  · split
    · next hl => exact hl ▸ hfound
    · exact List.Perm.refl l
  · show (scan.order rows).map unstamped = (if rows' = rows' then found else rows').map unstamped
    rw [if_pos rfl, hsame]

/-! ## Tables up to the stamps -/

section Tables

variable {schedules schedules' : Table ScheduledJob.scheduleId}

private theorem sameRows_find? (h : SameRows schedules.rows schedules'.rows) (k : String) :
    (schedules.find? k).map unstamped = (schedules'.find? k).map unstamped := by
  have hmap : ∀ t : Table ScheduledJob.scheduleId, (t.find? k).map unstamped =
      (t.rows.map unstamped).find? fun row => decide (row.scheduleId = k) := by
    intro t
    rw [List.find?_map]
    rfl
  rw [hmap, hmap, h]

/-- A row under the same key of the other table. -/
theorem exists_row (h : SameRows schedules.rows schedules'.rows) {k : String}
    {row : ScheduledJob} (hrow : schedules.find? k = some row) :
    ∃ row', schedules'.find? k = some row' ∧ unstamped row = unstamped row' := by
  have hfind := sameRows_find? h k
  rw [hrow, Option.map_some] at hfind
  obtain ⟨row', hrow', hsame⟩ := Option.map_eq_some_iff.mp hfind.symm
  exact ⟨row', hrow', hsame.symm⟩

/-- The same schedules are missing. -/
theorem find?_eq_none (h : SameRows schedules.rows schedules'.rows) {k : String}
    (hnone : schedules.find? k = none) : schedules'.find? k = none := by
  have hfind := sameRows_find? h k
  rw [hnone, Option.map_none] at hfind
  exact Option.map_eq_none_iff.mp hfind.symm

private theorem sameRows_set (h : SameRows schedules.rows schedules'.rows) {row row' : ScheduledJob}
    (hrow : unstamped row = unstamped row') :
    SameRows (schedules.set row).rows (schedules'.set row').rows := by
  have hmap : ∀ (t : Table ScheduledJob.scheduleId) (r : ScheduledJob),
      (t.set r).rows.map unstamped = (t.rows.map unstamped).map fun x =>
        if x.scheduleId = (unstamped r).scheduleId then unstamped r else x := by
    intro t r
    rw [Table.set, List.map_map, List.map_map]
    refine List.map_congr_left fun x _ => ?_
    show unstamped (if x.scheduleId = r.scheduleId then r else x) =
      if x.scheduleId = r.scheduleId then unstamped r else unstamped x
    split <;> rfl
  rw [SameRows, hmap, hmap, h, hrow]

/-- Stamps on a stored row are no difference. -/
theorem sameRows_stamp {row : ScheduledJob} (hrow : schedules.find? row.scheduleId = some row)
    (now : Time) (jobId : JobId) :
    SameRows (schedules.set (stampRow row now jobId)).rows schedules.rows := by
  have hsame : SameRows (schedules.set (stampRow row now jobId)).rows (schedules.set row).rows :=
    sameRows_set rfl rfl
  rwa [Table.set_of_mem (Table.mem_of_find? hrow)] at hsame

private theorem sameRows_apply (h : SameRows schedules.rows schedules'.rows) (now : Time)
    (u : Advance) :
    SameRows (u.apply now schedules).rows (u.apply now schedules').rows := by
  cases hrow : schedules.find? u.scheduleId with
  | none => simpa only [Advance.apply, hrow, find?_eq_none h hrow] using h
  | some row =>
    obtain ⟨row', hrow', hsame⟩ := exists_row h hrow
    obtain ⟨_, _, rfl⟩ := exists_stamps hsame
    simp only [Advance.apply, hrow, hrow']
    exact sameRows_set h rfl

private theorem sameRows_foldl_apply (h : SameRows schedules.rows schedules'.rows) (now : Time)
    (updates : List Advance) : SameRows (updates.foldl (Advance.apply now) schedules).rows
      (updates.foldl (Advance.apply now) schedules').rows := by
  induction updates generalizing schedules schedules' with
  | nil => exact h
  | cons u updates ih => exact ih (sameRows_apply h now u)

/-! ### The other calls -/

private theorem sameRows_create (h : SameRows schedules.rows schedules'.rows) (lib : Libraries)
    (scheduleId : String) (now : Time) (request : ScheduleCreateRequest) :
    SameRows (createSchedule lib schedules scheduleId now request).1.rows
      (createSchedule lib schedules' scheduleId now request).1.rows := by
  have hnames : schedules.rows.any (·.name = request.name) =
      schedules'.rows.any (·.name = request.name) := by
    have hmap := h.map_eq fun row => (rfl : (unstamped row).name = row.name)
    have hany : ∀ rows : List ScheduledJob, rows.any (·.name = request.name) =
        (rows.map ScheduledJob.name).any (· = request.name) := by
      intro rows
      rw [List.any_map]
      rfl
    rw [hany, hany, hmap]
  unfold createSchedule
  rw [hnames]
  split
  · exact h
  · split
    · exact h
    · split
      · exact h
      · next time _ =>
        simp only
        split
        · exact h
        · next template _ =>
          split
          · let row : ScheduledJob :=
              { newSchedule scheduleId time request with jobTemplate := template }
            cases hrow : schedules.find? row.scheduleId with
            | none =>
              rw [Table.insert?_of_fresh hrow, Table.insert?_of_fresh (find?_eq_none h hrow)]
              exact congrArg (unstamped row :: ·) h
            | some old =>
              obtain ⟨old', hold', -⟩ := exists_row h hrow
              rw [Table.insert?_of_stored hrow, Table.insert?_of_stored hold']
              exact h
          · exact h

private theorem sameRows_delete (h : SameRows schedules.rows schedules'.rows)
    (scheduleId : String) :
    SameRows (deleteSchedule schedules scheduleId).1.rows
      (deleteSchedule schedules' scheduleId).1.rows := by
  have hfilter : ∀ t : Table ScheduledJob.scheduleId, (t.erase scheduleId).rows.map unstamped =
      (t.rows.map unstamped).filter fun row => !decide (row.scheduleId = scheduleId) := by
    intro t
    rw [List.filter_map]
    rfl
  cases hrow : schedules.find? scheduleId with
  | none => simpa only [deleteSchedule, hrow, find?_eq_none h hrow] using h
  | some row =>
    obtain ⟨row', hrow', -⟩ := exists_row h hrow
    simp only [deleteSchedule, hrow, hrow']
    rw [SameRows, hfilter, hfilter, h]

end Tables

/-! ## Replicas up to the stamps -/

/-- The phases differ at most in the stamps of their rows. -/
inductive SamePhase : TickPhase → TickPhase → Prop
  | idle : SamePhase .idle .idle
  | leased (now : Time) : SamePhase (.leased now) (.leased now)
  | firing (now : Time) {rows rows' : List ScheduledJob} (updates : List Advance)
    (h : SameRows rows rows') : SamePhase (.firing now rows updates) (.firing now rows' updates)
  | advancing (now : Time) {row row' : ScheduledJob} (jobId : JobId)
    {rows rows' : List ScheduledJob} (updates : List Advance)
    (hrow : unstamped row = unstamped row') (h : SameRows rows rows') :
    SamePhase (.advancing now row jobId rows updates) (.advancing now row' jobId rows' updates)
  | ended : SamePhase .ended .ended

variable {ι : Type*}

/-- The clusters differ at most in the stamps of their rows. -/
structure SameCluster (s t : Cluster ι) : Prop where
  schedules : SameRows s.schedules.rows t.schedules.rows
  lease : s.lease = t.lease
  clock : s.clock = t.clock
  phase : ∀ i, SamePhase (s.phase i) (t.phase i)
  events : s.events = t.events

/-- The rows that are due, and when. -/
def Cluster.timing (s : Cluster ι) : List (String × Bool × Time) :=
  s.schedules.rows.map fun row => (row.scheduleId, row.enabled, row.nextRunAt)

/-- The same clusters have the same timing. -/
theorem SameCluster.timing_eq {s t : Cluster ι} (h : SameCluster s t) :
    Cluster.timing s = Cluster.timing t :=
  h.schedules.map_eq fun _ => rfl

private theorem samePhase_refl (phase : TickPhase) : SamePhase phase phase := by
  cases phase with
  | idle => exact .idle
  | leased now => exact .leased now
  | firing now rows updates => exact .firing now updates rfl
  | advancing now row jobId rows updates => exact .advancing now jobId updates rfl rfl
  | ended => exact .ended

private theorem sameCluster_refl (s : Cluster ι) : SameCluster s s :=
  ⟨rfl, rfl, rfl, fun i => samePhase_refl (s.phase i), rfl⟩

section Steps

variable [DecidableEq ι] {s t : Cluster ι}

/-- The same phase is entered on both sides. -/
theorem SameCluster.enter (h : SameCluster s t) (i : ι) {phase phase' : TickPhase}
    (hphase : SamePhase phase phase') : SameCluster (s.enter i phase) (t.enter i phase') := by
  refine ⟨h.schedules, h.lease, h.clock, fun k => ?_, h.events⟩
  by_cases hk : k = i
  · rw [hk, enter_phase_self, enter_phase_self]
    exact hphase
  · rw [enter_phase_of_ne hk, enter_phase_of_ne hk]
    exact h.phase k

/-- A step of the replicas apart from its scan. -/
inductive SameButScan : ClusterStep ι → ClusterStep ι → Prop
  | same (a : ClusterStep ι) : SameButScan a a
  | select (i : ι) (scan scan' : Scan) : SameButScan (.select i scan) (.select i scan')

/-- The replicas do not read the stamps. -/
theorem sameCluster_clusterStep (next : NextRun) (h : SameCluster s t) (a : ClusterStep ι) :
    ∃ a', SameButScan a a' ∧ SameCluster (clusterStep next s a) (clusterStep next t a') := by
  cases a with
  | elapse duration =>
    refine ⟨_, .same _, h.schedules, h.lease, ?_, h.phase, h.events⟩
    exact congrArg (· + duration) h.clock
  | tryLock i now =>
    refine ⟨_, .same _, ?_⟩
    simp only [clusterStep]
    have hphase := h.phase i
    generalize s.phase i = p, t.phase i = q at hphase
    cases hphase with
    | idle =>
      rw [← h.lease]
      cases s.lease with
      | some k => exact h
      | none =>
        by_cases hnow : now ≤ s.clock
        · simp only [if_pos hnow, if_pos (h.clock ▸ hnow : now ≤ t.clock)]
          have hleased : SameCluster { s with lease := some i } { t with lease := some i } :=
            ⟨h.schedules, rfl, h.clock, h.phase, h.events⟩
          exact hleased.enter i (.leased now)
        · simp only [if_neg hnow, if_neg (h.clock ▸ hnow : ¬ now ≤ t.clock)]
          exact h
    | _ => exact h
  | select i scan =>
    obtain ⟨scan', hscan⟩ := exists_scan scan h.schedules
    refine ⟨_, .select i scan scan', ?_⟩
    simp only [clusterStep]
    have hphase := h.phase i
    generalize s.phase i = p, t.phase i = q at hphase
    cases hphase with
    | leased now =>
      exact h.enter i
        (.firing now [] (sameRows_dueRows now hscan))
    | _ => exact h
  | publish i jobId delivery =>
    refine ⟨_, .same _, ?_⟩
    simp only [clusterStep]
    have hphase := h.phase i
    generalize s.phase i = p, t.phase i = q at hphase
    cases hphase with
    | @firing now rows rows' updates hrows =>
      cases rows with
      | nil =>
        obtain rfl := List.map_eq_nil_iff.mp hrows.symm
        exact h
      | cons row rest =>
        obtain ⟨row', rest', rfl, hrow, hrest⟩ := List.map_eq_cons_iff.mp hrows.symm
        cases delivery with
        | failed =>
          exact h.enter i
            (.firing now updates hrest.symm)
        | delivered =>
          have hpublished : SameCluster { s with published := s.published ++ [(row, jobId)] }
              { t with published := t.published ++ [(row', jobId)] } := by
            refine ⟨h.schedules, h.lease, h.clock, h.phase, ?_⟩
            simp only [Cluster.events, List.map_append, List.map_cons, List.map_nil,
              fireEvent_eq hrow jobId]
            exact congrArg (· ++ [fireEvent row jobId]) h.events
          exact hpublished.enter i (.advancing now jobId updates hrow.symm hrest.symm)
    | _ => exact h
  | update i =>
    refine ⟨_, .same _, ?_⟩
    simp only [clusterStep]
    have hphase := h.phase i
    generalize s.phase i = p, t.phase i = q at hphase
    cases hphase with
    | advancing now jobId updates hrow hrest =>
      obtain ⟨_, _, rfl⟩ := exists_stamps hrow
      simp only [← h.clock]
      split
      · exact h.enter i (.firing now _ hrest)
      · exact h.enter i .ended
    | _ => exact h
  | commit i =>
    refine ⟨_, .same _, ?_⟩
    simp only [clusterStep]
    have hphase := h.phase i
    generalize s.phase i = p, t.phase i = q at hphase
    cases hphase with
    | @firing now rows rows' updates hrows =>
      cases rows with
      | nil =>
        obtain rfl := List.map_eq_nil_iff.mp hrows.symm
        have hcommitted : SameCluster
            { s with schedules := updates.foldl (Advance.apply now) s.schedules }
            { t with schedules := updates.foldl (Advance.apply now) t.schedules } :=
          ⟨sameRows_foldl_apply h.schedules now updates, h.lease, h.clock, h.phase, h.events⟩
        exact hcommitted.enter i .ended
      | cons row rest =>
        obtain ⟨row', rest', rfl, -, -⟩ := List.map_eq_cons_iff.mp hrows.symm
        exact h
    | _ => exact h
  | unlock i =>
    refine ⟨_, .same _, ?_⟩
    simp only [clusterStep]
    have hphase := h.phase i
    generalize s.phase i = p, t.phase i = q at hphase
    cases hphase with
    | ended =>
      rw [← h.lease]
      let lease := if s.lease = some i then none else s.lease
      have hfreed : SameCluster { s with lease := lease } { t with lease := lease } :=
        ⟨h.schedules, rfl, h.clock, h.phase, h.events⟩
      exact hfreed.enter i .idle
    | _ => exact h

end Steps

/-! ## Runs without the triggers -/

/-- What becomes of a step when the triggers are left out. A query may find rows that are due at
the same instant in another order, since an `UPDATE` moves its row. -/
inductive WithoutTriggers : DeskStep ι → List (DeskStep ι) → Prop
  | trigger (scheduleId : String) (jobId : JobId) (now stampedAt : Time) (delivery : Delivery) :
    WithoutTriggers (.trigger scheduleId jobId now stampedAt delivery) []
  | tick {a a' : ClusterStep ι} (h : SameButScan a a') : WithoutTriggers (.tick a) [.tick a']
  | create (scheduleId : String) (now : Time) (request : ScheduleCreateRequest) :
    WithoutTriggers (.create scheduleId now request) [.create scheduleId now request]
  | update (scheduleId : String) (now : Time) (patch : SchedulePatch) :
    WithoutTriggers (.update scheduleId now patch) [.update scheduleId now patch]
  | delete (scheduleId : String) : WithoutTriggers (.delete scheduleId) [.delete scheduleId]
  | job (call : Call) : WithoutTriggers (.job call) [.job call]

/-- The step is a trigger. -/
def DeskStep.isTrigger : DeskStep ι → Bool
  | .trigger .. => true
  | _ => false

/-- A trigger changes at most stamps. -/
theorem cluster_trigger (lib : Libraries) (s : Desk ι) (scheduleId : String) (jobId : JobId)
    (now stampedAt : Time) (delivery : Delivery) :
    ∃ schedules, SameRows schedules.rows s.schedules.rows ∧
      (triggerSchedule lib s scheduleId jobId now stampedAt delivery).1.cluster =
        { s.cluster with schedules := schedules } := by
  rcases triggerSchedule_cases lib s scheduleId jobId now stampedAt delivery with
    ⟨world, e, -, heq⟩ | ⟨row, checked, world, response, hrow, -, heq⟩
  · rw [heq]
    exact ⟨s.schedules, rfl, rfl⟩
  · rw [heq]
    have hold : s.schedules.find? row.scheduleId = some row :=
      Table.find?_of_mem (Table.mem_of_find? hrow)
    exact ⟨_, sameRows_stamp hold _ _, rfl⟩

/-- The same schedules are put on both sides. -/
theorem SameCluster.withSchedules {s t : Desk ι} (h : SameCluster s.cluster t.cluster)
    {schedules schedules' : Table ScheduledJob.scheduleId}
    (hrows : SameRows schedules.rows schedules'.rows) :
    SameCluster (s.withSchedules schedules).cluster (t.withSchedules schedules').cluster :=
  ⟨hrows, h.lease, h.clock, h.phase, h.events⟩

section Runs

variable [DecidableEq ι]

private theorem simulates_withoutTriggers (lib : Libraries) :
    Simulates (deskStep (ι := ι) lib) (deskStep lib)
      (fun s t => SameCluster s.cluster t.cluster) WithoutTriggers := by
  intro s t a h
  cases a with
  | tick a =>
    obtain ⟨a', hscan, hsame⟩ := sameCluster_clusterStep lib.next h a
    exact ⟨_, .tick hscan, hsame⟩
  | create scheduleId now request =>
    exact ⟨_, .create scheduleId now request,
      h.withSchedules (sameRows_create h.schedules lib scheduleId now request)⟩
  | update scheduleId now patch =>
    refine ⟨_, .update scheduleId now patch, ?_⟩
    rw [run_cons, run_nil, deskStep, deskStep, updateSchedule_fst, updateSchedule_fst]
    exact h
  | delete scheduleId =>
    exact ⟨_, .delete scheduleId, h.withSchedules (sameRows_delete h.schedules scheduleId)⟩
  | trigger scheduleId jobId now stampedAt delivery =>
    obtain ⟨schedules, hrows, hcluster⟩ :=
      cluster_trigger lib s scheduleId jobId now stampedAt delivery
    refine ⟨[], .trigger scheduleId jobId now stampedAt delivery, ?_⟩
    show SameCluster (triggerSchedule lib s scheduleId jobId now stampedAt delivery).1.cluster _
    rw [hcluster]
    exact ⟨hrows.trans h.schedules, h.lease, h.clock, h.phase, h.events⟩
  | job call => exact ⟨_, .job call, h⟩

/-- **Triggers are invisible to the scheduler.** For every run there is one in which nothing is
triggered and everything else happens in the same order; in it the replicas publish the same
events, and at its end the same schedules are enabled and due at the same times. -/
theorem triggers_invisible (lib : Libraries) (s : Desk ι) (steps : List (DeskStep ι)) :
    ∃ steps', AnsweredBy WithoutTriggers steps steps' ∧
      (∀ a ∈ steps', DeskStep.isTrigger a = false) ∧
      (run (deskStep lib) s steps').cluster.events =
        (run (deskStep lib) s steps).cluster.events ∧
      Cluster.timing (run (deskStep lib) s steps').cluster =
        Cluster.timing (run (deskStep lib) s steps).cluster := by
  obtain ⟨steps', hanswered, hsame⟩ :=
    (simulates_withoutTriggers lib).run (sameCluster_refl s.cluster) steps
  refine ⟨steps', hanswered, ?_, hsame.events.symm, hsame.timing_eq.symm⟩
  refine hanswered.forall_mem fun a answer ha => ?_
  cases ha with
  | trigger => exact fun b hb => absurd hb List.not_mem_nil
  | tick | create | update | delete | job => exact List.forall_mem_singleton.mpr rfl

end Runs

end DataHarbour.System
