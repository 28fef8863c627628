import DataHarbour.System.ScheduleApi

/-!
# Schedules that are switched off

A schedule is what its creation made it until it is deleted: a `PATCH` never commits a change, and
the ticks and triggers write other columns. A tick works on the rows that it has selected, so that
a schedule which is deleted in the meantime can still be fired. This file says that nothing worse
happens: from then on at most one event of the schedule is published, none at all if no tick has
the schedule in hand.
-/

namespace DataHarbour.System

open Python Relational Machine JobService Orchestrator

variable {ι : Type*}

/-! ## Switching off and on -/

/-- The schedule is missing or disabled. -/
def SwitchedOff (schedules : Table ScheduledJob.scheduleId) (scheduleId : String) : Prop :=
  ∀ row, schedules.find? scheduleId = some row → row.enabled = false

/-- The request creates the schedule enabled. -/
def DeskStep.switchesOn (scheduleId : String) : DeskStep ι → Bool
  | .create k _ request => decide (k = scheduleId) && request.enabled
  | _ => false

/-- The columns that a schedule is created with, but for its next run. -/
structure Settings where
  scheduleId : String
  name : String
  cronExpression : String
  timezone : String
  jobTemplate : Dict
  enabled : Bool

/-- What a row was created with. -/
def ScheduledJob.settings (row : Orchestrator.ScheduledJob) : Settings where
  scheduleId := row.scheduleId
  name := row.name
  cronExpression := row.cronExpression
  timezone := row.timezone
  jobTemplate := row.jobTemplate
  enabled := row.enabled

/-- A deleted schedule is off. -/
theorem switchedOff_delete (schedules : Table ScheduledJob.scheduleId) (scheduleId : String) :
    SwitchedOff (deleteSchedule schedules scheduleId).1 scheduleId := by
  intro row hrow
  unfold deleteSchedule at hrow
  split at hrow
  · next hnone =>
    rw [hnone] at hrow
    cases hrow
  · have hmem := Table.mem_erase.mp (Table.mem_of_find? hrow)
    exact absurd (Table.key_of_find? hrow) hmem.2

/-! ## What a tick has in hand -/

/-- The events of a schedule that were published. -/
def Desk.fires (s : Desk ι) (scheduleId : String) : ℕ :=
  s.cluster.published.countP fun f => decide (f.1.scheduleId = scheduleId)

/-- How often the phase still has to fire the schedule. -/
def pendingIn (scheduleId : String) (phase : TickPhase) : ℕ :=
  phase.rest.countP fun row => decide (row.scheduleId = scheduleId)

/-- How often the tick that holds the lease still has to fire the schedule. -/
def Desk.pending (s : Desk ι) (scheduleId : String) : ℕ :=
  (s.cluster.lease.map fun i => pendingIn scheduleId (s.cluster.phase i)).getD 0

/-- Whoever is inside a tick holds the lease, and has no schedule in hand twice. -/
structure Desk.Tidy (s : Desk ι) : Prop where
  exclusive : ∀ i, s.cluster.phase i ≠ .idle → s.cluster.lease = some i
  distinct : ∀ i, ((s.cluster.phase i).rest.map ScheduledJob.scheduleId).Nodup

private theorem pending_of_inside {s : Desk ι} (h : s.Tidy) {i : ι} {scheduleId : String}
    (hi : s.cluster.phase i ≠ .idle) :
    s.pending scheduleId = pendingIn scheduleId (s.cluster.phase i) := by
  rw [Desk.pending, h.exclusive i hi]
  rfl

/-- A tick has a schedule in hand at most once. -/
theorem Desk.Tidy.pending_le_one {s : Desk ι} (h : s.Tidy) (scheduleId : String) :
    s.pending scheduleId ≤ 1 := by
  unfold Desk.pending
  cases s.cluster.lease with
  | none => exact Nat.zero_le 1
  | some i =>
    have hcount := List.nodup_iff_count_le_one.mp (h.distinct i) scheduleId
    rwa [List.count, List.countP_map] at hcount

private theorem tidy_start (clock : Time) : (Desk.start clock : Desk ι).Tidy where
  exclusive _ h := absurd rfl h
  distinct _ := List.nodup_nil

section Steps

variable [DecidableEq ι]

/-- The tick that holds the lease moves on. -/
theorem Desk.Tidy.enter {s : Desk ι} (h : s.Tidy) {t : Cluster ι} {i : ι} {phase : TickPhase}
    (hphase : t.phase = s.cluster.phase)
    (hexclusive : ∀ k, (t.enter i phase).phase k ≠ .idle → (t.enter i phase).lease = some k)
    (hdistinct : (phase.rest.map ScheduledJob.scheduleId).Nodup) :
    Desk.Tidy ⟨s.world, t.enter i phase⟩ := by
  refine ⟨hexclusive, fun k => ?_⟩
  by_cases hki : k = i
  · rw [hki, enter_phase_self]
    exact hdistinct
  · rw [enter_phase_of_ne hki, hphase]
    exact h.distinct k

private theorem tidy_moves {next : NextRun} {s : Desk ι} (h : s.Tidy) {cluster : Cluster ι}
    (hmoves : Moves next s.cluster cluster) : Desk.Tidy ⟨s.world, cluster⟩ := by
  have hexclusive := exclusive_moves h.exclusive hmoves
  have hdistinct := h.distinct
  cases hmoves with
  | stay => exact h
  | elapse duration => exact ⟨h.exclusive, h.distinct⟩
  | acquire _ _ _ => exact h.enter rfl hexclusive List.nodup_nil
  | select scan _ =>
    have hkeys : ((scan.order s.cluster.schedules.rows).map ScheduledJob.scheduleId).Nodup :=
      ((scan.perm _).map _).nodup_iff.mpr s.cluster.schedules.nodup
    exact h.enter rfl hexclusive (nodup_dueRows hkeys)
  | @skip i _ _ _ _ hphase =>
    exact h.enter rfl hexclusive (List.nodup_cons.mp (hphase ▸ hdistinct i)).2
  | @publish i _ _ _ _ _ hphase =>
    exact h.enter rfl hexclusive (List.nodup_cons.mp (hphase ▸ hdistinct i)).2
  | @update i _ _ _ _ _ _ hphase _ =>
    have hrest := hdistinct i
    rw [hphase] at hrest
    exact h.enter rfl hexclusive hrest
  | raise _ _ => exact h.enter rfl hexclusive List.nodup_nil
  | commit _ => exact h.enter rfl hexclusive List.nodup_nil
  | unlock _ => exact h.enter rfl hexclusive List.nodup_nil

/-- When the tick that holds the lease moves on, what counts is its phase. -/
theorem fires_enter {s : Desk ι} (h : s.Tidy) {t : Cluster ι} {i : ι} {phase : TickPhase}
    {scheduleId : String} (hi : s.cluster.phase i ≠ .idle) (hlease : t.lease = s.cluster.lease)
    (hfires : Desk.fires ⟨s.world, t⟩ scheduleId + pendingIn scheduleId phase ≤
      s.fires scheduleId + pendingIn scheduleId (s.cluster.phase i)) :
    Desk.fires ⟨s.world, t.enter i phase⟩ scheduleId +
        Desk.pending ⟨s.world, t.enter i phase⟩ scheduleId ≤
      s.fires scheduleId + s.pending scheduleId := by
  have hholds : (t.enter i phase).lease = some i := hlease.trans (h.exclusive i hi)
  rw [pending_of_inside h hi]
  refine le_of_eq_of_le ?_ hfires
  rw [Desk.pending, hholds]
  simp only [Option.map_some, Option.getD_some, enter_phase_self]
  rfl

/-- While the schedule is off, what is published of it and what is in hand together do not
grow. -/
theorem fires_moves {next : NextRun} {s : Desk ι} (h : s.Tidy) {scheduleId : String}
    (hoff : SwitchedOff s.schedules scheduleId) {cluster : Cluster ι}
    (hmoves : Moves next s.cluster cluster) :
    Desk.fires ⟨s.world, cluster⟩ scheduleId + Desk.pending ⟨s.world, cluster⟩ scheduleId ≤
      s.fires scheduleId + s.pending scheduleId := by
  cases hmoves with
  | stay => exact le_rfl
  | elapse duration => exact le_rfl
  | @acquire i now _ _ _ =>
    refine Nat.add_le_add_left (le_of_eq_of_le ?_ (Nat.zero_le _)) _
    simp only [Desk.pending, Cluster.enter, Option.map_some, Option.getD_some,
      Function.update_self]
    rfl
  | @select i now scan hphase =>
    refine fires_enter h (by simp [hphase]) rfl ?_
    -- a schedule that is off is not due
    have hnone : pendingIn scheduleId
        (.firing now (dueRows now (scan.order s.cluster.schedules.rows)) []) = 0 := by
      refine List.countP_eq_zero.mpr fun row hrow hid => ?_
      obtain ⟨hmem, hdue⟩ := mem_dueRows hrow
      have hfind := Table.find?_of_mem ((scan.perm _).mem_iff.mp hmem)
      rw [of_decide_eq_true hid] at hfind
      rw [ScheduledJob.due, hoff row hfind] at hdue
      cases hdue
    rw [hnone]
    exact Nat.le_add_right _ _
  | @skip i now row rows updates hphase =>
    refine fires_enter h (by simp [hphase]) rfl ?_
    rw [hphase]
    exact Nat.add_le_add_left ((List.sublist_cons_self row rows).countP_le) _
  | @publish i now row rows updates jobId hphase =>
    refine fires_enter h (by simp [hphase]) rfl ?_
    rw [hphase]
    -- the row moves from what is in hand to what is published
    simp only [Desk.fires, pendingIn, TickPhase.rest, List.countP_append, List.countP_cons,
      List.countP_nil]
    omega
  | @update i now row jobId rows updates time hphase hnext =>
    refine fires_enter h (by simp [hphase]) rfl ?_
    rw [hphase]
    exact le_rfl
  | raise hphase _ =>
    exact fires_enter h (by simp [hphase]) rfl (Nat.add_le_add_left (Nat.zero_le _) _)
  | commit hphase =>
    exact fires_enter h (by simp [hphase]) rfl (Nat.add_le_add_left (Nat.zero_le _) _)
  | @unlock i hphase =>
    refine Nat.add_le_add_left (le_of_eq_of_le ?_ (Nat.zero_le _)) _
    simp only [Desk.pending, Cluster.enter, h.exclusive i (by simp [hphase]), if_true]
    rfl

private theorem switchedOff_moves {next : NextRun} {s s' : Cluster ι} {scheduleId : String}
    (hoff : SwitchedOff s.schedules scheduleId) (hmoves : Moves next s s') :
    SwitchedOff s'.schedules scheduleId := by
  cases hmoves with
  | commit hphase =>
    intro row hrow
    refine forall_foldl_apply (P := fun k row => k = scheduleId → row.enabled = false)
      (fun k row hfind hk => hoff row (hk ▸ hfind)) (fun _ _ _ hold => hold) hrow rfl
  | _ => exact hoff

/-! ## Every step -/

/-- A change of one row, or none, that does not enable the schedule. -/
theorem SwitchedOff.set {schedules : Table ScheduledJob.scheduleId} {scheduleId : String}
    (hoff : SwitchedOff schedules scheduleId) {row : ScheduledJob}
    (hrow : row.scheduleId = scheduleId → schedules.find? scheduleId ≠ none →
      row.enabled = false) : SwitchedOff (schedules.set row) scheduleId := by
  intro r hr
  rw [Table.find?_set] at hr
  split at hr
  · next hid =>
    obtain ⟨old, hold, rfl⟩ := Option.map_eq_some_iff.mp hr
    exact hrow hid (by simp [hold])
  · exact hoff r hr

private theorem switchedOff_create {lib : Libraries} {schedules : Table ScheduledJob.scheduleId}
    {scheduleId k : String} {now : Time} {request : ScheduleCreateRequest}
    (hoff : SwitchedOff schedules scheduleId)
    (hon : (decide (k = scheduleId) && request.enabled) = false) :
    SwitchedOff (createSchedule lib schedules k now request).1 scheduleId := by
  rcases createSchedule_cases lib schedules k now request with
    heq | ⟨row, hfresh, -, hid, -, henabled, -, heq⟩
  · rw [heq]
    exact hoff
  · rw [heq]
    intro r hr
    rw [Table.find?_insert] at hr
    split at hr
    · next hkey =>
      obtain rfl := Option.some.inj hr
      rw [henabled]
      simpa [hid.symm.trans hkey] using hon
    · exact hoff r hr

/-- The schedule stays off unless a request switches it on. -/
theorem switchedOff_deskStep {lib : Libraries} {s : Desk ι} {a : DeskStep ι} {scheduleId : String}
    (hoff : SwitchedOff s.schedules scheduleId) (hon : a.switchesOn scheduleId = false) :
    SwitchedOff (deskStep lib s a).schedules scheduleId := by
  cases a with
  | tick a => exact switchedOff_moves hoff (moves_clusterStep lib.next s.cluster a)
  | create k now request => exact switchedOff_create hoff hon
  | update k now patch =>
    show SwitchedOff (updateSchedule lib s.schedules k now patch).1 scheduleId
    rw [updateSchedule_fst]
    exact hoff
  | delete k =>
    show SwitchedOff (deleteSchedule s.schedules k).1 scheduleId
    unfold deleteSchedule
    split
    · exact hoff
    · intro row hrow
      have hmem := (Table.mem_erase.mp (Table.mem_of_find? hrow)).1
      have hfind := Table.find?_of_mem hmem
      rw [Table.key_of_find? hrow] at hfind
      exact hoff row hfind
  | trigger k jobId now stampedAt delivery =>
    show SwitchedOff (triggerSchedule lib s k jobId now stampedAt delivery).1.schedules scheduleId
    rcases triggerSchedule_cases lib s k jobId now stampedAt delivery with
      ⟨world, e, -, heq⟩ | ⟨row, checked, world, response, hrow, -, heq⟩
    · rw [heq]
      exact hoff
    · rw [heq]
      show SwitchedOff (s.schedules.set _) scheduleId
      refine hoff.set fun hk _ => ?_
      have hid : row.scheduleId = scheduleId := hk
      have hfind := Table.find?_of_mem (Table.mem_of_find? hrow)
      rw [hid] at hfind
      exact hoff row hfind
  | job call => exact hoff

/-- An API call does not touch the replicas. -/
theorem cluster_deskStep (lib : Libraries) (s : Desk ι) (a : DeskStep ι) :
    (∃ cluster, Moves lib.next s.cluster cluster ∧ deskStep lib s a = ⟨s.world, cluster⟩) ∨
      ∃ world schedules, deskStep lib s a =
        ⟨world, { s.cluster with schedules := schedules }⟩ := by
  cases a with
  | tick a => exact .inl ⟨_, moves_clusterStep lib.next s.cluster a, rfl⟩
  | create => exact .inr ⟨s.world, _, rfl⟩
  | update => exact .inr ⟨s.world, _, rfl⟩
  | delete => exact .inr ⟨s.world, _, rfl⟩
  | trigger k jobId now stampedAt delivery =>
    right
    show ∃ world schedules, (triggerSchedule lib s k jobId now stampedAt delivery).1 = _
    rcases triggerSchedule_cases lib s k jobId now stampedAt delivery with
      ⟨world, e, -, heq⟩ | ⟨row, checked, world, response, -, -, heq⟩
    · exact ⟨world, s.schedules, by rw [heq]; rfl⟩
    · exact ⟨world, _, by rw [heq]; rfl⟩
  | job call => exact .inr ⟨_, s.schedules, rfl⟩

private theorem publishedBefore_moves {next : NextRun} {s s' : Cluster ι}
    (hmoves : Moves next s s') :
    s.published <+: s'.published := by
  cases hmoves with
  | publish => exact List.prefix_append _ _
  | _ => exact List.prefix_rfl

private theorem tidy_invariant (lib : Libraries) : Invariant (deskStep (ι := ι) lib) Desk.Tidy := by
  intro s a h
  rcases cluster_deskStep lib s a with ⟨cluster, hmoves, heq⟩ | ⟨world, schedules, heq⟩
  · rw [heq]
    exact tidy_moves h hmoves
  · rw [heq]
    exact ⟨h.exclusive, h.distinct⟩

/-- **One step.** While the schedule is off, what is published of it does not shrink, and does not
grow together with what is in hand. -/
theorem fires_deskStep (lib : Libraries) {s : Desk ι} (h : s.Tidy) {scheduleId : String}
    (hoff : SwitchedOff s.schedules scheduleId) (a : DeskStep ι) :
    s.fires scheduleId ≤ (deskStep lib s a).fires scheduleId ∧
      (deskStep lib s a).fires scheduleId + (deskStep lib s a).pending scheduleId ≤
        s.fires scheduleId + s.pending scheduleId := by
  rcases cluster_deskStep lib s a with ⟨cluster, hmoves, heq⟩ | ⟨world, schedules, heq⟩
  · rw [heq]
    exact ⟨((publishedBefore_moves hmoves).sublist).countP_le, fires_moves h hoff hmoves⟩
  · rw [heq]
    exact ⟨le_rfl, le_rfl⟩

/-- **A run.** -/
theorem fires_run (lib : Libraries) {s : Desk ι} (h : s.Tidy) {scheduleId : String}
    (hoff : SwitchedOff s.schedules scheduleId) {steps : List (DeskStep ι)}
    (hstays : ∀ a ∈ steps, DeskStep.switchesOn scheduleId a = false) :
    SwitchedOff (run (deskStep lib) s steps).schedules scheduleId ∧
      s.fires scheduleId ≤ (run (deskStep lib) s steps).fires scheduleId ∧
      (run (deskStep lib) s steps).fires scheduleId ≤
        s.fires scheduleId + s.pending scheduleId := by
  induction steps generalizing s with
  | nil => exact ⟨hoff, le_rfl, Nat.le_add_right _ _⟩
  | cons a steps ih =>
    obtain ⟨ha, hrest⟩ := List.forall_mem_cons.mp hstays
    obtain ⟨hgrows, hbound⟩ := fires_deskStep lib h hoff a
    obtain ⟨hend, hmore, hless⟩ :=
      ih (tidy_invariant lib s a h) (switchedOff_deskStep hoff ha) hrest
    exact ⟨hend, hgrows.trans hmore, hless.trans hbound⟩

/-- **One step.** The settings of a schedule stay as they are, unless the step deletes it. -/
theorem settings_deskStep (lib : Libraries) (s : Desk ι) {row : ScheduledJob}
    (hrow : row ∈ s.schedules.rows) {a : DeskStep ι} (hstays : a ≠ .delete row.scheduleId) :
    ∃ row' ∈ (deskStep lib s a).schedules.rows,
      ScheduledJob.settings row' = ScheduledJob.settings row := by
  have hkept : ∀ schedules : Table ScheduledJob.scheduleId,
      schedules.rows.map ScheduledJob.settings = s.schedules.rows.map ScheduledJob.settings →
        ∃ row' ∈ schedules.rows, ScheduledJob.settings row' = ScheduledJob.settings row := by
    intro schedules hmap
    exact List.mem_map.mp (hmap ▸ List.mem_map_of_mem hrow)
  cases a with
  | tick a =>
    have hmoves := moves_clusterStep lib.next s.cluster a
    show ∃ row' ∈ (clusterStep lib.next s.cluster a).schedules.rows, _
    generalize clusterStep lib.next s.cluster a = cluster at hmoves
    cases hmoves with
    | commit _ => exact hkept _ (map_foldl_apply (fun _ _ _ _ => rfl) _ _ _)
    | _ => exact ⟨row, hrow, rfl⟩
  | create k now request =>
    show ∃ row' ∈ (createSchedule lib s.schedules k now request).1.rows, _
    rcases createSchedule_cases lib s.schedules k now request with
      heq | ⟨new, hfresh, -, -, -, -, -, heq⟩
    · rw [heq]
      exact ⟨row, hrow, rfl⟩
    · rw [heq]
      exact ⟨row, (Table.mem_insert hfresh).mpr (.inr hrow), rfl⟩
  | update k now patch =>
    show ∃ row' ∈ (updateSchedule lib s.schedules k now patch).1.rows, _
    rw [updateSchedule_fst]
    exact ⟨row, hrow, rfl⟩
  | delete k =>
    show ∃ row' ∈ (deleteSchedule s.schedules k).1.rows, _
    unfold deleteSchedule
    split
    · exact ⟨row, hrow, rfl⟩
    · refine ⟨row, Table.mem_erase.mpr ⟨hrow, ?_⟩, rfl⟩
      rintro rfl
      exact hstays rfl
  | trigger k jobId now stampedAt delivery =>
    show ∃ row' ∈ (triggerSchedule lib s k jobId now stampedAt delivery).1.schedules.rows, _
    rcases triggerSchedule_cases lib s k jobId now stampedAt delivery with
      ⟨world, e, -, heq⟩ | ⟨old, checked, world, response, hold, -, heq⟩
    · rw [heq]
      exact ⟨row, hrow, rfl⟩
    · rw [heq]
      have hfind : s.schedules.find? (stampRow old stampedAt response.jobId).scheduleId =
          some old := Table.find?_of_mem (Table.mem_of_find? hold)
      exact hkept _ (Table.map_set hfind rfl)
  | job call => exact ⟨row, hrow, rfl⟩

/-- **A run.** -/
theorem settings_run (lib : Libraries) {s : Desk ι} {row : ScheduledJob}
    (hrow : row ∈ s.schedules.rows) {steps : List (DeskStep ι)}
    (hstays : ∀ a ∈ steps, a ≠ .delete row.scheduleId) :
    ∃ row' ∈ (run (deskStep lib) s steps).schedules.rows,
      ScheduledJob.settings row' = ScheduledJob.settings row := by
  induction steps generalizing s row with
  | nil => exact ⟨row, hrow, rfl⟩
  | cons a steps ih =>
    obtain ⟨ha, hrest⟩ := List.forall_mem_cons.mp hstays
    obtain ⟨mid, hmid, hsame⟩ := settings_deskStep lib s hrow ha
    have hid : mid.scheduleId = row.scheduleId := congrArg Settings.scheduleId hsame
    obtain ⟨row', hrow', hend⟩ := ih hmid (hid ▸ hrest)
    exact ⟨row', hrow', hend.trans hsame⟩

/-- **Only a deletion ends a schedule.** Whatever was called and however the replicas interleave:
until a request deletes it, a stored schedule keeps the columns that it was created with. After the
deletion, until a request creates an enabled schedule with the id, at most one more event of it is
published, and none if no tick had selected it before. -/
theorem schedule_lives_until_deleted (lib : Libraries) (clock : Time)
    (before after : List (DeskStep ι)) :
    let s := run (deskStep lib) (Desk.start clock) before
    (∀ row ∈ s.schedules.rows, (∀ a ∈ after, a ≠ .delete row.scheduleId) →
      ∃ row' ∈ (run (deskStep lib) s after).schedules.rows,
        ScheduledJob.settings row' = ScheduledJob.settings row) ∧
    ∀ scheduleId, (∀ a ∈ after, DeskStep.switchesOn scheduleId a = false) →
      let deleted := deskStep lib s (.delete scheduleId)
      let t := run (deskStep lib) deleted after
      SwitchedOff t.schedules scheduleId ∧ t.fires scheduleId ≤ deleted.fires scheduleId + 1 ∧
        ((∀ i, ∀ row ∈ (deleted.cluster.phase i).rest, row.scheduleId ≠ scheduleId) →
          t.fires scheduleId = deleted.fires scheduleId) := by
  intro s
  refine ⟨fun row hrow hstays => settings_run lib hrow hstays, fun scheduleId hstays => ?_⟩
  intro deleted t
  have htidy : deleted.Tidy :=
    tidy_invariant lib _ (.delete scheduleId) ((tidy_invariant lib).run (tidy_start clock) before)
  obtain ⟨hend, hgrows, hbound⟩ :=
    fires_run lib htidy (switchedOff_delete s.schedules scheduleId) hstays
  refine ⟨hend, ?_, fun hnone => ?_⟩
  · exact hbound.trans (Nat.add_le_add_left (htidy.pending_le_one scheduleId) _)
  · have hpending : deleted.pending scheduleId = 0 := by
      unfold Desk.pending
      cases deleted.cluster.lease with
      | none => rfl
      | some i =>
        exact List.countP_eq_zero.mpr fun row hrow hid =>
          hnone i row hrow (of_decide_eq_true hid)
    rw [hpending] at hbound
    exact le_antisymm hbound hgrows

end Steps

/-- A schedule is selected by a tick. -/
def selectedByTick : List (DeskStep Bool) :=
  [.create "s-1" 0
      { name := "nightly", cronExpression := "* * * * *", jobTemplate := nightlyRequest },
    .tick (.elapse 100), .tick (.tryLock true 100),
    .tick (.select true ⟨id, fun rows => List.Perm.refl rows⟩)]

/-- The tick goes on. -/
def endOfTick : List (DeskStep Bool) :=
  [.tick (.publish true "job-1" .delivered), .tick (.update true), .tick (.commit true),
    .tick (.unlock true)]

/-- A schedule that is disabled and then deleted while a tick has it in hand: the `PATCH` fails, and
the tick fires the schedule once more. -/
theorem schedule_lives_until_deleted_in_hand :
    let s := run (deskStep plainLibraries) (Desk.start 0)
      (selectedByTick ++ [.update "s-1" 100 { enabled := some false }])
    let deleted := deskStep plainLibraries s (.delete "s-1")
    let t := run (deskStep plainLibraries) deleted endOfTick
    s.schedules.rows.map ScheduledJob.enabled = [true] ∧
      SwitchedOff t.schedules "s-1" ∧ deleted.fires "s-1" = 0 ∧ t.fires "s-1" = 1 := by
  have hstays : ∀ a ∈ endOfTick, DeskStep.switchesOn "s-1" a = false := by
    simp [endOfTick, DeskStep.switchesOn]
  obtain ⟨-, hdeleted⟩ := schedule_lives_until_deleted plainLibraries 0
    (selectedByTick ++ [.update "s-1" 100 { enabled := some false }]) endOfTick
  exact ⟨by decide, (hdeleted "s-1" hstays).1, by decide, by decide⟩

end DataHarbour.System
