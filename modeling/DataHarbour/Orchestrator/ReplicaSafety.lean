import DataHarbour.Orchestrator.Replicas

/-!
# Replicas fire once

Mutual exclusion alone does not rule out a second fire: what counts is that the lock is held until
after the commit, so that the rows which a tick selects are already advanced past everything that
was published before.
-/

namespace DataHarbour.Orchestrator

open Python Relational Machine JobService

variable {ι : Type*}

/-! ## The invariant -/

/-- The rows that are still to be fired. -/
def TickPhase.rest : TickPhase → List ScheduledJob
  | .firing _ rows _ => rows
  | .advancing _ _ _ rows _ => rows
  | _ => []

/-- The `UPDATE`s that are not committed yet. -/
def TickPhase.updates : TickPhase → List Advance
  | .firing _ _ updates => updates
  | .advancing _ _ _ _ updates => updates
  | _ => []

/-- The schedules whose event is published and whose `UPDATE` is not committed. -/
def TickPhase.fired : TickPhase → List String
  | .firing _ _ updates => updates.map Advance.scheduleId
  | .advancing _ row _ _ updates => row.scheduleId :: updates.map Advance.scheduleId
  | _ => []

/-- What is true of a tick in this phase: its remaining rows are the committed ones and due, no
schedule occurs twice, and its `UPDATE`s lead past all that is published. -/
structure TickPhase.Sound (phase : TickPhase) (s : Cluster ι) : Prop where
  started : ∀ now, phase = .leased now → now ≤ s.clock
  rest : ∀ row ∈ phase.rest,
    s.schedules.find? row.scheduleId = some row ∧ row.nextRunAt ≤ s.clock
  distinct : (phase.fired ++ phase.rest.map ScheduledJob.scheduleId).Nodup
  later : ∀ u ∈ phase.updates, ∀ f ∈ s.published, f.1.scheduleId = u.scheduleId →
    f.1.nextRunAt < u.next

/-- The due value for which an event was published. -/
def dueValue (f : ScheduledJob × JobId) : String × Time := (f.1.scheduleId, f.1.nextRunAt)

/-- The committed row of a published schedule is past the published due value. -/
def Cluster.Settled (s : Cluster ι) (f : ScheduledJob × JobId) : Prop :=
  ∀ row, s.schedules.find? f.1.scheduleId = some row → f.1.nextRunAt < row.nextRunAt

/-- The invariant of the replicas. -/
structure Orderly (s : Cluster ι) : Prop where
  /-- Whoever is inside a tick holds the lock. -/
  exclusive : ∀ i, s.phase i ≠ .idle → s.lease = some i
  sound : ∀ i, (s.phase i).Sound s
  past : ∀ f ∈ s.published, f.1.nextRunAt ≤ s.clock
  settled : ∀ f ∈ s.published, (∃ i, f.1.scheduleId ∈ (s.phase i).fired) ∨ s.Settled f
  once : (s.published.map dueValue).Nodup

/-- Outside a tick there is nothing to keep. -/
theorem TickPhase.sound_idle (s : Cluster ι) : TickPhase.idle.Sound s :=
  ⟨by simp, by simp [rest], by simp [fired, rest], by simp [updates]⟩

/-- After its updates a tick has nothing left to keep. -/
theorem TickPhase.sound_ended (s : Cluster ι) : TickPhase.ended.Sound s :=
  ⟨by simp, by simp [rest], by simp [fired, rest], by simp [updates]⟩

namespace Orderly

variable {s : Cluster ι} {i : ι}

/-- While one replica is inside a tick, the others are not. -/
theorem idle_of_ne (h : Orderly s) (hi : s.phase i ≠ .idle) {k : ι} (hk : k ≠ i) :
    s.phase k = .idle := by
  by_contra hinside
  exact hk (Option.some.inj ((h.exclusive k hinside).symm.trans (h.exclusive i hi)))

/-- What is published and not settled is in the hand of the replica inside. -/
theorem settled_of_inside (h : Orderly s) (hi : s.phase i ≠ .idle) {f : ScheduledJob × JobId}
    (hf : f ∈ s.published) : f.1.scheduleId ∈ (s.phase i).fired ∨ s.Settled f := by
  rcases h.settled f hf with ⟨k, hk⟩ | hsettled
  · by_cases hki : k = i
    · exact .inl (hki ▸ hk)
    · rw [h.idle_of_ne hi hki] at hk
      exact absurd hk List.not_mem_nil
  · exact .inr hsettled

/-- The replica inside a tick moves on. -/
theorem enter [DecidableEq ι] (h : Orderly s) (hi : s.phase i ≠ .idle) {t : Cluster ι}
    {phase : TickPhase} (hphase : t.phase = s.phase) (hlease : t.lease = s.lease)
    (hsound : phase.Sound t) (hpast : ∀ f ∈ t.published, f.1.nextRunAt ≤ t.clock)
    (hsettled : ∀ f ∈ t.published, f.1.scheduleId ∈ phase.fired ∨ t.Settled f)
    (honce : (t.published.map dueValue).Nodup) : Orderly (t.enter i phase) := by
  have hother : ∀ k, k ≠ i → (t.enter i phase).phase k = .idle := by
    intro k hk
    rw [enter_phase_of_ne hk, hphase, h.idle_of_ne hi hk]
  constructor
  · intro k hk
    by_cases hki : k = i
    · rw [hki]
      exact hlease.trans (h.exclusive i hi)
    · exact absurd (hother k hki) hk
  · intro k
    by_cases hki : k = i
    · rw [hki, enter_phase_self]
      exact ⟨hsound.started, hsound.rest, hsound.distinct, hsound.later⟩
    · rw [hother k hki]
      exact TickPhase.sound_idle _
  · exact hpast
  · intro f hf
    rcases hsettled f hf with hfired | hsettled
    · left
      exact ⟨i, by rwa [enter_phase_self]⟩
    · exact .inr hsettled
  · exact honce

end Orderly

/-! ## The `UPDATE`s of a tick -/

/-- An update of a tick changes the row it is about and no other. -/
theorem find?_apply (now : Time) (schedules : Table ScheduledJob.scheduleId) (u : Advance)
    (k : String) : (u.apply now schedules).find? k =
      if u.scheduleId = k then (schedules.find? k).map (·.advance now u.jobId u.next)
      else schedules.find? k := by
  unfold Advance.apply
  cases hfind : schedules.find? u.scheduleId with
  | none =>
    by_cases hk : u.scheduleId = k
    · rw [if_pos hk, ← hk, hfind]
      rfl
    · rw [if_neg hk]
  | some row =>
    have hkey : row.scheduleId = u.scheduleId := Table.key_of_find? hfind
    simp only
    rw [Table.find?_set, advance_scheduleId, hkey]
    by_cases hk : u.scheduleId = k
    · rw [if_pos hk, if_pos hk, ← hk, hfind]
      rfl
    · rw [if_neg hk, if_neg hk]

/-- A row after the `UPDATE`s of a tick: one of them reached it, or it is as before. -/
theorem find?_foldl_apply {now : Time} {updates : List Advance}
    {schedules : Table ScheduledJob.scheduleId} {k : String} {row : ScheduledJob}
    (h : (updates.foldl (Advance.apply now) schedules).find? k = some row) :
    (∃ u ∈ updates, u.scheduleId = k ∧ row.nextRunAt = u.next) ∨
      k ∉ updates.map Advance.scheduleId ∧ schedules.find? k = some row := by
  induction updates generalizing schedules with
  | nil => exact .inr ⟨List.not_mem_nil, h⟩
  | cons u updates ih =>
    rcases ih h with ⟨v, hv, hid, hnext⟩ | ⟨hnone, hrow⟩
    · exact .inl ⟨v, List.mem_cons_of_mem u hv, hid, hnext⟩
    · rw [find?_apply] at hrow
      by_cases hk : u.scheduleId = k
      · rw [if_pos hk] at hrow
        obtain ⟨old, -, rfl⟩ := Option.map_eq_some_iff.mp hrow
        exact .inl ⟨u, List.mem_cons_self, hk, rfl⟩
      · rw [if_neg hk] at hrow
        refine .inr ⟨?_, hrow⟩
        rw [List.map_cons, List.mem_cons, not_or]
        exact ⟨Ne.symm hk, hnone⟩

/-- What the `UPDATE`s of a tick keep of every row, its key given, holds after all of them. -/
theorem forall_foldl_apply {now : Time} {updates : List Advance}
    {schedules : Table ScheduledJob.scheduleId} {P : String → ScheduledJob → Prop}
    (h : ∀ k row, schedules.find? k = some row → P k row)
    (hupdates : ∀ u ∈ updates, ∀ row, P u.scheduleId row →
      P u.scheduleId (row.advance now u.jobId u.next)) {k : String} {row : ScheduledJob}
    (hrow : (updates.foldl (Advance.apply now) schedules).find? k = some row) : P k row := by
  induction updates generalizing schedules with
  | nil => exact h k row hrow
  | cons u updates ih =>
    have hrest : ∀ v ∈ updates, ∀ row, P v.scheduleId row →
        P v.scheduleId (row.advance now v.jobId v.next) := fun v hv =>
      hupdates v (List.mem_cons_of_mem u hv)
    refine ih (fun k row hfind => ?_) hrest hrow
    rw [find?_apply] at hfind
    split at hfind
    · next hk =>
      obtain ⟨old, hold, rfl⟩ := Option.map_eq_some_iff.mp hfind
      rw [← hk] at hold ⊢
      exact hupdates u List.mem_cons_self old (h _ old hold)
    · exact h k row hfind

/-! ## The next run of a schedule -/

/-- The next run can be computed at any time and is later than that time. -/
def ScheduledJob.Reschedules (next : NextRun) (row : ScheduledJob) : Prop :=
  ∀ now, ∃ time, next row.cronExpression row.timezone now = .ok time ∧ now < time

/-- The rows that a tick has selected and not updated. -/
def TickPhase.selected : TickPhase → List ScheduledJob
  | .firing _ rows _ => rows
  | .advancing _ row _ rows _ => row :: rows
  | _ => []

/-- The stored and the selected rows can all be rescheduled. -/
structure Reschedulable (next : NextRun) (s : Cluster ι) : Prop where
  stored : ∀ k row, s.schedules.find? k = some row → row.Reschedules next
  selected : ∀ i, ∀ row ∈ (s.phase i).selected, row.Reschedules next

/-- An `UPDATE` leaves the cron expression and the timezone of a row alone. -/
theorem reschedules_foldl_apply {next : NextRun} {now : Time} {updates : List Advance}
    {schedules : Table ScheduledJob.scheduleId}
    (h : ∀ k row, schedules.find? k = some row → row.Reschedules next) {k : String}
    {row : ScheduledJob} (hrow : (updates.foldl (Advance.apply now) schedules).find? k = some row) :
    row.Reschedules next :=
  forall_foldl_apply (P := fun _ row => row.Reschedules next) h (fun _ _ _ hold => hold) hrow

/-- A phase whose rows can be rescheduled may be entered. -/
theorem Reschedulable.enter [DecidableEq ι] {next : NextRun} {s : Cluster ι}
    (h : Reschedulable next s) {t : Cluster ι} {i : ι} {phase : TickPhase}
    (hphase : t.phase = s.phase)
    (hstored : ∀ k row, t.schedules.find? k = some row → row.Reschedules next)
    (hselected : ∀ row ∈ phase.selected, row.Reschedules next) :
    Reschedulable next (t.enter i phase) := by
  refine ⟨hstored, fun k => ?_⟩
  by_cases hk : k = i
  · rw [hk, enter_phase_self]
    exact hselected
  · rw [enter_phase_of_ne hk, hphase]
    exact h.selected k

private theorem reschedulable_moves [DecidableEq ι] {next : NextRun} {s s' : Cluster ι}
    (h : Reschedulable next s) (hmoves : Moves next s s') : Reschedulable next s' := by
  have hnone : ∀ row ∈ ([] : List ScheduledJob), row.Reschedules next := by simp
  cases hmoves with
  | stay => exact h
  | elapse duration => exact ⟨h.stored, h.selected⟩
  | acquire _ _ _ => exact h.enter rfl h.stored hnone
  | select scan _ =>
    refine h.enter rfl h.stored fun row hrow => ?_
    have hmem := (scan.perm _).mem_iff.mp (mem_dueRows hrow).1
    exact h.stored _ row (Table.find?_of_mem hmem)
  | @skip i _ row _ _ hphase =>
    refine h.enter rfl h.stored fun other hother => h.selected i other ?_
    rw [hphase]
    exact List.mem_cons_of_mem row hother
  | @publish i _ _ _ _ _ hphase =>
    refine h.enter rfl h.stored fun other hother => h.selected i other ?_
    rw [hphase]
    exact hother
  | @update i _ row _ _ _ _ hphase _ =>
    refine h.enter rfl h.stored fun other hother => h.selected i other ?_
    rw [hphase]
    exact List.mem_cons_of_mem row hother
  | raise _ _ => exact h.enter rfl h.stored hnone
  | commit _ => exact h.enter rfl (fun k row hrow => reschedules_foldl_apply h.stored hrow) hnone
  | unlock _ => exact h.enter rfl h.stored hnone

/-! ## Every step keeps the invariant -/

variable {s : Cluster ι} {i : ι}

private theorem orderly_elapse (h : Orderly s) (duration : ℕ) :
    Orderly { s with clock := s.clock + duration } := by
  have hclock : s.clock ≤ s.clock + duration := Nat.le_add_right _ _
  constructor
  · exact h.exclusive
  · intro i
    obtain ⟨hstarted, hrest, hdistinct, hlater⟩ := h.sound i
    refine ⟨fun now hnow => ?_, fun row hrow => ?_, hdistinct, hlater⟩
    · exact (hstarted now hnow).trans hclock
    · exact ⟨(hrest row hrow).1, (hrest row hrow).2.trans hclock⟩
  · exact fun f hf => (h.past f hf).trans hclock
  · exact h.settled
  · exact h.once

/-- The row that is published next has not been published for its due value before. -/
theorem Orderly.not_fired (h : Orderly s) {now : Time} {row : ScheduledJob}
    {rows : List ScheduledJob} {updates : List Advance}
    (hphase : s.phase i = .firing now (row :: rows) updates) {f : ScheduledJob × JobId}
    (hf : f ∈ s.published) (hid : f.1.scheduleId = row.scheduleId) :
    f.1.nextRunAt < row.nextRunAt := by
  have hi : s.phase i ≠ .idle := by simp [hphase]
  obtain ⟨-, hrest, hdistinct, -⟩ := hphase ▸ h.sound i
  rcases h.settled_of_inside hi hf with hfired | hsettled
  · rw [hphase, hid] at hfired
    have hdisjoint := (List.nodup_append.mp hdistinct).2.2
    exact absurd rfl (hdisjoint _ hfired _ List.mem_cons_self)
  · apply hsettled row
    rw [hid]
    exact (hrest row List.mem_cons_self).1

section Preservation

variable [DecidableEq ι]

private theorem orderly_acquire (h : Orderly s) {now : Time} (hfree : s.lease = none)
    (hnow : now ≤ s.clock) : Orderly ({ s with lease := some i }.enter i (.leased now)) := by
  have hall : ∀ k, s.phase k = .idle := by
    intro k
    by_contra hinside
    have hlease := h.exclusive k hinside
    simp [hfree] at hlease
  have hother : ∀ k, k ≠ i →
      ({ s with lease := some i }.enter i (.leased now)).phase k = .idle := by
    intro k hk
    rw [enter_phase_of_ne hk]
    exact hall k
  constructor
  · intro k hk
    by_cases hki : k = i
    · rw [hki]
      rfl
    · exact absurd (hother k hki) hk
  · intro k
    by_cases hki : k = i
    · rw [hki, enter_phase_self]
      refine ⟨fun t ht => ?_, ?_, ?_, ?_⟩
      · obtain rfl := TickPhase.leased.inj ht
        exact hnow
      · simp [TickPhase.rest]
      · simp [TickPhase.fired, TickPhase.rest]
      · simp [TickPhase.updates]
    · rw [hother k hki]
      exact TickPhase.sound_idle _
  · exact h.past
  · intro f hf
    rcases h.settled f hf with ⟨k, hk⟩ | hsettled
    · rw [hall k] at hk
      exact absurd hk List.not_mem_nil
    · exact .inr hsettled
  · exact h.once

/-- The selected rows are the committed ones, so that all that is published before is settled. -/
theorem orderly_select (h : Orderly s) {now : Time} (scan : Scan)
    (hphase : s.phase i = .leased now) :
    Orderly (s.enter i (.firing now (dueRows now (scan.order s.schedules.rows)) [])) := by
  have hi : s.phase i ≠ .idle := by simp [hphase]
  have hperm := scan.perm s.schedules.rows
  apply h.enter hi rfl rfl
  · constructor
    · simp
    · intro row hrow
      obtain ⟨hmem, hdue⟩ := mem_dueRows hrow
      refine ⟨Table.find?_of_mem (hperm.mem_iff.mp hmem), ?_⟩
      exact (nextRunAt_le_of_due hdue).trans ((h.sound i).started now hphase)
    · have hkeys : ((scan.order s.schedules.rows).map ScheduledJob.scheduleId).Nodup :=
        (hperm.map _).nodup_iff.mpr s.schedules.nodup
      simpa [TickPhase.fired, TickPhase.rest] using nodup_dueRows hkeys
    · simp [TickPhase.updates]
  · exact h.past
  · intro f hf
    have hbefore := h.settled_of_inside hi hf
    rw [hphase] at hbefore
    exact .inr (hbefore.resolve_left List.not_mem_nil)
  · exact h.once

/-- A failed publish leaves the row to a later tick. -/
theorem orderly_skip (h : Orderly s) {now : Time} {row : ScheduledJob} {rows : List ScheduledJob}
    {updates : List Advance} (hphase : s.phase i = .firing now (row :: rows) updates) :
    Orderly (s.enter i (.firing now rows updates)) := by
  have hi : s.phase i ≠ .idle := by simp [hphase]
  obtain ⟨-, hrest, hdistinct, hlater⟩ := hphase ▸ h.sound i
  apply h.enter hi rfl rfl
  · refine ⟨by simp, fun next hnext => ?_, ?_, hlater⟩
    · exact hrest next (List.mem_cons_of_mem row hnext)
    · exact hdistinct.sublist ((List.sublist_cons_self _ _).append_left _)
  · exact h.past
  · intro f hf
    have hbefore := h.settled_of_inside hi hf
    rwa [hphase] at hbefore
  · exact h.once

private theorem orderly_publish (h : Orderly s) {now : Time} {row : ScheduledJob}
    {rows : List ScheduledJob} {updates : List Advance} (jobId : JobId)
    (hphase : s.phase i = .firing now (row :: rows) updates) :
    Orderly ({ s with published := s.published ++ [(row, jobId)] }.enter i
      (.advancing now row jobId rows updates)) := by
  have hi : s.phase i ≠ .idle := by simp [hphase]
  obtain ⟨-, hrest, hdistinct, hlater⟩ := hphase ▸ h.sound i
  have hmem : ∀ f ∈ s.published ++ [(row, jobId)], f ∈ s.published ∨ f = (row, jobId) := by
    intro f hf
    simpa using hf
  -- the row moves from the rows that are left to those that are fired
  have hmoved : ((row.scheduleId :: updates.map Advance.scheduleId) ++
      rows.map ScheduledJob.scheduleId).Nodup :=
    (List.perm_middle.nodup_iff).mp hdistinct
  apply h.enter (t := { s with published := s.published ++ [(row, jobId)] }) hi rfl rfl
  · refine ⟨by simp, fun next hnext => hrest next (List.mem_cons_of_mem row hnext), hmoved, ?_⟩
    intro u hu f hf hid
    rcases hmem f hf with hold | rfl
    · exact hlater u hu f hold hid
    · have hfresh := (List.nodup_cons.mp hmoved).1
      exact absurd (List.mem_append_left _ (hid ▸ List.mem_map_of_mem hu)) hfresh
  · intro f hf
    rcases hmem f hf with hold | rfl
    · exact h.past f hold
    · exact (hrest row List.mem_cons_self).2
  · intro f hf
    rcases hmem f hf with hold | rfl
    · have hbefore := h.settled_of_inside hi hold
      rw [hphase] at hbefore
      exact hbefore.imp_left (List.mem_cons_of_mem _)
    · exact .inl List.mem_cons_self
  · rw [List.map_append]
    refine List.nodup_append.mpr ⟨h.once, List.nodup_singleton _, ?_⟩
    intro key hkey value hvalue heq
    obtain ⟨f, hf, rfl⟩ := List.mem_map.mp hkey
    rw [List.map_singleton, List.mem_singleton] at hvalue
    rw [hvalue] at heq
    obtain ⟨hid, hdue⟩ := Prod.mk.inj heq
    exact absurd hdue (h.not_fired hphase hf hid).ne

private theorem orderly_update (h : Orderly s) {now : Time} {row : ScheduledJob} {jobId : JobId}
    {rows : List ScheduledJob} {updates : List Advance} {time : Time}
    (hphase : s.phase i = .advancing now row jobId rows updates) (htime : s.clock < time) :
    Orderly (s.enter i (.firing now rows (updates ++ [⟨row.scheduleId, jobId, time⟩]))) := by
  have hi : s.phase i ≠ .idle := by simp [hphase]
  obtain ⟨-, hrest, hdistinct, hlater⟩ := hphase ▸ h.sound i
  let update : Advance := ⟨row.scheduleId, jobId, time⟩
  have hids : (updates ++ [update]).map Advance.scheduleId =
      updates.map Advance.scheduleId ++ [row.scheduleId] := by simp [update]
  apply h.enter hi rfl rfl
  · refine ⟨by simp, hrest, ?_, ?_⟩
    · have hperm := (List.perm_append_singleton row.scheduleId
        (updates.map Advance.scheduleId)).append_right (rows.map ScheduledJob.scheduleId)
      rw [← hids] at hperm
      exact hperm.nodup_iff.mpr hdistinct
    · intro u hu f hf hid
      rcases List.mem_append.mp hu with hold | hnew
      · exact hlater u hold f hf hid
      · rw [List.mem_singleton.mp hnew]
        exact (h.past f hf).trans_lt htime
  · exact h.past
  · intro f hf
    have hbefore := h.settled_of_inside hi hf
    rw [hphase] at hbefore
    refine hbefore.imp_left fun hfired => ?_
    change f.1.scheduleId ∈ (updates ++ [update]).map Advance.scheduleId
    rw [hids]
    exact (List.perm_append_singleton _ _).mem_iff.mpr hfired
  · exact h.once

/-- The commit settles all that the tick has published. -/
theorem orderly_commit (h : Orderly s) {now : Time} {updates : List Advance}
    (hphase : s.phase i = .firing now [] updates) :
    Orderly ({ s with schedules := updates.foldl (Advance.apply now) s.schedules }.enter i
      .ended) := by
  have hi : s.phase i ≠ .idle := by simp [hphase]
  obtain ⟨-, -, -, hlater⟩ := hphase ▸ h.sound i
  apply h.enter (t := { s with schedules := updates.foldl (Advance.apply now) s.schedules }) hi
    rfl rfl
  · exact TickPhase.sound_ended _
  · exact h.past
  · intro f hf
    refine .inr fun row hrow => ?_
    rcases find?_foldl_apply hrow with ⟨u, hu, hid, hnext⟩ | ⟨hnone, hold⟩
    · rw [hnext]
      exact hlater u hu f hf hid.symm
    · have hbefore := h.settled_of_inside hi hf
      rw [hphase] at hbefore
      exact hbefore.resolve_left hnone row hold
  · exact h.once

private theorem orderly_unlock (h : Orderly s) (hphase : s.phase i = .ended) :
    Orderly ({ s with lease := if s.lease = some i then none else s.lease }.enter i .idle) := by
  have hi : s.phase i ≠ .idle := by simp [hphase]
  have hall : ∀ k, ({ s with lease := if s.lease = some i then none else s.lease }.enter i
      .idle).phase k = .idle := by
    intro k
    by_cases hk : k = i
    · rw [hk, enter_phase_self]
    · rw [enter_phase_of_ne hk]
      exact h.idle_of_ne hi hk
  constructor
  · exact fun k hk => absurd (hall k) hk
  · intro k
    rw [hall k]
    exact TickPhase.sound_idle _
  · exact h.past
  · intro f hf
    have hbefore := h.settled_of_inside hi hf
    rw [hphase] at hbefore
    exact .inr (hbefore.resolve_left List.not_mem_nil)
  · exact h.once

private theorem orderly_moves {next : NextRun} (h : Orderly s) (hnext : Reschedulable next s)
    {s' : Cluster ι} (hmoves : Moves next s s') : Orderly s' := by
  have hlater : ∀ {k now row jobId rows updates},
      s.phase k = .advancing now row jobId rows updates → row.Reschedules next := by
    intro k now row jobId rows updates hphase
    apply hnext.selected k row
    rw [hphase]
    exact List.mem_cons_self
  cases hmoves with
  | stay => exact h
  | elapse duration => exact orderly_elapse h duration
  | acquire _ hfree hnow => exact orderly_acquire h hfree hnow
  | select scan hphase => exact orderly_select h scan hphase
  | skip hphase => exact orderly_skip h hphase
  | publish jobId hphase => exact orderly_publish h jobId hphase
  | update hphase htime =>
    obtain ⟨time, hok, hlt⟩ := hlater hphase s.clock
    obtain rfl := Except.ok.inj (hok.symm.trans htime)
    exact orderly_update h hphase hlt
  | raise hphase hraised =>
    obtain ⟨time, hok, -⟩ := hlater hphase s.clock
    cases hok.symm.trans hraised
  | commit hphase => exact orderly_commit h hphase
  | unlock hphase => exact orderly_unlock h hphase

/-- Both invariants are kept by every step of every replica. -/
theorem orderly_invariant (next : NextRun) :
    Invariant (clusterStep (ι := ι) next) fun s => Orderly s ∧ Reschedulable next s := by
  intro s a ⟨h, hnext⟩
  have hmoves := moves_clusterStep next s a
  exact ⟨orderly_moves h hnext hmoves, reschedulable_moves hnext hmoves⟩

end Preservation

/-! ## Runs of the replicas -/

/-- Replicas that have not started a tick. -/
def Cluster.start (schedules : Table ScheduledJob.scheduleId) (clock : Time) : Cluster ι :=
  { schedules := schedules, clock := clock }

/-- At most one replica is between acquiring and releasing the lock. -/
def Cluster.Exclusive (s : Cluster ι) : Prop :=
  ∀ i k, s.phase i ≠ .idle → s.phase k ≠ .idle → i = k

/-- No two events are published for one schedule and one due value. -/
def Cluster.FiredOnce (s : Cluster ι) : Prop :=
  (s.published.map dueValue).Nodup

/-- Orderly replicas tick one at a time and fire each due time once. -/
theorem Orderly.safe {s : Cluster ι} (h : Orderly s) : s.Exclusive ∧ s.FiredOnce :=
  ⟨fun i k hi hk => Option.some.inj ((h.exclusive i hi).symm.trans (h.exclusive k hk)), h.once⟩

private theorem orderly_start (schedules : Table ScheduledJob.scheduleId) (clock : Time) :
    Orderly (Cluster.start schedules clock : Cluster ι) where
  exclusive _ hi := absurd rfl hi
  sound _ := TickPhase.sound_idle _
  past _ hf := absurd hf List.not_mem_nil
  settled _ hf := absurd hf List.not_mem_nil
  once := List.nodup_nil

/-- **Replicas never fire twice.** In every interleaving of the ticks of any number of replicas,
at most one replica is inside the locked part, and no schedule is published twice for one
due value. -/
theorem replicas_fire_once [DecidableEq ι] {next : NextRun}
    {schedules : Table ScheduledJob.scheduleId}
    (hnext : ∀ row ∈ schedules.rows, row.Reschedules next) (clock : Time)
    (steps : List (ClusterStep ι)) :
    (run (clusterStep next) (Cluster.start schedules clock) steps).Exclusive ∧
      (run (clusterStep next) (Cluster.start schedules clock) steps).FiredOnce := by
  have hstart : Reschedulable next (Cluster.start schedules clock : Cluster ι) :=
    ⟨fun k row hrow => hnext row (List.mem_of_find?_eq_some hrow),
      fun i row hrow => absurd hrow List.not_mem_nil⟩
  exact ((orderly_invariant next).run ⟨orderly_start schedules clock, hstart⟩ steps).1.safe

/-- `croniter` for the expression `* * * * *`, with times in seconds. -/
def everyMinute : NextRun := fun _ _ now => .ok ((now / 60 + 1) * 60)

private theorem reschedules_everyMinute (row : ScheduledJob) : row.Reschedules everyMinute := by
  have hlater : ∀ n : ℕ, n < (n / 60 + 1) * 60 := by
    intro n
    omega
  exact fun now => ⟨(now / 60 + 1) * 60, rfl, hlater now⟩

/-- Two replicas, the second of which starts its tick when the first has committed. -/
theorem replicas_fire_once_two :
    let schedules : Table ScheduledJob.scheduleId :=
      ⟨[{ scheduleId := "s-1", name := "report", cronExpression := "* * * * *", jobTemplate := [],
          nextRunAt := 60 }], List.nodup_singleton _⟩
    let scan : Scan := ⟨id, fun rows => List.Perm.refl rows⟩
    let steps : List (ClusterStep Bool) := [.tryLock true 70, .tryLock false 70,
      .select true scan, .publish true "job-1" .delivered, .update true, .commit true,
      .unlock true, .tryLock false 70, .select false scan]
    (run (clusterStep everyMinute) (Cluster.start schedules 70) steps).Exclusive ∧
      (run (clusterStep everyMinute) (Cluster.start schedules 70) steps).FiredOnce := by
  intro schedules scan steps
  exact replicas_fire_once (fun row _ => reschedules_everyMinute row) 70 steps

end DataHarbour.Orchestrator
