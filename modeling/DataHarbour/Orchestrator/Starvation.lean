import DataHarbour.Machine.Progress
import DataHarbour.Orchestrator.ReplicaSafety
import DataHarbour.Relational.Queries

/-!
# Which due schedules get their turn?

A tick selects 50 rows, and a row whose publish fails stays due and keeps its place at the front.
As long as fewer than 50 failing schedules are due before a schedule, enough ticks publish it;
once 50 of them are, it is never selected again.
-/

namespace DataHarbour.Orchestrator

open Python Relational Machine JobService

variable {ι : Type*}

/-! ## The rows before a schedule -/

/-- `x` is another enabled schedule that is due no later than `r`. -/
def ScheduledJob.ahead (x r : ScheduledJob) : Bool :=
  x.enabled && decide (x.nextRunAt ≤ r.nextRunAt) && decide (x.scheduleId ≠ r.scheduleId)

private theorem ahead_iff {x r : ScheduledJob} : x.ahead r = true ↔
    x.enabled = true ∧ x.nextRunAt ≤ r.nextRunAt ∧ x.scheduleId ≠ r.scheduleId := by
  simp [ScheduledJob.ahead, and_assoc]

/-- The number of schedules before `r` with a property. -/
def Cluster.ahead (s : Cluster ι) (r : ScheduledJob) (p : String → Bool) : ℕ :=
  s.schedules.countRows fun x => x.ahead r && p x.scheduleId

/-- The row whose publish is the next step of the loop. -/
def TickPhase.nextRow : TickPhase → Option ScheduledJob
  | .firing _ (row :: _) _ => some row
  | _ => none

/-- A publish fails only for a failing schedule. -/
def FailsOnly (failing : String → Bool) (s : Cluster ι) : ClusterStep ι → Prop
  | .publish i _ .failed => ∀ row ∈ (s.phase i).nextRow, failing row.scheduleId = true
  | _ => True

/-- A publish succeeds only for a schedule that is not failing. -/
def SucceedsOnly (failing : String → Bool) (s : Cluster ι) : ClusterStep ι → Prop
  | .publish i _ .delivered => ∀ row ∈ (s.phase i).nextRow, failing row.scheduleId = false
  | _ => True

/-- The commit of a tick that began at `time` or later. -/
def commitsFrom (time : Time) (s : Cluster ι) : ClusterStep ι → Bool
  | .commit i =>
    match s.phase i with
    | .firing now [] _ => decide (time ≤ now)
    | _ => false
  | _ => false

/-- The event for the row as it is stored is published. -/
def Cluster.Fired (s : Cluster ι) (r : ScheduledJob) : Prop :=
  ∃ jobId, (r, jobId) ∈ s.published

/-! ## The loop of a tick -/

/-- What the loop of a tick keeps: every selected schedule is skipped as a failing one, fired, or
still to come. -/
structure LoopCovers (schedules : Table ScheduledJob.scheduleId) (failing : String → Bool)
    (now : Time) (fired : List String) (rest : List ScheduledJob) (updates : List Advance) :
    Prop where
  covers : ∃ (scan : Scan) (skipped : List String), (∀ k ∈ skipped, failing k = true) ∧
    (skipped ++ (fired ++ rest.map ScheduledJob.scheduleId)).Perm
      ((dueRows now (scan.order schedules.rows)).map ScheduledJob.scheduleId)
  stored : ∀ row ∈ rest, row ∈ schedules.rows
  later : ∀ u ∈ updates, now < u.next

/-- The same, for the phase of a replica. -/
def TickPhase.Covered (schedules : Table ScheduledJob.scheduleId) (clock : Time)
    (failing : String → Bool) : TickPhase → Prop
  | .leased now => now ≤ clock
  | .firing now rows updates =>
    now ≤ clock ∧ LoopCovers schedules failing now (updates.map Advance.scheduleId) rows updates
  | .advancing now row _ rows updates => now ≤ clock ∧
    LoopCovers schedules failing now (row.scheduleId :: updates.map Advance.scheduleId) rows
      updates
  | _ => True

section Loop

variable {schedules : Table ScheduledJob.scheduleId} {failing : String → Bool} {now : Time}
  {row r : ScheduledJob} {rows rest : List ScheduledJob} {fired : List String}
  {updates : List Advance}

/-- What a phase covers it covers later too. -/
theorem TickPhase.Covered.mono {clock clock' : Time} {phase : TickPhase}
    (h : phase.Covered schedules clock failing) (hle : clock ≤ clock') :
    phase.Covered schedules clock' failing := by
  cases phase with
  | idle => trivial
  | leased now => exact le_trans h hle
  | firing now rows updates => exact ⟨h.1.trans hle, h.2⟩
  | advancing now row jobId rows updates => exact ⟨h.1.trans hle, h.2⟩
  | ended => trivial

/-- The rows that a query selects from a table are stored there. -/
theorem mem_rows_of_selected {scan : Scan}
    (h : row ∈ dueRows now (scan.order schedules.rows)) : row ∈ schedules.rows :=
  (scan.perm schedules.rows).mem_iff.mp (mem_dueRows h).1

private theorem loopCovers_select (failing : String → Bool) (now : Time) (scan : Scan) :
    LoopCovers schedules failing now [] (dueRows now (scan.order schedules.rows)) [] where
  covers := ⟨scan, [], by simp, List.Perm.refl _⟩
  stored _ hrow := mem_rows_of_selected hrow
  later _ hu := absurd hu List.not_mem_nil

/-- A failing row is skipped. -/
theorem LoopCovers.skip (h : LoopCovers schedules failing now fired (row :: rows) updates)
    (hfails : failing row.scheduleId = true) :
    LoopCovers schedules failing now fired rows updates where
  covers := by
    obtain ⟨scan, skipped, hskipped, hperm⟩ := h.covers
    refine ⟨scan, row.scheduleId :: skipped, List.forall_mem_cons.mpr ⟨hfails, hskipped⟩, ?_⟩
    refine List.Perm.trans ?_ hperm
    rw [List.map_cons, ← List.append_assoc, ← List.append_assoc, List.cons_append,
      List.cons_append]
    exact List.perm_middle.symm
  stored other hother := h.stored other (List.mem_cons_of_mem row hother)
  later := h.later

/-- A published row counts as fired. -/
theorem LoopCovers.publish (h : LoopCovers schedules failing now fired (row :: rows) updates) :
    LoopCovers schedules failing now (row.scheduleId :: fired) rows updates where
  covers := by
    obtain ⟨scan, skipped, hskipped, hperm⟩ := h.covers
    refine ⟨scan, skipped, hskipped, List.Perm.trans ?_ hperm⟩
    exact (List.perm_middle.symm).append_left skipped
  stored other hother := h.stored other (List.mem_cons_of_mem row hother)
  later := h.later

/-- A row is advanced past the time of the tick. -/
theorem LoopCovers.update {u : Advance}
    (h : LoopCovers schedules failing now (u.scheduleId :: updates.map Advance.scheduleId) rest
      updates) (hnext : now < u.next) :
    LoopCovers schedules failing now ((updates ++ [u]).map Advance.scheduleId) rest
      (updates ++ [u]) where
  covers := by
    obtain ⟨scan, skipped, hskipped, hperm⟩ := h.covers
    refine ⟨scan, skipped, hskipped, List.Perm.trans ?_ hperm⟩
    rw [List.map_append]
    exact ((List.perm_append_singleton _ _).append_right _).append_left skipped
  stored := h.stored
  later v hv := by
    rcases List.mem_append.mp hv with hold | hnew
    · exact h.later v hold
    · rw [List.mem_singleton.mp hnew]
      exact hnext

/-! ### The commit -/

/-- Every `UPDATE` of the loop goes to a selected row. -/
theorem LoopCovers.selected (h : LoopCovers schedules failing now fired rest updates)
    {k : String} (hk : k ∈ fired) :
    ∃ row, schedules.find? k = some row ∧ row.scheduleId = k ∧ row.due now = true := by
  obtain ⟨scan, skipped, -, hperm⟩ := h.covers
  have hmem := hperm.mem_iff.mp (List.mem_append_right _ (List.mem_append_left _ hk))
  obtain ⟨row, hrow, rfl⟩ := List.mem_map.mp hmem
  exact ⟨row, Table.find?_of_mem (mem_rows_of_selected hrow), rfl, (mem_dueRows hrow).2⟩

/-- No schedule is fired twice. -/
theorem LoopCovers.nodup (h : LoopCovers schedules failing now fired rest updates) :
    fired.Nodup := by
  obtain ⟨scan, skipped, -, hperm⟩ := h.covers
  have hkeys : ((scan.order schedules.rows).map ScheduledJob.scheduleId).Nodup :=
    ((scan.perm schedules.rows).map _).nodup_iff.mpr schedules.nodup
  have hall := hperm.nodup_iff.mpr (nodup_dueRows hkeys)
  exact hall.sublist ((List.sublist_append_left _ _).trans (List.sublist_append_right _ _))

/-- The `UPDATE`s of a tick, one schedule each, take rows with a property away from those with
it and add none. -/
theorem countRows_foldl_apply {p : ScheduledJob → Bool} {g : Advance → Bool}
    (hnodup : (updates.map Advance.scheduleId).Nodup)
    (hkeep : ∀ u ∈ updates, ∀ row, schedules.find? u.scheduleId = some row →
      p (row.advance now u.jobId u.next) = true → p row = true)
    (hleave : ∀ u ∈ updates, g u = true → ∃ row, schedules.find? u.scheduleId = some row ∧
      p row = true ∧ p (row.advance now u.jobId u.next) = false) :
    (updates.foldl (Advance.apply now) schedules).countRows p + updates.countP g ≤
      schedules.countRows p := by
  induction updates generalizing schedules with
  | nil => simp
  | cons u updates ih =>
    obtain ⟨hfresh, hnodup'⟩ := List.nodup_cons.mp hnodup
    -- the other rows are as they were
    have hfind : ∀ v ∈ updates, (u.apply now schedules).find? v.scheduleId =
        schedules.find? v.scheduleId := by
      intro v hv
      rw [find?_apply, if_neg]
      exact fun heq => hfresh (heq ▸ List.mem_map_of_mem hv)
    have hrest := ih hnodup'
      (fun v hv row hrow => hkeep v (List.mem_cons_of_mem u hv) row (hfind v hv ▸ hrow))
      (fun v hv hg => by
        rw [hfind v hv]
        exact hleave v (List.mem_cons_of_mem u hv) hg)
    have hone : (u.apply now schedules).countRows p + (if g u then 1 else 0) ≤
        schedules.countRows p := by
      cases hrow : schedules.find? u.scheduleId with
      | none =>
        have hg : g u = false := by
          by_contra hg
          obtain ⟨row, hsome, -⟩ := hleave u List.mem_cons_self (by simpa using hg)
          rw [hrow] at hsome
          cases hsome
        simp [Advance.apply, hrow, hg]
      | some row =>
        have hkey : row.scheduleId = u.scheduleId := Table.key_of_find? hrow
        have htrade := Table.countRows_set (r := row.advance now u.jobId u.next)
          (hkey.symm ▸ hrow : schedules.find? row.scheduleId = some row) p
        simp only [Advance.apply, hrow]
        cases hg : g u with
        | false =>
          have hmono : (if p (row.advance now u.jobId u.next) then 1 else 0) ≤
              if p row then 1 else 0 := by
            split
            · next hnew => rw [if_pos (hkeep u List.mem_cons_self row hrow hnew)]
            · exact Nat.zero_le _
          simp only [Bool.false_eq_true, if_false]
          omega
        | true =>
          obtain ⟨row', hrow', hold, hnew⟩ := hleave u List.mem_cons_self hg
          obtain rfl := Option.some.inj (hrow.symm.trans hrow')
          simp only [hold, hnew, if_true, Bool.false_eq_true, if_false] at htrade ⊢
          omega
    rw [List.foldl_cons, List.countP_cons]
    omega

/-- A row that is before `r` after its `UPDATE` was before it already: it was due, and its new
time is later than the tick. -/
theorem LoopCovers.ahead_of_advance
    (h : LoopCovers schedules failing now (updates.map Advance.scheduleId) [] updates)
    (p : String → Bool) {u : Advance} (hu : u ∈ updates)
    (hrow : schedules.find? u.scheduleId = some row)
    (hp : ((row.advance now u.jobId u.next).ahead r && p row.scheduleId) = true) :
    (row.ahead r && p row.scheduleId) = true := by
  obtain ⟨row', hrow', -, hdue⟩ := h.selected (List.mem_map_of_mem hu)
  obtain rfl := Option.some.inj (hrow.symm.trans hrow')
  rw [Bool.and_eq_true, ahead_iff] at hp ⊢
  obtain ⟨⟨henabled, hnext, hne⟩, hp⟩ := hp
  have hpast : row.nextRunAt ≤ now := nextRunAt_le_of_due hdue
  have hlater : now < u.next := h.later u hu
  exact ⟨⟨henabled, (hpast.trans hlater.le).trans hnext, hne⟩, hp⟩

/-- A commit puts no schedule before `r`. -/
theorem LoopCovers.countRows_le
    (h : LoopCovers schedules failing now (updates.map Advance.scheduleId) [] updates)
    (p : String → Bool) :
    (updates.foldl (Advance.apply now) schedules).countRows
        (fun x => x.ahead r && p x.scheduleId) ≤
      schedules.countRows fun x => x.ahead r && p x.scheduleId := by
  refine le_trans (Nat.le_add_right _ (updates.countP fun _ => false)) ?_
  apply countRows_foldl_apply h.nodup
  · exact fun u hu row hrow hp => h.ahead_of_advance p hu hrow hp
  · simp

/-- A tick in which `r` is due and not selected selects 50 rows before it. -/
theorem LoopCovers.selects_ahead
    (h : LoopCovers schedules failing now fired [] updates) (hr : r ∈ schedules.rows)
    (henabled : r.enabled = true) (hdue : r.nextRunAt ≤ now)
    (hfree : failing r.scheduleId = false) (hunfired : r.scheduleId ∉ fired) :
    ∃ (scan : Scan) (skipped : List String), (∀ k ∈ skipped, failing k = true) ∧
      (skipped ++ fired).Perm
        ((dueRows now (scan.order schedules.rows)).map ScheduledJob.scheduleId) ∧
      (dueRows now (scan.order schedules.rows)).length = 50 ∧
      ∀ x ∈ dueRows now (scan.order schedules.rows), x.ahead r = true := by
  obtain ⟨scan, skipped, hskipped, hperm⟩ := h.covers
  rw [List.map_nil, List.append_nil] at hperm
  let selected := dueRows now (scan.order schedules.rows)
  have hout : r ∉ selected := by
    intro hmem
    rcases List.mem_append.mp (hperm.mem_iff.mpr (List.mem_map_of_mem hmem)) with hskip | hfired
    · rw [hskipped _ hskip] at hfree
      cases hfree
    · exact hunfired hfired
  have hcandidate : r ∈ (scan.order schedules.rows).filter (·.due now) := by
    rw [List.mem_filter, (scan.perm _).mem_iff]
    exact ⟨hr, by simp [ScheduledJob.due, henabled, hdue]⟩
  refine ⟨scan, skipped, hskipped, hperm, length_firstRows hcandidate hout, fun x hx => ?_⟩
  have hxdue := (mem_dueRows hx).2
  simp only [ScheduledJob.due, Bool.and_eq_true] at hxdue
  refine ahead_iff.mpr ⟨hxdue.1, le_of_mem_firstRows hcandidate hout hx, fun hkey => hout ?_⟩
  rw [← Table.eq_of_key_eq (mem_rows_of_selected hx) hr hkey]
  exact hx

/-- The rows of a query with a property are no more than those of the table. -/
theorem countP_dueRows_le (now : Time) (scan : Scan) (p : ScheduledJob → Bool) :
    (dueRows now (scan.order schedules.rows)).countP p ≤ schedules.countRows p := by
  have hsort := List.perm_insertionSort (fun a b : ScheduledJob => a.nextRunAt ≤ b.nextRunAt)
    ((scan.order schedules.rows).filter (·.due now))
  calc (dueRows now (scan.order schedules.rows)).countP p
      ≤ (((scan.order schedules.rows).filter (·.due now)).insertionSort
          (·.nextRunAt ≤ ·.nextRunAt)).countP p := (List.take_sublist _ _).countP_le
    _ = ((scan.order schedules.rows).filter (·.due now)).countP p := hsort.countP_eq p
    _ ≤ (scan.order schedules.rows).countP p := List.filter_sublist.countP_le
    _ = schedules.countRows p := (scan.perm _).countP_eq p

/-- A commit takes at least as many schedules away before `r` as the limit leaves to those
that are not failing, unless `r` itself was fired. -/
theorem LoopCovers.backlog
    (h : LoopCovers schedules failing now (updates.map Advance.scheduleId) [] updates)
    (hr : r ∈ schedules.rows) (henabled : r.enabled = true) (hdue : r.nextRunAt ≤ now)
    (hfree : failing r.scheduleId = false)
    (hunfired : r.scheduleId ∉ updates.map Advance.scheduleId) {blocked : ℕ}
    (hblocked : schedules.countRows
      (fun x => x.ahead r && failing x.scheduleId) ≤ blocked) :
    (updates.foldl (Advance.apply now) schedules).countRows
        (fun x => x.ahead r && !failing x.scheduleId) + (50 - blocked) ≤
      schedules.countRows fun x => x.ahead r && !failing x.scheduleId := by
  obtain ⟨scan, skipped, hskipped, hperm, hfull, hahead⟩ :=
    h.selects_ahead hr henabled hdue hfree hunfired
  let selected := dueRows now (scan.order schedules.rows)
  have hfailing : selected.countP (fun x => failing x.scheduleId) ≤ blocked := by
    refine le_trans ?_ ((countP_dueRows_le now scan _).trans hblocked)
    refine List.countP_mono_left fun x hx hfails => ?_
    rw [hahead x hx, hfails]
    rfl
  have hfired : 50 - blocked ≤ updates.countP fun u => !failing u.scheduleId := by
    have hskip : skipped.countP (fun k => !failing k) = 0 :=
      List.countP_eq_zero.mpr fun k hk => by simp [hskipped k hk]
    have hcount : updates.countP (fun u => !failing u.scheduleId) =
        selected.countP fun x => !failing x.scheduleId := by
      have hsame := hperm.countP_eq fun k => !failing k
      rwa [List.countP_append, hskip, Nat.zero_add, List.countP_map, List.countP_map] at hsame
    have hsplit : selected.length = selected.countP (fun x => failing x.scheduleId) +
        selected.countP (fun x => !failing x.scheduleId) := by
      rw [List.length_eq_countP_add_countP fun x : ScheduledJob => failing x.scheduleId]
      congr 1
      exact List.countP_congr fun x _ => by simp
    have hlength : selected.length = 50 := hfull
    omega
  refine le_trans (Nat.add_le_add_left hfired _) ?_
  apply countRows_foldl_apply h.nodup
  · exact fun u hu row hrow hp => h.ahead_of_advance (fun k => !failing k) hu hrow hp
  · intro u hu hg
    have hmem := hperm.mem_iff.mp (List.mem_append_right _ (List.mem_map_of_mem hu))
    obtain ⟨row, hrow, hkey⟩ := List.mem_map.mp hmem
    have hlater : ¬ u.next ≤ r.nextRunAt := Nat.not_le.mpr (hdue.trans_lt (h.later u hu))
    refine ⟨row, hkey ▸ Table.find?_of_mem (mem_rows_of_selected hrow), ?_, ?_⟩
    · rw [hahead row hrow, hkey, hg]
      rfl
    · simp [ScheduledJob.ahead, ScheduledJob.advance, hlater]

end Loop

/-! ## Waiting for a turn -/

/-- The replicas while `r` has not had its turn. -/
structure Waits (s : Cluster ι) (r : ScheduledJob) (failing : String → Bool) (blocked : ℕ) :
    Prop where
  exclusive : ∀ i, s.phase i ≠ .idle → s.lease = some i
  covered : ∀ i, (s.phase i).Covered s.schedules s.clock failing
  stored : r ∈ s.schedules.rows
  unfired : ∀ i, r.scheduleId ∉ (s.phase i).fired
  few : s.ahead r failing ≤ blocked

section Steps

variable [DecidableEq ι] {next : NextRun} {s : Cluster ι} {i : ι} {r : ScheduledJob}
  {failing : String → Bool} {blocked : ℕ}

/-- What is published stays so. -/
theorem fired_invariant (next : NextRun) (r : ScheduledJob) :
    Invariant (clusterStep (ι := ι) next) fun s => s.Fired r := by
  rintro s a ⟨jobId, hmem⟩
  refine ⟨jobId, ?_⟩
  have hmoves := moves_clusterStep next s a
  generalize clusterStep next s a = s' at hmoves
  cases hmoves with
  | stay => exact hmem
  | elapse duration => exact hmem
  | acquire _ _ _ => exact hmem
  | select _ _ => exact hmem
  | skip _ => exact hmem
  | publish _ _ => exact List.mem_append_left _ hmem
  | update _ _ => exact hmem
  | raise _ _ => exact hmem
  | commit _ => exact hmem
  | unlock _ => exact hmem

/-- A replica moves on in its tick, the table as it was. -/
theorem Waits.enter (h : Waits s r failing blocked) {t : Cluster ι} {phase : TickPhase}
    (hexclusive : ∀ k, (t.enter i phase).phase k ≠ .idle → (t.enter i phase).lease = some k)
    (hphase : t.phase = s.phase) (hschedules : t.schedules = s.schedules)
    (hclock : t.clock = s.clock) (hcovered : phase.Covered s.schedules s.clock failing)
    (hunfired : r.scheduleId ∉ phase.fired) : Waits (t.enter i phase) r failing blocked where
  exclusive := hexclusive
  covered k := by
    show ((t.enter i phase).phase k).Covered t.schedules t.clock failing
    rw [hschedules, hclock]
    by_cases hk : k = i
    · rw [hk, enter_phase_self]
      exact hcovered
    · rw [enter_phase_of_ne hk, hphase]
      exact h.covered k
  stored := hschedules ▸ h.stored
  unfired k := by
    by_cases hk : k = i
    · rw [hk, enter_phase_self]
      exact hunfired
    · rw [enter_phase_of_ne hk, hphase]
      exact h.unfired k
  few := by
    have hsame : (t.enter i phase).ahead r failing = s.ahead r failing := by
      simp only [Cluster.ahead, Cluster.enter, hschedules]
    exact hsame.trans_le h.few

/-- The `UPDATE`s of a tick leave the other rows alone. -/
theorem find?_foldl_apply_of_not_mem {now : Time} {updates : List Advance}
    {schedules : Table ScheduledJob.scheduleId} {k : String}
    (h : k ∉ updates.map Advance.scheduleId) :
    (updates.foldl (Advance.apply now) schedules).find? k = schedules.find? k := by
  induction updates generalizing schedules with
  | nil => rfl
  | cons u updates ih =>
    rw [List.map_cons, List.mem_cons, not_or] at h
    rw [List.foldl_cons, ih h.2, find?_apply, if_neg (Ne.symm h.1)]

variable (henabled : r.enabled = true) (hfree : failing r.scheduleId = false)
include henabled hfree

private theorem waits_commit (h : Waits s r failing blocked) {now : Time} {updates : List Advance}
    (hphase : s.phase i = .firing now [] updates) :
    Waits (clusterStep next s (.commit i)) r failing blocked ∧
      (clusterStep next s (.commit i)).ahead r (fun k => !failing k) +
          (if r.nextRunAt ≤ now then 50 - blocked else 0) ≤
        s.ahead r fun k => !failing k := by
  have hexclusive := exclusive_moves h.exclusive (moves_clusterStep next s (.commit i))
  have hloop : LoopCovers s.schedules failing now (updates.map Advance.scheduleId) [] updates := by
    have hcovered := h.covered i
    rw [hphase] at hcovered
    exact hcovered.2
  have hunfired : r.scheduleId ∉ updates.map Advance.scheduleId := by
    have hphases := h.unfired i
    rwa [hphase] at hphases
  have hstep : clusterStep next s (.commit i) =
      { s with schedules := updates.foldl (Advance.apply now) s.schedules }.enter i .ended := by
    simp only [clusterStep, hphase]
  rw [hstep] at hexclusive ⊢
  have hothers : ∀ k, k ≠ i → s.phase k = .idle := by
    intro k hk
    by_contra hinside
    have hi : s.lease = some i := h.exclusive i (by simp [hphase])
    exact hk (Option.some.inj ((h.exclusive k hinside).symm.trans hi))
  refine ⟨⟨hexclusive, fun k => ?_, ?_, fun k => ?_, ?_⟩, ?_⟩
  · by_cases hk : k = i
    · rw [hk, enter_phase_self]
      trivial
    · rw [enter_phase_of_ne hk]
      show (s.phase k).Covered _ _ _
      rw [hothers k hk]
      trivial
  · refine Table.mem_of_find? (k := r.scheduleId) ?_
    exact (find?_foldl_apply_of_not_mem hunfired).trans (Table.find?_of_mem h.stored)
  · by_cases hk : k = i
    · rw [hk, enter_phase_self]
      exact List.not_mem_nil
    · rw [enter_phase_of_ne hk]
      exact h.unfired k
  · exact (hloop.countRows_le failing).trans h.few
  · split
    · next hdue => exact hloop.backlog h.stored henabled hdue hfree hunfired h.few
    · exact hloop.countRows_le fun k => !failing k

/-- A step that does not fire `r` lets it wait on; it adds nothing to the backlog, and the commit
of a tick for which `r` was due takes from it. -/
theorem waits_step
    (hnext : ∀ cron timezone base time, next cron timezone base = .ok time → base < time)
    (h : Waits s r failing blocked) {a : ClusterStep ι} (hfails : FailsOnly failing s a)
    (hunfired : ¬ (clusterStep next s a).Fired r) :
    Waits (clusterStep next s a) r failing blocked ∧
      (clusterStep next s a).ahead r (fun k => !failing k) +
          (if commitsFrom r.nextRunAt s a then 50 - blocked else 0) ≤
        s.ahead r fun k => !failing k := by
  have hexclusive := exclusive_moves h.exclusive (moves_clusterStep next s a)
  cases a with
  | elapse duration =>
    refine ⟨⟨h.exclusive, fun k => ?_, h.stored, h.unfired, h.few⟩, le_rfl⟩
    exact (h.covered k).mono (Nat.le_add_right _ _)
  | tryLock i now =>
    simp only [clusterStep] at hexclusive ⊢
    split
    · next hidle hfreelock =>
      split
      · next hnow =>
        simp only [hidle, hfreelock, if_pos hnow] at hexclusive
        exact ⟨h.enter hexclusive rfl rfl rfl hnow List.not_mem_nil, le_rfl⟩
      · exact ⟨h, le_rfl⟩
    · exact ⟨h, le_rfl⟩
  | select i scan =>
    simp only [clusterStep] at hexclusive ⊢
    split
    · next now hphase =>
      simp only [hphase] at hexclusive
      have hnow := h.covered i
      rw [hphase] at hnow
      exact ⟨h.enter hexclusive rfl rfl rfl ⟨hnow, loopCovers_select failing now scan⟩
        List.not_mem_nil, le_rfl⟩
    · exact ⟨h, le_rfl⟩
  | publish i jobId delivery =>
    simp only [clusterStep] at hexclusive hunfired ⊢
    split
    · next now row rows updates hphase =>
      have hcovered := h.covered i
      have hphases := h.unfired i
      rw [hphase] at hcovered hphases
      cases delivery with
      | failed =>
        simp only [hphase] at hexclusive
        have hrow : failing row.scheduleId = true :=
          hfails row (by simp [hphase, TickPhase.nextRow])
        exact ⟨h.enter hexclusive rfl rfl rfl ⟨hcovered.1, hcovered.2.skip hrow⟩ hphases, le_rfl⟩
      | delivered =>
        simp only [hphase] at hexclusive hunfired
        have hother : r.scheduleId ≠ row.scheduleId := by
          intro hkey
          have hrow : row ∈ s.schedules.rows := hcovered.2.stored row List.mem_cons_self
          obtain rfl := Table.eq_of_key_eq h.stored hrow hkey
          exact hunfired ⟨jobId, List.mem_append_right _ List.mem_cons_self⟩
        refine ⟨h.enter hexclusive rfl rfl rfl ⟨hcovered.1, hcovered.2.publish⟩ ?_, le_rfl⟩
        exact List.not_mem_cons_of_ne_of_not_mem hother hphases
    · exact ⟨h, le_rfl⟩
  | update i =>
    simp only [clusterStep] at hexclusive ⊢
    split
    · next now row jobId rows updates hphase =>
      have hcovered := h.covered i
      have hphases := h.unfired i
      rw [hphase] at hcovered hphases
      split
      · next time htime =>
        simp only [hphase, htime] at hexclusive
        have hlater : now < time := hcovered.1.trans_lt (hnext _ _ _ _ htime)
        refine ⟨h.enter hexclusive rfl rfl rfl
          ⟨hcovered.1, LoopCovers.update hcovered.2 hlater⟩ ?_, le_rfl⟩
        intro hmem
        rw [TickPhase.fired, List.map_append, List.mem_append] at hmem
        rcases hmem with hold | hnew
        · exact hphases (List.mem_cons_of_mem _ hold)
        · exact hphases (List.mem_cons.mpr (.inl (List.mem_singleton.mp hnew)))
      · next e htime =>
        simp only [hphase, htime] at hexclusive
        exact ⟨h.enter hexclusive rfl rfl rfl trivial List.not_mem_nil, le_rfl⟩
    · exact ⟨h, le_rfl⟩
  | commit i =>
    cases hphase : s.phase i with
    | firing now rows updates =>
      cases rows with
      | nil =>
        have hcommit : Waits (clusterStep next s (.commit i)) r failing blocked ∧ _ :=
          waits_commit henabled hfree h hphase
        simpa only [commitsFrom, hphase, decide_eq_true_eq] using hcommit
      | cons row rows =>
        have hsame : clusterStep next s (.commit i) = s := by simp only [clusterStep, hphase]
        rw [hsame]
        exact ⟨h, by simp [commitsFrom, hphase]⟩
    | _ =>
      have hsame : clusterStep next s (.commit i) = s := by simp only [clusterStep, hphase]
      rw [hsame]
      exact ⟨h, by simp [commitsFrom, hphase]⟩
  | unlock i =>
    simp only [clusterStep] at hexclusive ⊢
    split
    · next hphase =>
      simp only [hphase] at hexclusive
      exact ⟨h.enter hexclusive rfl rfl rfl trivial List.not_mem_nil, le_rfl⟩
    · exact ⟨h, le_rfl⟩

end Steps

/-- Replicas between two ticks. -/
theorem waits_idle {s : Cluster ι} {r : ScheduledJob} {failing : String → Bool}
    (hidle : ∀ i, s.phase i = .idle) (hr : r ∈ s.schedules.rows) :
    Waits s r failing (s.ahead r failing) where
  exclusive i hi := absurd (hidle i) hi
  covered i := by
    rw [hidle i]
    trivial
  stored := hr
  unfired i := by
    rw [hidle i]
    exact List.not_mem_nil
  few := le_rfl

/-- **A due schedule gets its turn.** Publishes may fail again and again for some schedules; if
`n < 50` of these are due before `r`, a schedule that is not one of them, and `m` others, then
in every interleaving of the replicas more than `m / (50 - n)` committed ticks that begin when
`r` is due publish it. -/
theorem due_schedule_gets_turn [DecidableEq ι] {next : NextRun}
    (hnext : ∀ cron timezone base time, next cron timezone base = .ok time → base < time)
    {s : Cluster ι} (hidle : ∀ i, s.phase i = .idle) {r : ScheduledJob}
    (hr : r ∈ s.schedules.rows) (henabled : r.enabled = true) {failing : String → Bool}
    (hfree : failing r.scheduleId = false) (hfew : s.ahead r failing < 50)
    {steps : List (ClusterStep ι)} (hfails : Along (clusterStep next) (FailsOnly failing) s steps)
    (hmany : s.ahead r (fun k => !failing k) / (50 - s.ahead r failing) <
      countSteps (clusterStep next) (commitsFrom r.nextRunAt) s steps) :
    (run (clusterStep next) s steps).Fired r := by
  let blocked := s.ahead r failing
  let backlog : Cluster ι → ℕ := fun t => t.ahead r fun k => !failing k
  have hstep : ∀ t a, Waits t r failing blocked → FailsOnly failing t a →
      ¬ (clusterStep next t a).Fired r → Waits (clusterStep next t a) r failing blocked ∧
        backlog (clusterStep next t a) + (if commitsFrom r.nextRunAt t a then 50 - blocked else 0) ≤
          backlog t := fun t a hwaits hpublish hunfired =>
    waits_step henabled hfree hnext hwaits hpublish hunfired
  exact reached_of_countSteps (fired_invariant next r) hstep (waits_idle hidle hr) hfails hmany
    (Nat.sub_pos_of_lt hfew)

/-- A failing schedule and another one, due at the same time. -/
theorem due_schedule_gets_turn_second :
    let r : ScheduledJob :=
      { scheduleId := "s-2", name := "report", cronExpression := "* * * * *", jobTemplate := [],
        nextRunAt := 60 }
    let schedules : Table ScheduledJob.scheduleId :=
      ⟨[{ r with scheduleId := "s-1", name := "export" }, r], by decide⟩
    let steps : List (ClusterStep Bool) := [.tryLock true 70, .select true ⟨id, List.Perm.refl⟩,
      .publish true "job-1" .failed, .publish true "job-2" .delivered, .update true, .commit true]
    (run (clusterStep everyMinute) (Cluster.start schedules 70) steps).Fired r := by
  intro r schedules steps
  let failing : String → Bool := fun k => k == "s-1"
  have hr : r ∈ schedules.rows := List.mem_cons_of_mem _ List.mem_cons_self
  refine due_schedule_gets_turn ?_ (fun _ => rfl) hr rfl (by decide : failing "s-2" = false)
    (by decide) ?_ (by decide)
  · intro cron timezone base time h
    have hlater : ∀ n : ℕ, n < (n / 60 + 1) * 60 := by
      intro n
      omega
    exact (hlater base).trans_eq (Except.ok.inj h)
  · refine ⟨trivial, trivial, ?_, trivial, trivial, trivial, trivial⟩
    rintro row ⟨⟩
    rfl

/-! ## Blocked for good -/

/-- The enabled failing schedules that are due before `r`. -/
def Cluster.blockers (s : Cluster ι) (r : ScheduledJob) (failing : String → Bool) :
    List ScheduledJob :=
  s.schedules.rows.filter fun x =>
    x.enabled && decide (x.nextRunAt < r.nextRunAt) && failing x.scheduleId

/-- The replicas while `r` is blocked by failing schedules: these stay as they are, and `r` is not
selected. -/
structure Blocked (s : Cluster ι) (r : ScheduledJob) (failing : String → Bool)
    (blockers : List ScheduledJob) (published : List (ScheduledJob × JobId)) : Prop where
  stored : r ∈ s.schedules.rows
  kept : ∀ x ∈ blockers, x ∈ s.schedules.rows
  rest : ∀ i, ∀ row ∈ (s.phase i).rest, row.scheduleId ≠ r.scheduleId
  fired : ∀ i, ∀ k ∈ (s.phase i).fired, failing k = false ∧ k ≠ r.scheduleId
  unpublished : ∀ f ∈ s.published, f.1.scheduleId = r.scheduleId → f ∈ published

/-- Fifty enabled schedules that are due before `r` keep it from being selected. -/
theorem not_mem_dueRows_of_blockers {schedules : Table ScheduledJob.scheduleId}
    {r : ScheduledJob} {blockers : List ScheduledJob} (hnodup : blockers.Nodup)
    (hmany : 50 ≤ blockers.length)
    (hbefore : ∀ x ∈ blockers, x.enabled = true ∧ x.nextRunAt < r.nextRunAt)
    (hkept : ∀ x ∈ blockers, x ∈ schedules.rows) (now : Time) (scan : Scan) :
    r ∉ dueRows now (scan.order schedules.rows) := by
  intro hr
  have hdue : r.nextRunAt ≤ now := nextRunAt_le_of_due (mem_dueRows hr).2
  let candidates := (scan.order schedules.rows).filter (·.due now)
  have hcandidates : blockers ⊆ candidates.filter fun x => x.nextRunAt < r.nextRunAt := by
    intro x hx
    obtain ⟨henabled, hlt⟩ := hbefore x hx
    refine List.mem_filter.mpr ⟨List.mem_filter.mpr ⟨?_, ?_⟩, decide_eq_true hlt⟩
    · exact (scan.perm _).mem_iff.mpr (hkept x hx)
    · simp [ScheduledJob.due, henabled, hlt.le.trans hdue]
  have hcount : 50 ≤ candidates.countP fun x => decide (x.nextRunAt < r.nextRunAt) := by
    rw [List.countP_eq_length_filter]
    exact hmany.trans (List.subperm_of_subset hnodup hcandidates).length_le
  exact not_mem_firstRows hcount hr

section Steps

variable [DecidableEq ι] {next : NextRun} {s : Cluster ι} {i : ι} {r : ScheduledJob}
  {failing : String → Bool} {blockers : List ScheduledJob}
  {published : List (ScheduledJob × JobId)}

/-- A phase that leaves the blocked schedule alone may be entered. -/
theorem Blocked.enter (h : Blocked s r failing blockers published) {t : Cluster ι}
    {phase : TickPhase} (hphase : t.phase = s.phase) (hschedules : t.schedules = s.schedules)
    (hpublished : ∀ f ∈ t.published, f.1.scheduleId = r.scheduleId → f ∈ published)
    (hrest : ∀ row ∈ phase.rest, row.scheduleId ≠ r.scheduleId)
    (hfired : ∀ k ∈ phase.fired, failing k = false ∧ k ≠ r.scheduleId) :
    Blocked (t.enter i phase) r failing blockers published where
  stored := hschedules ▸ h.stored
  kept x hx := hschedules ▸ h.kept x hx
  rest k := by
    by_cases hk : k = i
    · rw [hk, enter_phase_self]
      exact hrest
    · rw [enter_phase_of_ne hk, hphase]
      exact h.rest k
  fired k := by
    by_cases hk : k = i
    · rw [hk, enter_phase_self]
      exact hfired
    · rw [enter_phase_of_ne hk, hphase]
      exact h.fired k
  unpublished := hpublished

/-- A commit leaves the rows of all schedules alone that were not fired. -/
theorem Blocked.commit (h : Blocked s r failing blockers published)
    (hfailing : ∀ x ∈ blockers, failing x.scheduleId = true) {now : Time}
    {updates : List Advance} (hphase : s.phase i = .firing now [] updates) :
    Blocked ({ s with schedules := updates.foldl (Advance.apply now) s.schedules }.enter i .ended)
      r failing blockers published := by
  have hfired : ∀ k ∈ updates.map Advance.scheduleId, failing k = false ∧ k ≠ r.scheduleId := by
    have hall := h.fired i
    rwa [hphase] at hall
  have hsame : ∀ x ∈ s.schedules.rows, x.scheduleId ∉ updates.map Advance.scheduleId →
      x ∈ (updates.foldl (Advance.apply now) s.schedules).rows := by
    intro x hx hnot
    refine Table.mem_of_find? (k := x.scheduleId) ?_
    rw [find?_foldl_apply_of_not_mem hnot, Table.find?_of_mem hx]
  have hcommitted : Blocked { s with schedules := updates.foldl (Advance.apply now) s.schedules } r
      failing blockers published := by
    refine ⟨hsame r h.stored fun hr => (hfired _ hr).2 rfl, fun x hx => ?_, h.rest, h.fired,
      h.unpublished⟩
    refine hsame x (h.kept x hx) fun hmem => ?_
    have hclash := (hfired _ hmem).1
    rw [hfailing x hx] at hclash
    cases hclash
  exact hcommitted.enter rfl rfl h.unpublished (by simp [TickPhase.rest])
    (by simp [TickPhase.fired])

/-- A step that publishes no failing schedule leaves `r` blocked. -/
theorem blocked_step (hnodup : blockers.Nodup) (hmany : 50 ≤ blockers.length)
    (hbefore : ∀ x ∈ blockers, x.enabled = true ∧ x.nextRunAt < r.nextRunAt)
    (hfailing : ∀ x ∈ blockers, failing x.scheduleId = true)
    (h : Blocked s r failing blockers published) {a : ClusterStep ι}
    (hsucceeds : SucceedsOnly failing s a) :
    Blocked (clusterStep next s a) r failing blockers published := by
  have hnone : ∀ row ∈ ([] : List ScheduledJob), row.scheduleId ≠ r.scheduleId := by simp
  have hnokey : ∀ k ∈ ([] : List String), failing k = false ∧ k ≠ r.scheduleId := by simp
  cases a with
  | elapse duration => exact ⟨h.stored, h.kept, h.rest, h.fired, h.unpublished⟩
  | tryLock i now =>
    simp only [clusterStep]
    split
    · split
      · exact h.enter rfl rfl h.unpublished hnone hnokey
      · exact h
    · exact h
  | select i scan =>
    simp only [clusterStep]
    split
    · next now hphase =>
      refine h.enter rfl rfl h.unpublished (fun row hrow hkey => ?_) hnokey
      have hstored : row ∈ s.schedules.rows := mem_rows_of_selected hrow
      obtain rfl := Table.eq_of_key_eq hstored h.stored hkey
      exact not_mem_dueRows_of_blockers hnodup hmany hbefore h.kept now scan hrow
    · exact h
  | publish i jobId delivery =>
    simp only [clusterStep]
    split
    · next now row rows updates hphase =>
      have hrest := h.rest i
      have hfired := h.fired i
      rw [hphase] at hrest hfired
      obtain ⟨hrow, hrows⟩ := List.forall_mem_cons.mp hrest
      cases delivery with
      | failed => exact h.enter rfl rfl h.unpublished hrows hfired
      | delivered =>
        have hok : failing row.scheduleId = false :=
          hsucceeds row (by simp [hphase, TickPhase.nextRow])
        refine h.enter rfl rfl (fun f hf hkey => ?_) hrows ?_
        · rcases List.mem_append.mp hf with hold | hnew
          · exact h.unpublished f hold hkey
          · rw [List.mem_singleton.mp hnew] at hkey
            exact absurd hkey hrow
        · exact List.forall_mem_cons.mpr ⟨⟨hok, hrow⟩, hfired⟩
    · exact h
  | update i =>
    simp only [clusterStep]
    split
    · next now row jobId rows updates hphase =>
      have hrest := h.rest i
      have hfired := h.fired i
      rw [hphase] at hrest hfired
      obtain ⟨hrow, hupdates⟩ := List.forall_mem_cons.mp hfired
      split
      · next time htime =>
        refine h.enter rfl rfl h.unpublished hrest ?_
        rw [TickPhase.fired, List.map_append]
        exact List.forall_mem_append.mpr ⟨hupdates, List.forall_mem_singleton.mpr hrow⟩
      · exact h.enter rfl rfl h.unpublished hnone hnokey
    · exact h
  | commit i =>
    simp only [clusterStep]
    split
    · next now updates hphase => exact h.commit hfailing hphase
    · exact h
  | unlock i =>
    simp only [clusterStep]
    split
    · exact h.enter rfl rfl h.unpublished hnone hnokey
    · exact h

end Steps

/-- **Head-of-line blocking.** Fifty enabled schedules that are due before `r` and whose publishes
never succeed keep `r` waiting in every interleaving of the replicas, however often they tick:
nothing is published for it and its row stays as it is. -/
theorem blocked_schedule_starves [DecidableEq ι] {next : NextRun} {s : Cluster ι}
    (hidle : ∀ i, s.phase i = .idle) {r : ScheduledJob} (hr : r ∈ s.schedules.rows)
    {failing : String → Bool} (hmany : 50 ≤ (s.blockers r failing).length)
    {steps : List (ClusterStep ι)}
    (hsucceeds : Along (clusterStep next) (SucceedsOnly failing) s steps) :
    r ∈ (run (clusterStep next) s steps).schedules.rows ∧
      ∀ f ∈ (run (clusterStep next) s steps).published,
        f.1.scheduleId = r.scheduleId → f ∈ s.published := by
  have hblocker : ∀ x ∈ s.blockers r failing, x ∈ s.schedules.rows ∧
      (x.enabled = true ∧ x.nextRunAt < r.nextRunAt) ∧ failing x.scheduleId = true := by
    intro x hx
    simpa [Cluster.blockers] using hx
  have hnodup : (s.blockers r failing).Nodup :=
    (s.schedules.nodup.of_map _).sublist List.filter_sublist
  have hstart : Blocked s r failing (s.blockers r failing) s.published := by
    refine ⟨hr, fun x hx => (hblocker x hx).1, fun i => ?_, fun i => ?_, fun f hf _ => hf⟩
    · simp [hidle i, TickPhase.rest]
    · simp [hidle i, TickPhase.fired]
  have hend := hsucceeds.preserves (fun t a hblocked hstep => blocked_step hnodup hmany
    (fun x hx => (hblocker x hx).2.1) (fun x hx => (hblocker x hx).2.2) hblocked hstep) hstart
  exact ⟨hend.stored, hend.unpublished⟩

/-- Fifty schedules with different ids that are due before any other. -/
def fiftyEarly (template : ScheduledJob) : List ScheduledJob :=
  (List.range 50).map fun n =>
    { template with scheduleId := String.ofList (List.replicate n 'x'), nextRunAt := 0 }

private theorem nodup_fiftyEarly (template : ScheduledJob) (key : String)
    (h : ∀ n, key ≠ String.ofList (List.replicate n 'x')) :
    ((fiftyEarly template ++ [{ template with scheduleId := key }]).map
      ScheduledJob.scheduleId).Nodup := by
  rw [List.map_append, List.nodup_append, fiftyEarly, List.map_map]
  refine ⟨?_, List.nodup_singleton _, ?_⟩
  · refine List.Nodup.map (fun m n hmn => ?_) List.nodup_range
    have hlists := congrArg String.toList hmn
    simpa using congrArg List.length hlists
  · intro k hk k' hk'
    obtain ⟨n, -, rfl⟩ := List.mem_map.mp hk
    rw [List.map_singleton, List.mem_singleton] at hk'
    rw [hk']
    exact (h n).symm

/-- Fifty schedules whose events are never accepted, and one after them. -/
theorem blocked_schedule_starves_last :
    let r : ScheduledJob :=
      { scheduleId := "s-1", name := "report", cronExpression := "* * * * *", jobTemplate := [],
        nextRunAt := 60 }
    let schedules : Table ScheduledJob.scheduleId := ⟨fiftyEarly r ++ [r],
      nodup_fiftyEarly r "s-1" fun n h => by
        have hlists := congrArg (fun k => k.toList.all (· == 'x')) h
        simp at hlists⟩
    let steps : List (ClusterStep Bool) := [.tryLock true 70, .select true ⟨id, List.Perm.refl⟩,
      .publish true "job-1" .failed, .elapse 30]
    r ∈ (run (clusterStep everyMinute) (Cluster.start schedules 70) steps).schedules.rows := by
  intro r schedules steps
  have hall : ((Cluster.start schedules 70 : Cluster Bool).blockers r (· != "s-1")).length = 50 :=
    rfl
  have hr : r ∈ schedules.rows := List.mem_append_right _ List.mem_cons_self
  have hsucceeds : Along (clusterStep everyMinute) (SucceedsOnly (· != "s-1"))
      (Cluster.start schedules 70) steps := ⟨trivial, trivial, trivial, trivial, trivial⟩
  exact (blocked_schedule_starves (fun _ => rfl) hr hall.ge hsucceeds).1

end DataHarbour.Orchestrator
