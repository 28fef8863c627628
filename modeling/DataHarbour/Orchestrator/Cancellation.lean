import DataHarbour.Orchestrator.Consumers

/-!
# Does a cancellation stop the job?

`delete_spark_job` stops what one `ListTasks` call returned. A launched task is therefore
stopped exactly when such a call for its `startedBy` comes after its launch: from the call on
it is doomed, and without one it runs on. The order in which the submission and the cancel
event were published plays no part in it.
-/

namespace DataHarbour.Orchestrator

open Python JobService Machine

/-- Both topics are handled to the end. -/
def Consumers.Complete (s : Consumers) : Prop :=
  s.jobQueue = [] ∧ s.handling = [] ∧ s.cancelQueue = [] ∧ s.stopping = []

/-- The step launches the task. -/
def Launches (task : Task) (s : Consumers) (a : Action) : Prop :=
  a = .act ∧ ∃ request arn rest,
    s.handling = .runTask request (.task arn) :: rest ∧ task = request.toTask arn

/-- The step is a `ListTasks` call that looks for the job's `startedBy`. -/
def ListsFor (jobId : JobId) (s : Consumers) (a : Action) : Prop :=
  a = .list ∧ s.stopping = [] ∧
    ∃ e rest, s.cancelQueue = e :: rest ∧ startedBy e.jobId = startedBy jobId

/-- No task of the job is running, and none is launched any more unless the job service
submits the job again. -/
def CancellationWins (jobId : JobId) (s : Consumers) : Prop :=
  (∀ task ∈ s.cluster, task.jobId ≠ jobId) ∧
    ∀ later, (∀ e, Action.submit e ∈ later → e.jobId ≠ jobId) →
      Along consumersStep (fun s a => ∀ task, Launches task s a → task.jobId ≠ jobId) s later

/-- After every launch for the job comes a `ListTasks` call for its `startedBy`, or the task
ends on its own. -/
def ListedAfterLaunch (jobId : JobId) (start : Consumers) (actions : List Action) : Prop :=
  ∀ before a after task, actions = before ++ a :: after →
    Launches task (run consumersStep start before) a → task.jobId = jobId →
    (∃ middle l rest, after = middle ++ l :: rest ∧
      ListsFor jobId (run consumersStep start (before ++ a :: middle)) l) ∨
    .exit task.arn ∈ after

/-! ## The life of one task -/

/-- The task has been launched, and no other task has its ARN. -/
structure Settled (task : Task) (s : Consumers) : Prop where
  used : task.arn ∈ s.usedArns
  not_pending : task.arn ∉ s.pending
  unique : ∀ other ∈ s.cluster, other.arn = task.arn → other = task

/-- The task is gone, or `StopTask` will be called for it. -/
def Doomed (task : Task) (s : Consumers) : Prop :=
  task.arn ∈ s.stopping ∨ task ∉ s.cluster

section Steps

variable {s s' : Consumers} {a : Action}

/-- The pending launches of a step's successor state were pending, or use a new ARN. -/
theorem Transition.pending (h : Transition s a s') :
    ∀ arn ∈ s'.pending, arn ∈ s.pending ∨ arn ∉ s.usedArns := by
  intro arn harn
  cases h with
  | take new e rest hhandling hqueue hnew =>
    right
    rcases pending_handleEvent e new with heq | heq
    · simp only [Consumers.pending, heq] at harn
      have hsame : arn = new := List.mem_singleton.mp harn
      exact hsame ▸ hnew
    · simp only [Consumers.pending, heq, List.not_mem_nil] at harn
  | act effect rest hhandling =>
    left
    obtain ⟨x, hx, hlaunch⟩ := List.mem_filterMap.mp harn
    exact List.mem_filterMap.mpr ⟨x, hhandling ▸ List.mem_cons_of_mem effect hx, hlaunch⟩
  | idle | submit | cancel | list | stop | exit => exact .inl harn

/-- The ARNs that were given out stay given out. -/
theorem Transition.usedArns (h : Transition s a s') {arn : TaskArn} (harn : arn ∈ s.usedArns) :
    arn ∈ s'.usedArns := by
  cases h with
  | take new => exact List.mem_cons_of_mem new harn
  | idle | submit | cancel | act | list | stop | exit => exact harn

/-- A task that runs after a step ran before it, or the step launched it. -/
theorem Transition.mem_cluster (h : Transition s a s') {task : Task} (htask : task ∈ s'.cluster) :
    task ∈ s.cluster ∨ Launches task s a := by
  cases h with
  | act effect rest hhandling =>
    rcases effect.launch_cases with ⟨-, hsame⟩ | ⟨request, arn, rfl⟩
    · left
      rwa [hsame] at htask
    · rcases List.mem_cons.mp htask with hnew | hold
      · exact .inr ⟨rfl, request, arn, rest, hhandling, hnew⟩
      · exact .inl hold
  | stop | exit => exact .inl (mem_stopTask.mp htask).1
  | idle | submit | cancel | take | list => exact .inl htask

end Steps

/-- A launched task has a pending ARN right before its launch. -/
theorem Launches.pending {task : Task} {s : Consumers} {a : Action} (h : Launches task s a) :
    task.arn ∈ s.pending := by
  obtain ⟨-, request, arn, rest, hhandling, rfl⟩ := h
  exact List.mem_filterMap.mpr
    ⟨.runTask request (.task arn), hhandling ▸ List.mem_cons_self, rfl⟩

/-- A launched task keeps its ARN for itself. -/
theorem Settled.step {task : Task} {s : Consumers} (h : Settled task s) (a : Action) :
    Settled task (consumersStep s a) where
  used := (transition s a).usedArns h.used
  not_pending hpending := by
    rcases (transition s a).pending task.arn hpending with hold | hnew
    · exact h.not_pending hold
    · exact hnew h.used
  unique other hother harn := by
    rcases (transition s a).mem_cluster hother with hold | hlaunch
    · exact h.unique other hold harn
    · exact absurd (harn ▸ hlaunch.pending) h.not_pending

/-- The launch itself settles the task. -/
theorem settled_of_launches {task : Task} {s : Consumers} {a : Action} (hs : Sound s)
    (h : Launches task s a) :
    Settled task (consumersStep s a) ∧ task ∈ (consumersStep s a).cluster ∧
      task.arn ∉ (consumersStep s a).stopping := by
  have hpending := h.pending
  obtain ⟨rfl, request, arn, rest, hhandling, rfl⟩ := h
  obtain ⟨hused, hstopping, hfresh⟩ := hs.pending_used _ hpending
  have hstep : consumersStep s .act =
      { s with handling := rest, cluster := request.toTask arn :: s.cluster } := by
    simp only [consumersStep, hhandling, Effect.onCluster]
  have hnodup := hs.pending_nodup
  rw [Consumers.pending, hhandling, List.filterMap_cons] at hnodup
  rw [hstep]
  refine ⟨⟨hused, (List.nodup_cons.mp hnodup).1, ?_⟩, List.mem_cons_self, hstopping⟩
  intro other hother harn
  rcases List.mem_cons.mp hother with rfl | hold
  · rfl
  · exact absurd (harn ▸ List.mem_map_of_mem hold) hfresh

/-- A doomed task stays doomed. -/
theorem Doomed.step {task : Task} {s : Consumers} (hsettled : Settled task s)
    (h : Doomed task s) (a : Action) : Doomed task (consumersStep s a) := by
  have hstep := transition s a
  generalize consumersStep s a = s' at hstep
  rcases h with hstopping | hnot
  · cases hstep with
    | list e rest hnil =>
      rw [hnil] at hstopping
      exact absurd hstopping List.not_mem_nil
    | stop arn rest hlist =>
      rw [hlist] at hstopping
      rcases List.mem_cons.mp hstopping with heq | hrest
      · exact .inr fun hmem => (mem_stopTask.mp hmem).2 heq
      · exact .inl hrest
    | idle | submit | cancel | take | act | exit => exact .inl hstopping
  · right
    intro hmem
    rcases hstep.mem_cluster hmem with hold | hlaunch
    · exact hnot hold
    · exact hsettled.not_pending hlaunch.pending

/-- A `ListTasks` call for its job dooms a task. -/
theorem doomed_of_listsFor {task : Task} {s : Consumers} {a : Action}
    (hstarted : task.startedBy = startedBy task.jobId) (h : ListsFor task.jobId s a) :
    Doomed task (consumersStep s a) := by
  obtain ⟨rfl, hstopping, e, rest, hqueue, hsame⟩ := h
  have hstep : consumersStep s .list =
      { s with cancelQueue := rest, stopping := listRunningTasksForJob s.cluster e.jobId } := by
    simp only [consumersStep, hstopping, hqueue]
  rw [hstep]
  by_cases hmem : task ∈ s.cluster
  · left
    exact mem_listRunningTasksForJob.mpr ⟨task, hmem, hstarted.trans hsame.symm, rfl⟩
  · exact .inr hmem

/-- A running task that is not listed keeps running through any step but its own end and a
`ListTasks` call for its job. -/
theorem runs_on {task : Task} {s : Consumers} {a : Action}
    (hstarted : task.startedBy = startedBy task.jobId) (hsettled : Settled task s)
    (hmem : task ∈ s.cluster) (hstopping : task.arn ∉ s.stopping) (hexit : a ≠ .exit task.arn)
    (hlist : ¬ ListsFor task.jobId s a) :
    task ∈ (consumersStep s a).cluster ∧ task.arn ∉ (consumersStep s a).stopping := by
  have hstep := transition s a
  generalize consumersStep s a = s' at hstep
  cases hstep with
  | act effect rest hhandling =>
    rcases effect.launch_cases with ⟨-, hsame⟩ | ⟨request, arn, rfl⟩
    · rw [hsame]
      exact ⟨hmem, hstopping⟩
    · exact ⟨List.mem_cons_of_mem _ hmem, hstopping⟩
  | list e rest hnil hqueue =>
    refine ⟨hmem, fun hlisted => hlist ⟨rfl, hnil, e, rest, hqueue, ?_⟩⟩
    obtain ⟨other, hother, hprefix, harn⟩ := mem_listRunningTasksForJob.mp hlisted
    rw [← hprefix, hsettled.unique other hother harn, hstarted]
  | stop arn rest hcons =>
    have hne : task.arn ≠ arn := fun heq => hstopping (hcons ▸ heq ▸ List.mem_cons_self)
    exact ⟨mem_stopTask.mpr ⟨hmem, hne⟩,
      fun h => hstopping (hcons ▸ List.mem_cons_of_mem arn h)⟩
  | exit arn =>
    have hne : task.arn ≠ arn := fun heq => hexit (by rw [heq])
    exact ⟨mem_stopTask.mpr ⟨hmem, hne⟩, hstopping⟩
  | idle | submit | cancel | take => exact ⟨hmem, hstopping⟩

/-! ## Runs -/

/-- Once doomed, a launched task is gone when both topics are handled. -/
theorem not_mem_of_doomed {task : Task} {s : Consumers} (hsettled : Settled task s)
    (hdoomed : Doomed task s) {rest : List Action}
    (hcomplete : (run consumersStep s rest).Complete) :
    task ∉ (run consumersStep s rest).cluster := by
  have hinv : Invariant consumersStep fun s => Settled task s ∧ Doomed task s :=
    fun s a h => ⟨h.1.step a, h.2.step h.1 a⟩
  rcases (hinv.run ⟨hsettled, hdoomed⟩ rest).2 with hstopping | hgone
  · rw [hcomplete.2.2.2] at hstopping
    exact absurd hstopping List.not_mem_nil
  · exact hgone

/-- A launched task that is never listed and does not end is there after the run. -/
theorem mem_of_not_listed {task : Task} {s : Consumers} (hs : Sound s) (hsettled : Settled task s)
    (hmem : task ∈ s.cluster) (hstopping : task.arn ∉ s.stopping) {after : List Action}
    (hexit : .exit task.arn ∉ after)
    (hlist : ∀ middle l rest, after = middle ++ l :: rest →
      ¬ ListsFor task.jobId (run consumersStep s middle) l) :
    task ∈ (run consumersStep s after).cluster := by
  have halong : Along consumersStep
      (fun s a => a ≠ .exit task.arn ∧ ¬ ListsFor task.jobId s a) s after := by
    rw [along_iff_forall_split]
    intro middle l rest heq
    refine ⟨fun hl => hexit ?_, hlist middle l rest heq⟩
    rw [heq, ← hl]
    exact List.mem_append_right middle List.mem_cons_self
  have hend := halong.preserves
    (I := fun s => Sound s ∧ Settled task s ∧ task ∈ s.cluster ∧ task.arn ∉ s.stopping)
    (fun s a h ha => ⟨sound_invariant s a h.1, h.2.1.step a,
      runs_on (h.1.startedBy_eq task h.2.2.1) h.2.1 h.2.2.1 h.2.2.2 ha.1 ha.2⟩)
    ⟨hs, hsettled, hmem, hstopping⟩
  exact hend.2.2.1

/-- When both topics are handled, the job is launched again only if it is submitted again. -/
theorem no_launch_later {jobId : JobId} {s : Consumers} (hcomplete : s.Complete)
    {later : List Action} (hlater : ∀ e, Action.submit e ∈ later → e.jobId ≠ jobId) :
    Along consumersStep (fun s a => ∀ task, Launches task s a → task.jobId ≠ jobId) s later := by
  have hsubmits : Along consumersStep (fun _ a => ∀ e, a = .submit e → e.jobId ≠ jobId) s
      later := by
    rw [along_iff_forall_split]
    intro before a rest heq e ha
    apply hlater e
    rw [heq, ha]
    exact List.mem_append_right before List.mem_cons_self
  refine (Along.imp_invariant (I := fun s => (∀ e ∈ s.jobQueue, e.jobId ≠ jobId) ∧
    ∀ request arn, .runTask request (.task arn) ∈ s.handling → request.jobId ≠ jobId)
    ?_ ?_ hsubmits).1
  · rintro s a ⟨hqueue, hhandling⟩ ha
    constructor
    · rintro task ⟨-, request, arn, rest, hcons, rfl⟩
      exact hhandling request arn (hcons ▸ List.mem_cons_self)
    · have hstep := transition s a
      generalize consumersStep s a = s' at hstep
      cases hstep with
      | submit e =>
        refine ⟨fun x hx => ?_, hhandling⟩
        rcases List.mem_append.mp hx with hold | hnew
        · exact hqueue x hold
        · exact List.mem_singleton.mp hnew ▸ ha e rfl
      | take arn e rest hnil hcons =>
        refine ⟨fun x hx => hqueue x (hcons ▸ List.mem_cons_of_mem e hx), ?_⟩
        intro request new hmem
        rw [(launch_of_mem_handleEvent hmem).1]
        exact hqueue e (hcons ▸ List.mem_cons_self)
      | act effect rest hcons =>
        exact ⟨hqueue, fun r new h => hhandling r new (hcons ▸ List.mem_cons_of_mem effect h)⟩
      | idle | cancel | list | stop | exit => exact ⟨hqueue, hhandling⟩
  · obtain ⟨hqueue, hhandling, -, -⟩ := hcomplete
    rw [hqueue, hhandling]
    exact ⟨fun _ h => absurd h List.not_mem_nil, fun _ _ h => absurd h List.not_mem_nil⟩

/-- **When cancellation wins.** After a run in which every message was handled, no task of
the job runs and none will be launched, if and only if each launch for the job was followed
by a `ListTasks` call for the job's `startedBy`, unless the task ended on its own. -/
theorem cancellationWins_iff (w : World) (jobId : JobId) (actions : List Action)
    (hcomplete : (run consumersStep (.ofTopics w) actions).Complete) :
    CancellationWins jobId (run consumersStep (.ofTopics w) actions) ↔
      ListedAfterLaunch jobId (.ofTopics w) actions := by
  have hsound : ∀ before, Sound (run consumersStep (.ofTopics w) before) :=
    fun before => sound_invariant.run (sound_ofTopics w) before
  constructor
  · rintro ⟨hnone, -⟩ before a after task rfl hlaunch rfl
    by_contra hnever
    rw [not_or] at hnever
    obtain ⟨hlist, hexit⟩ := hnever
    obtain ⟨hsettled, hmem, hstopping⟩ := settled_of_launches (hsound before) hlaunch
    have hrun : run consumersStep (.ofTopics w) (before ++ [a]) =
        consumersStep (run consumersStep (.ofTopics w) before) a := by
      rw [run_append]
      rfl
    have hend := mem_of_not_listed (hrun ▸ hsound (before ++ [a])) hsettled hmem hstopping hexit
      fun middle l rest heq hl => hlist ⟨middle, l, rest, heq, by
        rw [run_append, run_cons]
        exact hl⟩
    refine hnone task ?_ rfl
    rw [run_append, run_cons]
    exact hend
  · intro hlisted
    refine ⟨?_, fun later hlater => no_launch_later hcomplete hlater⟩
    rintro task hmem rfl
    obtain ⟨before, a, after, rfl, hbefore, hafter⟩ :=
      exists_step_of_run (P := fun s : Consumers => task ∈ s.cluster)
        (by exact List.not_mem_nil) hmem
    have hlaunch : Launches task (run consumersStep (.ofTopics w) before) a :=
      ((transition _ a).mem_cluster hafter).resolve_left hbefore
    obtain ⟨hsettled, -, -⟩ := settled_of_launches (hsound before) hlaunch
    have hstarted : task.startedBy = startedBy task.jobId := (hsound _).startedBy_eq task hmem
    have hsettle : Invariant consumersStep (Settled task) := fun s b h => h.step b
    rcases hlisted before a after task rfl hlaunch rfl with ⟨middle, l, rest, rfl, hl⟩ | hexit
    · have hmiddle := hsettle.run hsettled middle
      rw [run_append, run_cons] at hl hmem hcomplete
      rw [run_append, run_cons] at hmem hcomplete
      exact not_mem_of_doomed (hmiddle.step l) (doomed_of_listsFor hstarted hl) hcomplete hmem
    · obtain ⟨middle, rest, rfl⟩ := List.append_of_mem hexit
      have hmiddle := hsettle.run hsettled middle
      rw [run_append, run_cons] at hmem hcomplete
      rw [run_append, run_cons] at hmem hcomplete
      have hgone : Doomed task (consumersStep (run consumersStep
          (consumersStep (run consumersStep (.ofTopics w) before) a) middle) (.exit task.arn)) :=
        .inr fun h => (mem_stopTask.mp h).2 rfl
      exact not_mem_of_doomed (hmiddle.step _) hgone hcomplete hmem

/-- The job service after a job was submitted and cancelled, both events published. -/
def cancelledWorld : World :=
  run JobService.step World.empty
    [.create "job-1" 0 .delivered sampleRequest, .cancel "job-1" 1 .delivered]

/-- The ARN of the task in the examples. -/
def sampleArn : TaskArn := ⟨"arn:aws:ecs:us-east-1:task/spark/1", by decide⟩

/-- `cancellationWins_iff` when the submission is handled before the cancel event. -/
theorem cancellationWins_iff_launch_first :
    CancellationWins "job-1" (run consumersStep (.ofTopics cancelledWorld)
        [.take sampleArn, .act, .act, .act, .list, .stop]) ↔
      ListedAfterLaunch "job-1" (.ofTopics cancelledWorld)
        [.take sampleArn, .act, .act, .act, .list, .stop] :=
  cancellationWins_iff cancelledWorld "job-1" _ ⟨rfl, rfl, rfl, rfl⟩

/-- The cancel event is published, and handled before the submission: the task is launched
and runs on. -/
theorem cancel_handled_first_runs_on :
    cancelledWorld.statusTopic = [⟨"job-1", none⟩] ∧
      (run consumersStep (.ofTopics cancelledWorld)
        [.list, .take sampleArn, .act, .act, .act]).Complete ∧
      ¬ CancellationWins "job-1" (run consumersStep (.ofTopics cancelledWorld)
        [.list, .take sampleArn, .act, .act, .act]) := by
  refine ⟨rfl, ⟨rfl, rfl, rfl, rfl⟩, ?_⟩
  rintro ⟨hnone, -⟩
  have hrunning : (⟨sampleArn, "job-1", startedBy "job-1"⟩ : Task) ∈ (run consumersStep
      (.ofTopics cancelledWorld) [.list, .take sampleArn, .act, .act, .act]).cluster :=
    List.mem_cons_self
  exact hnone _ hrunning rfl

end DataHarbour.Orchestrator
