import DataHarbour.JobService.Operations
import DataHarbour.Machine.Runs
import DataHarbour.Orchestrator.JobConsumer

/-!
# The two consumers side by side

`JobConsumer` and `CancellationConsumer` read different topics, so their steps interleave in
any order. The state holds both queues, what each consumer still has to do for the message in
hand, and the ECS cluster; `Sound` collects what holds in every reachable state.
-/

namespace DataHarbour.Orchestrator

open Python JobService Machine

/-- What the cancellation loop does with a message: the job id to cancel, if any. -/
def cancellationTarget (event : Json) : Except Exc (Option Json) := do
  let action ← event.get "action" .null
  if action.pyEq (.str "cancel") then
    return some (← event.get "job_id" .null)
  else
    return none

/-- A cancel event of the job service asks for the tasks of its job. -/
theorem cancellationTarget_toJson (e : CancelEvent) :
    cancellationTarget e.toJson = .ok (some (.str e.jobId)) := by
  simp [cancellationTarget, CancelEvent.toJson, Json.get, Json.pyEq,
    bind, Except.bind, pure, Except.pure]

/-- The two consumers, their topics and the cluster. -/
structure Consumers where
  /-- Job events not yet taken by `JobConsumer`. -/
  jobQueue : List JobEvent
  /-- What `JobConsumer` still has to do for the message in hand. -/
  handling : List Effect := []
  /-- Cancel events not yet taken by `CancellationConsumer`. -/
  cancelQueue : List CancelEvent
  /-- The tasks that `delete_spark_job` still has to stop. -/
  stopping : List TaskArn := []
  /-- The running tasks. -/
  cluster : List Task := []
  /-- The ARNs given out so far; ECS does not reuse them. -/
  usedArns : List TaskArn := []

/-- A step of one party. Every `RunTask`, `ListTasks` and `StopTask` call succeeds. -/
inductive Action where
  /-- The job service publishes a submission event. -/
  | submit (e : JobEvent)
  /-- The job service publishes a cancel event. -/
  | cancel (e : CancelEvent)
  /-- `JobConsumer` takes the next message; a launch will get this ARN. -/
  | take (arn : TaskArn)
  /-- `JobConsumer` goes on with the message in hand. -/
  | act
  /-- `CancellationConsumer` takes the next message and calls `ListTasks`. -/
  | list
  /-- `CancellationConsumer` calls `StopTask` for the next listed task. -/
  | stop
  /-- A task ends on its own. -/
  | exit (arn : TaskArn)

/-- The cluster after an effect of `JobConsumer`. -/
def Effect.onCluster (cluster : List Task) : Effect → List Task
  | .runTask request (.task arn) => request.toTask arn :: cluster
  | _ => cluster

/-- The state after a step; a step that is not enabled changes nothing. -/
def consumersStep (s : Consumers) : Action → Consumers
  | .submit e => { s with jobQueue := s.jobQueue ++ [e] }
  | .cancel e => { s with cancelQueue := s.cancelQueue ++ [e] }
  | .take arn =>
    match s.handling, s.jobQueue with
    | [], e :: rest =>
      if arn ∈ s.usedArns then s
      else
        { s with
          jobQueue := rest
          handling := handleEvent e fun _ => .task arn
          usedArns := arn :: s.usedArns }
    | _, _ => s
  | .act =>
    match s.handling with
    | effect :: rest => { s with handling := rest, cluster := effect.onCluster s.cluster }
    | [] => s
  | .list =>
    match s.stopping, s.cancelQueue with
    | [], e :: rest =>
      { s with cancelQueue := rest, stopping := listRunningTasksForJob s.cluster e.jobId }
    | _, _ => s
  | .stop =>
    match s.stopping with
    | arn :: rest => { s with stopping := rest, cluster := stopTask s.cluster arn }
    | [] => s
  | .exit arn => { s with cluster := stopTask s.cluster arn }

/-! ## What a step does -/

/-- A step changes nothing, or it is enabled and does what its action says. -/
inductive Transition (s : Consumers) : Action → Consumers → Prop
  | idle (a : Action) : Transition s a s
  | submit (e : JobEvent) :
    Transition s (.submit e) { s with jobQueue := s.jobQueue ++ [e] }
  | cancel (e : CancelEvent) :
    Transition s (.cancel e) { s with cancelQueue := s.cancelQueue ++ [e] }
  | take (arn : TaskArn) (e : JobEvent) (rest : List JobEvent) (hhandling : s.handling = [])
    (hqueue : s.jobQueue = e :: rest) (harn : arn ∉ s.usedArns) :
    Transition s (.take arn)
      { s with
        jobQueue := rest
        handling := handleEvent e fun _ => .task arn
        usedArns := arn :: s.usedArns }
  | act (effect : Effect) (rest : List Effect) (hhandling : s.handling = effect :: rest) :
    Transition s .act { s with handling := rest, cluster := effect.onCluster s.cluster }
  | list (e : CancelEvent) (rest : List CancelEvent) (hstopping : s.stopping = [])
    (hqueue : s.cancelQueue = e :: rest) :
    Transition s .list
      { s with cancelQueue := rest, stopping := listRunningTasksForJob s.cluster e.jobId }
  | stop (arn : TaskArn) (rest : List TaskArn) (hstopping : s.stopping = arn :: rest) :
    Transition s .stop { s with stopping := rest, cluster := stopTask s.cluster arn }
  | exit (arn : TaskArn) : Transition s (.exit arn) { s with cluster := stopTask s.cluster arn }

/-- `Transition` says all that a step does. -/
theorem transition (s : Consumers) (a : Action) : Transition s a (consumersStep s a) := by
  cases a with
  | submit e => exact .submit e
  | cancel e => exact .cancel e
  | take arn =>
    simp only [consumersStep]
    split
    · next e rest hhandling hqueue =>
      split
      · exact .idle _
      · next harn => exact .take arn e rest hhandling hqueue harn
    · exact .idle _
  | act =>
    simp only [consumersStep]
    split
    · next effect rest hhandling => exact .act effect rest hhandling
    · exact .idle _
  | list =>
    simp only [consumersStep]
    split
    · next e rest hstopping hqueue => exact .list e rest hstopping hqueue
    · exact .idle _
  | stop =>
    simp only [consumersStep]
    split
    · next arn rest hstopping => exact .stop arn rest hstopping
    · exact .idle _
  | exit arn => exact .exit arn

/-- The ARN of the task that an effect launches. -/
def Effect.launchedArn : Effect → Option TaskArn
  | .runTask _ (.task arn) => some arn
  | _ => none

/-- The launches that `JobConsumer` has ahead of it in the message in hand. -/
def Consumers.pending (s : Consumers) : List TaskArn :=
  s.handling.filterMap Effect.launchedArn

/-- Handling an event launches at most one task, under the job's own `startedBy`. -/
theorem pending_handleEvent (e : JobEvent) (arn : TaskArn) :
    (handleEvent e fun _ => .task arn) = launched e arn ∨
      (handleEvent e fun _ => .task arn).filterMap Effect.launchedArn = [] := by
  cases hmax : e.maxRetries with
  | zero =>
    right
    simp [handleEvent, hmax, launchAttempts, exhausted, Effect.launchedArn]
  | succ n =>
    left
    have h := @launchAttempts_of_task e (fun _ => .task arn) 1 arn rfl n none
    rw [hmax] at h
    rw [handleEvent, hmax]
    exact h

/-- A launch for an event carries the event's own request and the ARN of its message. -/
theorem launch_of_mem_handleEvent {e : JobEvent} {request : RunTaskRequest} {arn a : TaskArn}
    (h : .runTask request (.task a) ∈ handleEvent e fun _ => .task arn) :
    request = requestOf e ∧ a = arn := by
  rcases pending_handleEvent e arn with heq | heq
  · simpa [heq, launched] using h
  · have hnone : a ∈ (handleEvent e fun _ => .task arn).filterMap Effect.launchedArn :=
      List.mem_filterMap.mpr ⟨_, h, rfl⟩
    rw [heq] at hnone
    exact absurd hnone List.not_mem_nil

/-- What is known about the tasks and ARNs in every reachable state. -/
structure Sound (s : Consumers) : Prop where
  /-- A task runs under the `startedBy` of its job. -/
  startedBy_eq : ∀ task ∈ s.cluster, task.startedBy = startedBy task.jobId
  /-- So will the launches that are still ahead. -/
  pending_startedBy : ∀ request arn, .runTask request (.task arn) ∈ s.handling →
    request.startedBy = startedBy request.jobId
  /-- ARNs are unique among the running tasks. -/
  cluster_nodup : (s.cluster.map Task.arn).Nodup
  /-- A launch happens once. -/
  pending_nodup : s.pending.Nodup
  /-- Pending launches use ARNs that were given out, and no one has them yet. -/
  pending_used : ∀ arn ∈ s.pending, arn ∈ s.usedArns ∧ arn ∉ s.stopping ∧
    arn ∉ s.cluster.map Task.arn
  /-- Running and listed tasks have ARNs that were given out. -/
  used : ∀ arn, arn ∈ s.stopping ∨ arn ∈ s.cluster.map Task.arn → arn ∈ s.usedArns

private theorem map_arn_stopTask (cluster : List Task) (arn : TaskArn) :
    (stopTask cluster arn).map Task.arn = (cluster.map Task.arn).filter (· ≠ arn) := by
  rw [stopTask, List.filter_map]
  rfl

/-- Stopping a task takes the tasks with its ARN from the cluster. -/
theorem mem_stopTask {cluster : List Task} {arn : TaskArn} {task : Task} :
    task ∈ stopTask cluster arn ↔ task ∈ cluster ∧ task.arn ≠ arn := by
  simp [stopTask]

/-- Stopping a task, or its end, keeps what is known. -/
theorem Sound.stop {s : Consumers} (hs : Sound s) (arn : TaskArn) {rest : List TaskArn}
    (hrest : ∀ a ∈ rest, a ∈ s.stopping) :
    Sound { s with stopping := rest, cluster := stopTask s.cluster arn } where
  startedBy_eq task htask := hs.startedBy_eq task (mem_stopTask.mp htask).1
  pending_startedBy := hs.pending_startedBy
  cluster_nodup := by
    rw [map_arn_stopTask]
    exact hs.cluster_nodup.filter _
  pending_nodup := hs.pending_nodup
  pending_used a ha := by
    obtain ⟨hused, hstopping, hcluster⟩ := hs.pending_used a ha
    refine ⟨hused, fun hmem => hstopping (hrest a hmem), fun hmem => hcluster ?_⟩
    rw [map_arn_stopTask] at hmem
    exact List.mem_of_mem_filter hmem
  used a ha := by
    apply hs.used a
    rcases ha with ha | ha
    · exact .inl (hrest a ha)
    · rw [map_arn_stopTask] at ha
      exact .inr (List.mem_of_mem_filter ha)

/-- The listing shows the running tasks with the `startedBy` of the job. -/
theorem mem_listRunningTasksForJob {cluster : List Task} {jobId : String} {arn : TaskArn} :
    arn ∈ listRunningTasksForJob cluster jobId ↔
      ∃ task ∈ cluster, task.startedBy = startedBy jobId ∧ task.arn = arn := by
  simp only [listRunningTasksForJob, List.mem_map, List.mem_filter, decide_eq_true_eq, and_assoc]

/-- An effect launches nothing and leaves the cluster alone, or is an accepted `RunTask`. -/
theorem Effect.launch_cases (effect : Effect) :
    (effect.launchedArn = none ∧ ∀ cluster, effect.onCluster cluster = cluster) ∨
      ∃ request arn, effect = .runTask request (.task arn) := by
  cases effect with
  | runTask request outcome =>
    cases outcome with
    | task arn => exact .inr ⟨request, arn, rfl⟩
    | raised e => exact .inl ⟨rfl, fun _ => rfl⟩
    | failure reason => exact .inl ⟨rfl, fun _ => rfl⟩
    | noTasks => exact .inl ⟨rfl, fun _ => rfl⟩
  | callback jobId update => exact .inl ⟨rfl, fun _ => rfl⟩
  | sleep seconds => exact .inl ⟨rfl, fun _ => rfl⟩
  | deadLetter record => exact .inl ⟨rfl, fun _ => rfl⟩

/-- A launch keeps what is known: its ARN was reserved for it. -/
theorem Sound.launch {s : Consumers} (hs : Sound s) {request : RunTaskRequest} {arn : TaskArn}
    {rest : List Effect} (hhandling : s.handling = .runTask request (.task arn) :: rest) :
    Sound { s with handling := rest, cluster := request.toTask arn :: s.cluster } := by
  have hpending : s.pending = arn :: rest.filterMap Effect.launchedArn := by
    rw [Consumers.pending, hhandling, List.filterMap_cons]
    rfl
  obtain ⟨hused, hstopping, hfresh⟩ := hs.pending_used arn (hpending ▸ List.mem_cons_self)
  obtain ⟨hnotin, hnodup⟩ := List.nodup_cons.mp (hpending ▸ hs.pending_nodup)
  refine ⟨?_, ?_, List.nodup_cons.mpr ⟨hfresh, hs.cluster_nodup⟩, hnodup, ?_, ?_⟩
  · intro task htask
    rcases List.mem_cons.mp htask with rfl | hold
    · exact hs.pending_startedBy request arn (hhandling ▸ List.mem_cons_self)
    · exact hs.startedBy_eq task hold
  · exact fun r a h => hs.pending_startedBy r a (hhandling ▸ List.mem_cons_of_mem _ h)
  · intro a ha
    have hne : a ≠ arn := fun heq => hnotin (heq ▸ ha)
    obtain ⟨h₁, h₂, h₃⟩ := hs.pending_used a (hpending ▸ List.mem_cons_of_mem arn ha)
    refine ⟨h₁, h₂, fun hmem => ?_⟩
    rcases List.mem_cons.mp hmem with heq | hold
    · exact hne heq
    · exact h₃ hold
  · rintro a (ha | ha)
    · exact hs.used a (.inl ha)
    · rcases List.mem_cons.mp ha with rfl | hold
      · exact hused
      · exact hs.used a (.inr hold)

/-- Going on with the message in hand keeps what is known. -/
theorem Sound.act {s : Consumers} (hs : Sound s) {effect : Effect} {rest : List Effect}
    (hhandling : s.handling = effect :: rest) :
    Sound { s with handling := rest, cluster := effect.onCluster s.cluster } := by
  rcases effect.launch_cases with ⟨hnone, hsame⟩ | ⟨request, arn, rfl⟩
  · have hpending : s.pending = rest.filterMap Effect.launchedArn := by
      rw [Consumers.pending, hhandling, List.filterMap_cons_none hnone]
    have hnodup : (rest.filterMap Effect.launchedArn).Nodup := hpending ▸ hs.pending_nodup
    rw [hsame]
    exact ⟨hs.startedBy_eq,
      fun r a h => hs.pending_startedBy r a (hhandling ▸ List.mem_cons_of_mem effect h),
      hs.cluster_nodup, hnodup, fun a ha => hs.pending_used a (hpending ▸ ha), hs.used⟩
  · exact hs.launch hhandling

/-- Taking a message keeps what is known: its launch gets an ARN of its own. -/
theorem Sound.take {s : Consumers} (hs : Sound s) {arn : TaskArn} (e : JobEvent)
    (rest : List JobEvent) (harn : arn ∉ s.usedArns) :
    Sound { s with
      jobQueue := rest
      handling := handleEvent e fun _ => .task arn
      usedArns := arn :: s.usedArns } := by
  have hpending : (handleEvent e fun _ => .task arn).filterMap Effect.launchedArn = [arn] ∨
      (handleEvent e fun _ => .task arn).filterMap Effect.launchedArn = [] := by
    rcases pending_handleEvent e arn with h | h
    · exact .inl (by rw [h]; rfl)
    · exact .inr h
  have hnodup : ((handleEvent e fun _ => .task arn).filterMap Effect.launchedArn).Nodup := by
    rcases hpending with h | h <;> rw [h]
    · exact List.nodup_singleton arn
    · exact List.nodup_nil
  refine ⟨hs.startedBy_eq, ?_, hs.cluster_nodup, hnodup, ?_,
    fun a ha => List.mem_cons_of_mem arn (hs.used a ha)⟩
  · intro request a h
    rw [(launch_of_mem_handleEvent h).1]
    rfl
  · intro a ha
    replace ha : a ∈ (handleEvent e fun _ => .task arn).filterMap Effect.launchedArn := ha
    have heq : a = arn := by
      rcases hpending with h | h <;> rw [h] at ha
      · exact List.mem_singleton.mp ha
      · exact absurd ha List.not_mem_nil
    subst heq
    exact ⟨List.mem_cons_self, fun h => harn (hs.used a (.inl h)),
      fun h => harn (hs.used a (.inr h))⟩

/-- `ListTasks` keeps what is known. -/
theorem Sound.list {s : Consumers} (hs : Sound s) (e : CancelEvent) (rest : List CancelEvent) :
    Sound { s with
      cancelQueue := rest
      stopping := listRunningTasksForJob s.cluster e.jobId } := by
  have hlisted : ∀ a ∈ listRunningTasksForJob s.cluster e.jobId, a ∈ s.cluster.map Task.arn := by
    intro a ha
    obtain ⟨task, htask, -, rfl⟩ := mem_listRunningTasksForJob.mp ha
    exact List.mem_map_of_mem htask
  exact
    { startedBy_eq := hs.startedBy_eq
      pending_startedBy := hs.pending_startedBy
      cluster_nodup := hs.cluster_nodup
      pending_nodup := hs.pending_nodup
      pending_used := by
        intro a ha
        obtain ⟨h₁, -, h₃⟩ := hs.pending_used a ha
        exact ⟨h₁, fun h => h₃ (hlisted a h), h₃⟩
      used := by
        intro a ha
        rcases ha with ha | ha
        · exact hs.used a (.inr (hlisted a ha))
        · exact hs.used a (.inr ha) }

/-- Every reachable state is sound. -/
theorem sound_invariant : Invariant consumersStep Sound := by
  intro s a hs
  have hstep := transition s a
  generalize consumersStep s a = s' at hstep
  cases hstep with
  | idle => exact hs
  | submit e => exact ⟨hs.1, hs.2, hs.3, hs.4, hs.5, hs.6⟩
  | cancel e => exact ⟨hs.1, hs.2, hs.3, hs.4, hs.5, hs.6⟩
  | take arn e rest hhandling hqueue harn => exact hs.take e rest harn
  | act effect rest hhandling => exact hs.act hhandling
  | list e rest hstopping hqueue => exact hs.list e rest
  | stop arn rest hstopping =>
    exact hs.stop arn fun a ha => hstopping ▸ List.mem_cons_of_mem arn ha
  | exit arn => exact hs.stop arn fun a ha => ha

/-- The consumers before their first step, with what the job service has published. -/
def Consumers.ofTopics (w : World) : Consumers :=
  { jobQueue := w.jobTopic, cancelQueue := w.statusTopic }

/-- The consumers start sound. -/
theorem sound_ofTopics (w : World) : Sound (.ofTopics w) where
  startedBy_eq _ h := absurd h List.not_mem_nil
  pending_startedBy _ _ h := absurd h List.not_mem_nil
  cluster_nodup := List.nodup_nil
  pending_nodup := List.nodup_nil
  pending_used _ h := absurd h List.not_mem_nil
  used _ h := by
    rcases h with h | h
    · exact absurd h List.not_mem_nil
    · exact absurd h List.not_mem_nil

end DataHarbour.Orchestrator
