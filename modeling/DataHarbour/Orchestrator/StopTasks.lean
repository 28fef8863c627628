import DataHarbour.JobService.Operations
import DataHarbour.Orchestrator.EcsManager
import DataHarbour.Python.Loops
import DataHarbour.Python.Routines

/-!
# Stopping the tasks of a job

`delete_spark_job` stops what `ListTasks` finds under the `startedBy` of a job. That text holds
only the first eight characters of the job's id, so the tasks of two jobs whose ids agree there
are stopped together.
-/

namespace DataHarbour.Orchestrator

open Python

/-- The running tasks, all started by `create_spark_job`. -/
structure EcsCluster where
  tasks : List Task
  nodup : (tasks.map Task.arn).Nodup
  started : ∀ task ∈ tasks, ∃ jobEvent request, runTaskRequest jobEvent = .ok request ∧
    task = request.toTask task.arn

/-- A page of a `ListTasks` answer: its `taskArns`, unless the key is missing. -/
abbrev Page := Option (List TaskArn)

/-- A `StopTask` call. -/
structure StopCall where
  task : TaskArn
  reason : String

namespace ECSJobManager

/-- `_list_running_tasks_for_job`; `listTasks` yields the pages for a `startedBy`. -/
def listRunningTasksForJob (listTasks : String → Except Exc (List Page)) (jobId : String) :
    Except Exc (List TaskArn) := do
  let pages ← listTasks (startedBy jobId)
  return pages.flatMap fun page => page.getD []

/-- `stop_task`; `clientErrors n` is the error of the call after `n` others, if it fails. -/
def stopTask (clientErrors : ℕ → Option String) (jobId : String) (arn : TaskArn) :
    Routine StopCall Unit :=
  .perform ⟨arn, s!"User cancelled job {jobId}"⟩ fun before =>
    match clientErrors before.length with
    | some text => .error (.clientError text)
    | none => .ok ()

/-- The body of the loop in `delete_spark_job`: a `ClientError` is logged. -/
def tryStopTask (clientErrors : ℕ → Option String) (jobId : String) (arn : TaskArn) :
    Routine StopCall Unit := do
  try
    stopTask clientErrors jobId arn
  catch
    | .clientError _ => pure ()
    | e => throw e

/-- `delete_spark_job`. -/
def deleteSparkJob (listTasks : String → Except Exc (List Page))
    (clientErrors : ℕ → Option String) (jobId : String) : Routine StopCall Bool := do
  let arns ← listRunningTasksForJob listTasks jobId
  if arns.isEmpty then
    return false
  arns.forM (tryStopTask clientErrors jobId)
  return true

end ECSJobManager

/-- `ListTasks` filters by `startedBy`, and its pages list each task that it finds once. -/
def ListsTasks (cluster : EcsCluster) (listTasks : String → Except Exc (List Page)) : Prop :=
  ∀ text, ∃ pages, listTasks text = .ok pages ∧
    (pages.flatMap fun page => page.getD []).Perm
      ((cluster.tasks.filter (·.startedBy = text)).map Task.arn)

/-- Each task of the job is stopped by one call, and no call is for a task of another job. -/
structure StopsOwnTasks (cluster : EcsCluster) (jobId : String) (calls : List StopCall) : Prop where
  own : ∀ task ∈ cluster.tasks, task.jobId = jobId → (calls.map StopCall.task).count task.arn = 1
  others : ∀ task ∈ cluster.tasks, task.jobId ≠ jobId → task.arn ∉ calls.map StopCall.task

/-- Two ids have the same `startedBy` if they agree in their first eight characters. -/
theorem startedBy_eq_iff {jobId jobId' : String} :
    startedBy jobId = startedBy jobId' ↔ jobId.toList.take 8 = jobId'.toList.take 8 := by
  unfold startedBy
  rw [← String.toList_inj, String.toList_append, String.toList_append, List.append_cancel_left_eq,
    String.toList_ofList, String.toList_ofList]

/-- `create_spark_job` names the job of the event in `startedBy`. -/
theorem startedBy_of_runTaskRequest {jobEvent : Json} {request : RunTaskRequest}
    (h : runTaskRequest jobEvent = .ok request) : request.startedBy = startedBy request.jobId := by
  simp only [runTaskRequest, bind_eq_ok] at h
  obtain ⟨_, -, _, -, _, -, _, -, _, -, _, -, _, -, _, -, _, -, _, -, _, -, hrequest⟩ := h
  rw [← Except.ok.inj hrequest]

/-- A task of the cluster carries the `startedBy` of its job. -/
theorem EcsCluster.startedBy_eq (cluster : EcsCluster) {task : Task} (h : task ∈ cluster.tasks) :
    task.startedBy = startedBy task.jobId := by
  obtain ⟨jobEvent, request, hrequest, htask⟩ := cluster.started task h
  rw [htask]
  exact startedBy_of_runTaskRequest hrequest

section Stops

variable {cluster : EcsCluster} {listTasks : String → Except Exc (List Page)}

private theorem run_tryStopTask (clientErrors : ℕ → Option String) (jobId : String) (arn : TaskArn)
    (before : List StopCall) :
    (ECSJobManager.tryStopTask clientErrors jobId arn).run before =
      ([⟨arn, s!"User cancelled job {jobId}"⟩], .ok ()) := by
  cases hanswer : clientErrors before.length with
  | none =>
    have hstop : (ECSJobManager.stopTask clientErrors jobId arn).run before =
        ([⟨arn, s!"User cancelled job {jobId}"⟩], .ok ()) := by
      simp only [ECSJobManager.stopTask, Routine.perform, hanswer]
    exact Routine.run_tryCatch_of_ok hstop
  | some text =>
    have hstop : (ECSJobManager.stopTask clientErrors jobId arn).run before =
        ([⟨arn, s!"User cancelled job {jobId}"⟩], .error (.clientError text)) := by
      simp only [ECSJobManager.stopTask, Routine.perform, hanswer]
    exact Routine.run_tryCatch_of_error hstop rfl

/-- Whatever calls fail, there is one for each task that was listed. -/
theorem tasks_deleteSparkJob {jobId : String} {arns : List TaskArn}
    (h : ECSJobManager.listRunningTasksForJob listTasks jobId = .ok arns)
    (clientErrors : ℕ → Option String) :
    ((ECSJobManager.deleteSparkJob listTasks clientErrors jobId).run []).1.map StopCall.task =
      arns := by
  rw [ECSJobManager.deleteSparkJob, h, Routine.bind_liftM_ok]
  cases arns with
  | nil => rfl
  | cons arn arns =>
    have hloop (before : List StopCall) :
        ((arn :: arns).forM (ECSJobManager.tryStopTask clientErrors jobId)).run before =
          ((arn :: arns).flatMap fun x => [⟨x, s!"User cancelled job {jobId}"⟩], .ok ()) :=
      Routine.run_forM_of_returns
        (fun x _ earlier => run_tryStopTask clientErrors jobId x earlier) before
    rw [List.isEmpty_cons, if_neg Bool.false_ne_true,
      Routine.run_bind_of_ok (hloop []) (Eq.refl ([], Except.ok true)), List.append_nil,
      ← List.map_eq_flatMap, List.map_map]
    exact List.map_id _

private theorem nodup_listed (cluster : EcsCluster) (text : String) :
    ((cluster.tasks.filter (·.startedBy = text)).map Task.arn).Nodup :=
  cluster.nodup.sublist (List.filter_sublist.map Task.arn)

/-- A running task is listed for the job if its own job has the same `startedBy`. -/
theorem arn_mem_listed_iff {jobId : String} {task : Task} (htask : task ∈ cluster.tasks) :
    task.arn ∈ (cluster.tasks.filter (·.startedBy = startedBy jobId)).map Task.arn ↔
      task.jobId.toList.take 8 = jobId.toList.take 8 := by
  rw [← startedBy_eq_iff, ← cluster.startedBy_eq htask]
  constructor
  · intro h
    obtain ⟨other, hother, harn⟩ := List.mem_map.mp h
    obtain ⟨hmem, hstarted⟩ := List.mem_filter.mp hother
    have hsame : other = task := List.inj_on_of_nodup_map cluster.nodup hmem htask harn
    exact hsame ▸ of_decide_eq_true hstarted
  · intro h
    exact List.mem_map_of_mem (List.mem_filter.mpr ⟨htask, decide_eq_true h⟩)

/-- The calls are for the tasks that `ListTasks` found. -/
theorem perm_deleteSparkJob (hlist : ListsTasks cluster listTasks)
    (clientErrors : ℕ → Option String) (jobId : String) :
    (((ECSJobManager.deleteSparkJob listTasks clientErrors jobId).run []).1.map
      StopCall.task).Perm
        ((cluster.tasks.filter (·.startedBy = startedBy jobId)).map Task.arn) := by
  obtain ⟨pages, hpages, hperm⟩ := hlist (startedBy jobId)
  have harns : ECSJobManager.listRunningTasksForJob listTasks jobId =
      .ok (pages.flatMap fun page => page.getD []) := by
    rw [ECSJobManager.listRunningTasksForJob, hpages]
    rfl
  rwa [tasks_deleteSparkJob harns clientErrors]

/-- **Whose tasks a cancellation stops.** Whatever pages `ListTasks` answers with and whatever
`StopTask` calls fail, the tasks of the job are stopped, and no others, if and only if no other
job with a running task has an id with the same first eight characters. -/
theorem stops_own_tasks_iff (hlist : ListsTasks cluster listTasks)
    (clientErrors : ℕ → Option String) (jobId : String) :
    StopsOwnTasks cluster jobId
        ((ECSJobManager.deleteSparkJob listTasks clientErrors jobId).run []).1 ↔
      ∀ task ∈ cluster.tasks, task.jobId ≠ jobId →
        task.jobId.toList.take 8 ≠ jobId.toList.take 8 := by
  have hperm := perm_deleteSparkJob hlist clientErrors jobId
  constructor
  · intro h task htask hother hsame
    exact h.others task htask hother (hperm.mem_iff.mpr ((arn_mem_listed_iff htask).mpr hsame))
  · intro h
    refine ⟨fun task htask hown => ?_, fun task htask hother hcall => ?_⟩
    · have hlisted := (arn_mem_listed_iff htask).mpr (congrArg (·.toList.take 8) hown)
      rw [hperm.count_eq]
      exact List.count_eq_one_of_mem (nodup_listed cluster _) hlisted
    · exact h task htask hother ((arn_mem_listed_iff htask).mp (hperm.mem_iff.mp hcall))

end Stops

/-! ## Two jobs with a running task each -/

/-- The ARNs of the two tasks. -/
def firstArn : TaskArn := ⟨"arn:aws:ecs:us-east-1:task/spark/a", by decide⟩

def secondArn : TaskArn := ⟨"arn:aws:ecs:us-east-1:task/spark/b", by decide⟩

/-- A cluster with a task for each of two jobs. -/
def twoTasks (jobId jobId' : String) : EcsCluster where
  tasks := [⟨firstArn, jobId, startedBy jobId⟩, ⟨secondArn, jobId', startedBy jobId'⟩]
  nodup := by
    simp only [List.map_cons, List.map_nil]
    decide
  started := by
    intro task htask
    have hrequest (id : String) :=
      runTaskRequest_toJson (JobService.originalEvent id JobService.sampleRequest)
    rcases List.mem_pair.mp htask with rfl | rfl
    · exact ⟨_, _, hrequest jobId, rfl⟩
    · exact ⟨_, _, hrequest jobId', rfl⟩

/-- `ListTasks` with the first task that it finds on a page of its own. -/
def listInPages (cluster : EcsCluster) (text : String) : Except Exc (List Page) :=
  let arns := (cluster.tasks.filter (·.startedBy = text)).map Task.arn
  .ok [some (arns.take 1), none, some (arns.drop 1)]

private theorem listsTasks_listInPages (cluster : EcsCluster) :
    ListsTasks cluster (listInPages cluster) := by
  intro text
  refine ⟨_, rfl, ?_⟩
  simp only [List.flatMap_cons, List.flatMap_nil, Option.getD_some, Option.getD_none,
    List.nil_append, List.append_nil, List.take_append_drop]
  exact List.Perm.refl _

/-- The id of a job, an id with the same first eight characters, and one with others. -/
def sampleId : String := "3f2504e0-4f89-41d3-9a0c-0305e82c3301"

def clashingId : String := "3f2504e0-9b2c-4d1e-8f3a-6c7d8e9f0a1b"

def distinctId : String := "9b2c4d1e-8f3a-4c7d-8e9f-0a1b2c3d4e5f"

/-- `stops_own_tasks_iff` for two jobs, when the first `StopTask` call fails. -/
theorem stops_own_tasks_two_jobs :
    StopsOwnTasks (twoTasks sampleId distinctId) sampleId
      ((ECSJobManager.deleteSparkJob (listInPages (twoTasks sampleId distinctId))
        (fun n => if n = 0 then some "ThrottlingException" else none) sampleId).run []).1 := by
  refine (stops_own_tasks_iff (listsTasks_listInPages _) _ _).mpr fun task htask hother => ?_
  rcases List.mem_pair.mp htask with rfl | rfl
  · exact absurd rfl hother
  · decide

/-- The cancellation of a job stops the task of another one. -/
theorem cancellation_stops_another_job :
    ¬ StopsOwnTasks (twoTasks sampleId clashingId) sampleId
      ((ECSJobManager.deleteSparkJob (listInPages (twoTasks sampleId clashingId))
        (fun _ => none) sampleId).run []).1 := by
  intro h
  have htask : (⟨secondArn, clashingId, startedBy clashingId⟩ : Task) ∈
      (twoTasks sampleId clashingId).tasks :=
    List.mem_cons_of_mem _ (List.mem_singleton_self _)
  have hcalls := perm_deleteSparkJob (listsTasks_listInPages (twoTasks sampleId clashingId))
    (fun _ => none) sampleId
  exact h.others _ htask (by decide)
    (hcalls.mem_iff.mpr ((arn_mem_listed_iff htask).mpr (by decide)))

end DataHarbour.Orchestrator
