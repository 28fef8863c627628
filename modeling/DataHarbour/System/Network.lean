import DataHarbour.JobService.ConcurrentRetries
import DataHarbour.Machine.Simulation
import DataHarbour.System.Composition

/-!
# The system on an unreliable network

The job service, any number of `JobConsumer`s and the Spark containers, without the guarantees of
the composed system. A status callback that was sent may arrive late, more than once, or never; a
message of the job topic may be handed out again, also while another consumer is still at work on
it; a consumer may crash between any two effects; a publish may fail; a `RunTask` call that raises
may have started a task all the same. The transactions of the job service overlap: each reads its
row and publishes its event, and later commits or is rolled back.

Every run of the composed system is one of the runs of the network.
-/

namespace DataHarbour.System

open Python Relational Machine JobService Orchestrator

/-- An open transaction of the job service. -/
inductive Session where
  /-- `create_job`, with the row that it has flushed. -/
  | insert (row : Job)
  /-- `update_job_status` or `cancel_job`, with its row as it was loaded and as it was assigned
  to. -/
  | write (loaded assigned : Job)

/-- The committed rows, the topics and the metrics, the open transactions, what has been sent, and
the other two parties, with a record of calls, dead letters and cancellations. -/
structure Network (ι : Type*) where
  world : World
  /-- The UUIDs that `create_job` has drawn. -/
  drawn : List JobId := []
  sessions : List Session := []
  /-- The status callbacks that have been sent. -/
  sent : List (JobId × JobStatusUpdate) := []
  /-- What each `_process_message` has still to do. -/
  inHand : ι → List Effect := fun _ => []
  /-- The containers, in the order of their launches. -/
  containers : List Container := []
  calls : List (RunTaskRequest × RunTaskOutcome) := []
  deadLetters : List DeadLetter := []
  /-- The jobs for which `cancel_job` has found something to do. -/
  cancelled : List JobId := []

/-- A new deployment. -/
def Network.start {ι : Type*} : Network ι := { world := World.empty }

/-- A step of one party. -/
inductive NetworkStep (ι : Type*) where
  /-- `create_job` up to its commit. -/
  | create (jobId : JobId) (now : Time) (delivery : Delivery) (request : JobCreateRequest)
  /-- `cancel_job` up to its commit. -/
  | cancel (jobId : JobId) (now : Time) (delivery : Delivery)
  /-- The `n`-th callback arrives, perhaps once more: `update_job_status` up to its commit. -/
  | arrive (n : ℕ) (now : Time) (delivery : Delivery)
  /-- The `n`-th open transaction commits. -/
  | commit (n : ℕ)
  /-- The `n`-th open transaction is rolled back. -/
  | rollback (n : ℕ)
  /-- A consumer is handed the message at an offset; `outcomes n` is what `RunTask` will answer in
  the `n`-th attempt. -/
  | take (i : ι) (offset : ℕ) (outcomes : ℕ → RunTaskOutcome)
  /-- A consumer goes on with the message in hand; `started` is the task that a `RunTask` call
  which raises has started, if any. -/
  | act (i : ι) (started : Option TaskArn)
  /-- A consumer crashes. -/
  | crash (i : ι)
  /-- The `n`-th container reports `RUNNING`. -/
  | report (n : ℕ)
  /-- The `n`-th container reports its final status. -/
  | finish (n : ℕ) (code : ℤ)

variable {ι : Type*}

/-- `create_job` up to its commit. A UUID that is in use violates the primary key before anything
is published. -/
def Network.create (s : Network ι) (jobId : JobId) (now : Time) (delivery : Delivery)
    (request : JobCreateRequest) : Network ι :=
  if jobId ∈ s.drawn then
    { s with world := { s.world with metrics := s.world.metrics.submitted request } }
  else
    { s with
      world := { (createJob s.world jobId now delivery request).1 with jobs := s.world.jobs }
      drawn := jobId :: s.drawn
      sessions := s.sessions ++ [.insert ((newJob jobId now request).afterEnqueue delivery)] }

/-- `update_job_status` up to its commit. -/
def Network.update (s : Network ι) (jobId : JobId) (now : Time) (delivery : Delivery)
    (u : JobStatusUpdate) : Network ι :=
  match s.world.jobs.find? jobId with
  | none => s
  | some job =>
    { s with
      world := { (updateJobStatus s.world jobId now delivery u).1 with jobs := s.world.jobs }
      sessions := s.sessions ++ [.write job (job.updated u now)] }

/-- `cancel_job` up to its commit. -/
def Network.cancel (s : Network ι) (jobId : JobId) (now : Time) (delivery : Delivery) :
    Network ι :=
  match s.world.jobs.find? jobId with
  | none => s
  | some job =>
    if job.status.isTerminal then s
    else
      { s with
        world := { (cancelJob s.world jobId now delivery).1 with jobs := s.world.jobs }
        sessions := s.sessions ++ [.write job (job.cancelled now)]
        cancelled := jobId :: s.cancelled }

/-- The rows after a transaction commits. -/
def Session.commit (jobs : Table Job.jobId) : Session → Table Job.jobId
  | .insert row => (jobs.insert? row).getD jobs
  | .write loaded assigned =>
    match jobs.find? loaded.jobId with
    | none => jobs
    | some current => jobs.set (loaded.flush assigned current)

/-- The task that a `RunTask` call has started; `unacknowledged` is the one of a call that
raises. -/
def startedTask (unacknowledged : Option TaskArn) : RunTaskOutcome → Option TaskArn
  | .task arn => some arn
  | .raised _ => unacknowledged
  | _ => none

/-- An effect of `_process_message` takes place; a callback is only sent. -/
def Network.perform (s : Network ι) (started : Option TaskArn) : Effect → Network ι
  | .callback (.str jobId) u => { s with sent := s.sent ++ [(jobId, u)] }
  | .callback _ _ => s
  | .runTask request outcome =>
    { s with
      calls := s.calls ++ [(request, outcome)]
      containers := s.containers ++
        (startedTask started outcome).toList.map fun arn => { request := request, arn := arn } }
  | .sleep _ => s
  | .deadLetter record => { s with deadLetters := s.deadLetters ++ [record] }

/-- A container sends a report and moves on to another phase. -/
def Network.send (s : Network ι) (n : ℕ) (jobId : JobId) (u : JobStatusUpdate)
    (phase : ContainerPhase) : Network ι :=
  { s with
    sent := s.sent ++ [(jobId, u)]
    containers := s.containers.modify n fun c => { c with phase := phase } }

variable [DecidableEq ι]

/-- The state after a step; a step that is not enabled changes nothing. -/
def networkStep (s : Network ι) : NetworkStep ι → Network ι
  | .create jobId now delivery request => s.create jobId now delivery request
  | .cancel jobId now delivery => s.cancel jobId now delivery
  | .arrive n now delivery =>
    match s.sent[n]? with
    | some (jobId, u) => s.update jobId now delivery u
    | none => s
  | .commit n =>
    match s.sessions[n]? with
    | some session =>
      { s with
        world := { s.world with jobs := session.commit s.world.jobs }
        sessions := s.sessions.eraseIdx n }
    | none => s
  | .rollback n => { s with sessions := s.sessions.eraseIdx n }
  | .take i offset outcomes =>
    match s.inHand i, s.world.jobTopic[offset]? with
    | [], some e => { s with inHand := Function.update s.inHand i (handleEvent e outcomes) }
    | _, _ => s
  | .act i started =>
    match s.inHand i with
    | effect :: rest =>
      { s with inHand := Function.update s.inHand i rest }.perform started effect
    | [] => s
  | .crash i => { s with inHand := Function.update s.inHand i [] }
  | .report n =>
    match s.containers[n]? with
    | some c =>
      if c.phase = .started then s.send n c.request.jobId { status := .running } .running else s
    | none => s
  | .finish n code =>
    match s.containers[n]? with
    | some c =>
      if c.phase = .running then
        s.send n c.request.jobId { status := exitStatus code, exitCode := some code }
          (.exited code)
      else s
    | none => s

/-! ## The composed system as a run of the network -/

private theorem flushColumn_loaded {α : Type*} [DecidableEq α] (loaded assigned : α) :
    flushColumn loaded assigned loaded = assigned := by
  unfold flushColumn
  split
  · next h => exact h.symm
  · rfl

/-- A flush over the row that was loaded leaves the row as it was assigned to. -/
theorem flush_updated (job : Job) (u : JobStatusUpdate) (now : Time) :
    job.flush (job.updated u now) job = job.updated u now := by
  unfold Job.flush
  rcases updated_cases job u now with ⟨-, -, h, -⟩ | ⟨-, -, h, -⟩ | ⟨-, h, -⟩
  all_goals
    rw [h]
    simp only [flushColumn_loaded, Job.record]

section Settled

variable {s : Network ι} (hsessions : s.sessions = [])

include hsessions

/-- An undisturbed `create_job`. -/
theorem run_create (jobId : JobId) (now : Time) (delivery : Delivery) (request : JobCreateRequest)
    (hdrawn : jobId ∈ s.drawn ↔ s.world.jobs.find? jobId ≠ none) :
    run networkStep s [.create jobId now delivery request, .commit 0] =
      { s with
        world := (createJob s.world jobId now delivery request).1
        drawn := if jobId ∈ s.drawn then s.drawn else jobId :: s.drawn } := by
  by_cases h : jobId ∈ s.drawn
  · obtain ⟨old, hold⟩ := Option.ne_none_iff_exists'.mp (hdrawn.mp h)
    have hstored := createJob_of_stored now delivery request hold
    rw [step] at hstored
    simp only [run_cons, run_nil, networkStep, Network.create, h, if_true, hsessions,
      List.getElem?_nil, hstored]
  · have hfresh : s.world.jobs.find? jobId = none := by
      by_contra hold
      exact h (hdrawn.mpr hold)
    obtain ⟨hkey, hcreate⟩ := createJob_of_fresh now delivery request hfresh
    rw [step] at hcreate
    simp only [run_cons, run_nil, networkStep, Network.create, h, if_false, hsessions,
      List.nil_append, List.getElem?_cons_zero, List.eraseIdx_cons_zero, Session.commit, hcreate,
      Table.insert?_of_fresh hkey, Option.getD_some]

end Settled

/-- An undisturbed callback. Its transaction is opened last and commits before any other. -/
theorem run_arrive {s : Network ι} {n : ℕ} {jobId : JobId} {u : JobStatusUpdate}
    (hsent : s.sent[n]? = some (jobId, u)) (now : Time) (delivery : Delivery) :
    run networkStep s [.arrive n now delivery, .commit s.sessions.length] =
      { s with world := (updateJobStatus s.world jobId now delivery u).1 } := by
  simp only [run_cons, run_nil, networkStep, hsent, Network.update]
  cases hfind : s.world.jobs.find? jobId with
  | none => simp only [List.getElem?_eq_none le_rfl, updateJobStatus, hfind]
  | some job =>
    have hkey : job.jobId = jobId := Table.key_of_find? hfind
    simp only [List.getElem?_concat_length, List.eraseIdx_append_of_length_le le_rfl,
      Nat.sub_self, List.eraseIdx_cons_zero, List.append_nil, Session.commit, hkey, hfind,
      updateJobStatus, flush_updated]

/-- The network has no open transactions and otherwise the state of the composed system. -/
structure Covers (s : Composition) (t : Network Unit) : Prop where
  world : t.world = s.world
  drawn : ∀ jobId, jobId ∈ t.drawn ↔ s.world.jobs.find? jobId ≠ none
  sessions : t.sessions = []
  inHand : t.inHand () = s.inHand
  containers : t.containers = s.containers
  calls : t.calls = s.calls
  deadLetters : t.deadLetters = s.deadLetters

/-- A callback that is sent, arrives at once and commits. -/
theorem Covers.deliver {s : Composition} {t : Network Unit} (h : Covers s t) (time : ℕ → Time)
    (jobId : JobId) (u : JobStatusUpdate) :
    Covers (s.deliver time jobId u) (run networkStep { t with sent := t.sent ++ [(jobId, u)] }
      [.arrive t.sent.length (time s.clock) .delivered, .commit 0]) := by
  have harrive := run_arrive (s := { t with sent := t.sent ++ [(jobId, u)] })
    List.getElem?_concat_length (time s.clock) .delivered
  have hcommit : t.sessions.length = 0 := by rw [h.sessions, List.length_nil]
  simp only [hcommit] at harrive
  rw [harrive]
  have hworld : (updateJobStatus t.world jobId (time s.clock) .delivered u).1 =
      (s.deliver time jobId u).world := by
    rw [h.world]
    rfl
  refine ⟨hworld, fun k => ?_, h.sessions, h.inHand, h.containers, h.calls, h.deadLetters⟩
  rw [h.drawn k]
  show _ ↔ (step s.world (.update jobId (time s.clock) .delivered u)).jobs.find? k ≠ none
  rw [find?_update]
  split
  · rw [Ne, Ne, Option.map_eq_none_iff]
  · rfl

/-- Another phase, and a report of it. -/
theorem Covers.send {s : Composition} {t : Network Unit} (h : Covers s t) (time : ℕ → Time) (n : ℕ)
    (jobId : JobId) (u : JobStatusUpdate) (phase : ContainerPhase) :
    Covers ((s.deliver time jobId u).setPhase n phase) (run networkStep (t.send n jobId u phase)
      [.arrive t.sent.length (time s.clock) .delivered, .commit 0]) := by
  have hphase : Covers (s.setPhase n phase)
      { t with containers := t.containers.modify n fun c => { c with phase := phase } } :=
    ⟨h.world, h.drawn, h.sessions, h.inHand, congrArg (List.modify · n _) h.containers, h.calls,
      h.deadLetters⟩
  exact hphase.deliver time jobId u

/-- An effect of the consumer takes place. -/
theorem Covers.perform {s : Composition} {t : Network Unit} (h : Covers s t) (time : ℕ → Time)
    (effect : Effect) :
    ∃ steps, Covers (s.perform time effect) (run networkStep (t.perform none effect) steps) := by
  cases effect with
  | callback jobId u =>
    cases jobId with
    | str jobId => exact ⟨_, h.deliver time jobId u⟩
    | _ => exact ⟨[], h⟩
  | runTask request outcome =>
    refine ⟨[], h.world, h.drawn, h.sessions, h.inHand, ?_, ?_, h.deadLetters⟩
    · cases outcome <;> simp [Network.perform, Composition.perform, startedTask, h.containers]
    · exact congrArg (· ++ [(request, outcome)]) h.calls
  | sleep seconds => exact ⟨[], h⟩
  | deadLetter record =>
    exact ⟨[], h.world, h.drawn, h.sessions, h.inHand, h.containers, h.calls,
      congrArg (· ++ [record]) h.deadLetters⟩

/-- Every move of the composed system is a few steps of the network. -/
theorem covers_move (time : ℕ → Time) :
    Simulates (move time) (networkStep (ι := Unit)) Covers fun _ _ => True := by
  intro s t a h
  suffices hsteps : ∃ steps, Covers (move time s a) (run networkStep t steps) from
    hsteps.imp fun _ hcovers => ⟨trivial, hcovers⟩
  cases a with
  | create jobId request =>
    refine ⟨[.create jobId (time s.clock) .delivered request, .commit 0], ?_⟩
    rw [run_create h.sessions jobId (time s.clock) .delivered request (h.world ▸ h.drawn jobId),
      h.world]
    refine ⟨rfl, fun k => ?_, h.sessions, h.inHand, h.containers, h.calls, h.deadLetters⟩
    show _ ↔ (step s.world (.create jobId (time s.clock) .delivered request)).jobs.find? k ≠ none
    rw [find?_create]
    by_cases hdrawn : jobId ∈ t.drawn
    · have hold := (h.drawn jobId).mp hdrawn
      have hnot : ¬ (jobId = k ∧ s.world.jobs.find? k = none) := by
        rintro ⟨rfl, hnone⟩
        exact hold hnone
      simp only [hdrawn, if_true, if_neg hnot, h.drawn k]
    · have hnew : s.world.jobs.find? jobId = none := by
        by_contra hold
        exact hdrawn ((h.drawn jobId).mpr hold)
      simp only [hdrawn, if_false, List.mem_cons, h.drawn k]
      by_cases hk : k = jobId
      · simp [hk, hnew]
      · simp [hk, Ne.symm hk]
  | take outcomes =>
    rcases take_cases time s outcomes with hstay | ⟨e, hhand, htopic, htake⟩
    · exact ⟨[], hstay.symm ▸ h⟩
    · rw [htake]
      refine ⟨[.take () s.offset outcomes], ?_⟩
      simp only [run_cons, run_nil, networkStep, h.inHand, h.world, hhand, htopic]
      exact ⟨rfl, h.drawn, h.sessions, Function.update_self () _ t.inHand, h.containers, h.calls,
        h.deadLetters⟩
  | act =>
    rcases act_cases time s with ⟨-, hstay⟩ | ⟨effect, rest, hhand, hact⟩
    · exact ⟨[], hstay.symm ▸ h⟩
    · rw [hact]
      have hrest : Covers { s with inHand := rest }
          { t with inHand := Function.update t.inHand () rest } :=
        ⟨h.world, h.drawn, h.sessions, Function.update_self () rest t.inHand, h.containers,
          h.calls, h.deadLetters⟩
      obtain ⟨steps, hsteps⟩ := hrest.perform time effect
      refine ⟨.act () none :: steps, ?_⟩
      rw [run_cons]
      simp only [networkStep, h.inHand, hhand]
      exact hsteps
  | report n =>
    rcases report_cases time s n with hstay | ⟨c, hc, hphase, hreport⟩
    · exact ⟨[], hstay.symm ▸ h⟩
    · rw [hreport]
      refine ⟨[.report n, .arrive t.sent.length (time s.clock) .delivered, .commit 0], ?_⟩
      rw [run_cons]
      simp only [networkStep, h.containers, hc, hphase, if_true]
      exact h.send time n c.request.jobId { status := .running } .running
  | finish n code =>
    rcases finish_cases time s n code with hstay | ⟨c, hc, hphase, hfinish⟩
    · exact ⟨[], hstay.symm ▸ h⟩
    · rw [hfinish]
      refine ⟨[.finish n code, .arrive t.sent.length (time s.clock) .delivered, .commit 0], ?_⟩
      rw [run_cons]
      simp only [networkStep, h.containers, hc, hphase, if_true]
      exact h.send time n c.request.jobId _ (.exited code)

/-- **The composed system is a network in which nothing goes wrong.** For every run of the composed
system there is one of the network with the same rows, topics, calls, containers and dead
letters. -/
theorem network_covers_composition (time : ℕ → Time) (moves : List Move) :
    ∃ steps, Covers (run (move time) (.atRest World.empty) moves)
      (run networkStep (.start : Network Unit) steps) := by
  have hstart : Covers (.atRest World.empty) (.start : Network Unit) :=
    ⟨rfl, fun jobId => by simp [Network.start, Composition.atRest, World.empty], rfl, rfl, rfl, rfl,
      rfl⟩
  obtain ⟨steps, -, hsteps⟩ := (covers_move time).run hstart moves
  exact ⟨steps, hsteps⟩

end DataHarbour.System
