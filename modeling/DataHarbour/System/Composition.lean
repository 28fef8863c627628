import DataHarbour.JobService.Budget
import DataHarbour.Machine.Runs
import DataHarbour.Orchestrator.JobConsumer

/-!
# The composed system

The job service, `JobConsumer` and the Spark containers. `JobConsumer` handles the messages of
the job topic in order and one at a time; each container reports `RUNNING` and then, when
`spark-submit` has ended, `SUCCESS` or `FAILED`. Every publish succeeds and every callback is
delivered once. The steps of the three parties interleave freely.
-/

namespace DataHarbour.System

open Python JobService Orchestrator

/-- How far the entrypoint of a container has come. -/
inductive ContainerPhase where
  /-- Nothing reported yet. -/
  | started
  /-- `RUNNING` has been reported. -/
  | running
  /-- The final status has been reported. -/
  | exited (code : ℤ)
  deriving DecidableEq

/-- The container of a launched task. -/
structure Container where
  request : RunTaskRequest
  arn : TaskArn
  phase : ContainerPhase := .started

/-- The container still has a report to make. -/
def Container.live (c : Container) : Bool :=
  match c.phase with
  | .exited _ => false
  | _ => true

/-- The state of the three parties, with a record of the `RunTask` calls and dead letters. -/
structure Composition where
  world : World
  /-- The number of messages that `JobConsumer` has taken from the job topic. -/
  offset : ℕ
  /-- `job_event`, the message that `_process_message` was last called with. -/
  message : Option JobEvent := none
  /-- What `_process_message` has still to do. -/
  inHand : List Effect := []
  /-- The containers, in the order of their launches. -/
  containers : List Container := []
  calls : List (RunTaskRequest × RunTaskOutcome) := []
  deadLetters : List DeadLetter := []
  /-- The number of transactions of the job service so far. -/
  clock : ℕ := 0

/-- `STATUS` in `entrypoint.sh`. -/
def exitStatus (code : ℤ) : JobStatus :=
  if code = 0 then .success else .failed

/-- A status callback is handled by the job service; `time` is its clock. -/
def Composition.deliver (time : ℕ → Time) (s : Composition) (jobId : JobId)
    (u : JobStatusUpdate) : Composition :=
  { s with
    world := (updateJobStatus s.world jobId (time s.clock) .delivered u).1
    clock := s.clock + 1 }

/-- An effect of `_process_message` takes place. A callback whose job id is not a string
leads to no job. -/
def Composition.perform (time : ℕ → Time) (s : Composition) : Effect → Composition
  | .callback (.str jobId) u => s.deliver time jobId u
  | .callback _ _ => s
  | .runTask request outcome =>
    { s with
      calls := s.calls ++ [(request, outcome)]
      containers :=
        match outcome with
        | .task arn => s.containers ++ [{ request := request, arn := arn }]
        | _ => s.containers }
  | .sleep _ => s
  | .deadLetter record => { s with deadLetters := s.deadLetters ++ [record] }

/-- A container moves on to another phase. -/
def Composition.setPhase (s : Composition) (i : ℕ) (phase : ContainerPhase) : Composition :=
  { s with containers := s.containers.modify i fun c => { c with phase := phase } }

/-- A step of one party. -/
inductive Move where
  /-- `create_job`. -/
  | create (jobId : JobId) (request : JobCreateRequest)
  /-- `JobConsumer` takes the next message; `outcomes n` is what `RunTask` will answer in the
  `n`-th attempt. -/
  | take (outcomes : ℕ → RunTaskOutcome)
  /-- `JobConsumer` goes on with the message in hand. -/
  | act
  /-- The `i`-th container reports `RUNNING`. -/
  | report (i : ℕ)
  /-- The `i`-th container reports its final status. -/
  | finish (i : ℕ) (code : ℤ)

/-- The state after a step; a step that is not enabled changes nothing. -/
def move (time : ℕ → Time) (s : Composition) : Move → Composition
  | .create jobId request =>
    { s with
      world := (createJob s.world jobId (time s.clock) .delivered request).1
      clock := s.clock + 1 }
  | .take outcomes =>
    match s.inHand, s.world.jobTopic[s.offset]? with
    | [], some e =>
      { s with offset := s.offset + 1, message := some e, inHand := handleEvent e outcomes }
    | _, _ => s
  | .act =>
    match s.inHand with
    | effect :: rest => { s with inHand := rest }.perform time effect
    | [] => s
  | .report i =>
    match s.containers[i]? with
    | some c =>
      if c.phase = .started then
        (s.deliver time c.request.jobId { status := .running }).setPhase i .running
      else s
    | none => s
  | .finish i code =>
    match s.containers[i]? with
    | some c =>
      if c.phase = .running then
        (s.deliver time c.request.jobId
          { status := exitStatus code, exitCode := some code }).setPhase i (.exited code)
      else s
    | none => s

/-- The events that `JobConsumer` has not taken yet. -/
def Composition.pending (s : Composition) : List JobEvent :=
  s.world.jobTopic.drop s.offset

/-- A system at rest: everything published so far has been handled. -/
def Composition.atRest (w : World) : Composition :=
  { world := w, offset := w.jobTopic.length }

/-! ## What one step can do -/

section Frame

variable (time : ℕ → Time) (s : Composition) (effect : Effect)

/-- An effect leaves the offset of the consumer. -/
@[simp] theorem perform_offset : (s.perform time effect).offset = s.offset := by
  unfold Composition.perform
  split <;> rfl

/-- An effect leaves the message in hand. -/
@[simp] theorem perform_message : (s.perform time effect).message = s.message := by
  unfold Composition.perform
  split <;> rfl

/-- An effect leaves the work in hand. -/
@[simp] theorem perform_inHand : (s.perform time effect).inHand = s.inHand := by
  unfold Composition.perform
  split <;> rfl

end Frame

/-- What taking a message does. -/
theorem take_cases (time : ℕ → Time) (s : Composition) (outcomes : ℕ → RunTaskOutcome) :
    move time s (.take outcomes) = s ∨
    ∃ e, s.inHand = [] ∧ s.world.jobTopic[s.offset]? = some e ∧
      move time s (.take outcomes) =
        { s with offset := s.offset + 1, message := some e, inHand := handleEvent e outcomes } := by
  cases hhand : s.inHand with
  | cons effect rest => exact .inl (by simp only [move, hhand])
  | nil =>
    cases htopic : s.world.jobTopic[s.offset]? with
    | none => exact .inl (by simp only [move, hhand, htopic])
    | some e => exact .inr ⟨e, rfl, rfl, by simp only [move, hhand, htopic]⟩

/-- What performing the next effect does. -/
theorem act_cases (time : ℕ → Time) (s : Composition) :
    (s.inHand = [] ∧ move time s .act = s) ∨
    ∃ effect rest, s.inHand = effect :: rest ∧
      move time s .act = { s with inHand := rest }.perform time effect := by
  cases hhand : s.inHand with
  | nil => exact .inl ⟨rfl, by simp only [move, hhand]⟩
  | cons effect rest => exact .inr ⟨effect, rest, rfl, by simp only [move, hhand]⟩

/-- What a container's first report does. -/
theorem report_cases (time : ℕ → Time) (s : Composition) (i : ℕ) :
    move time s (.report i) = s ∨
    ∃ c, s.containers[i]? = some c ∧ c.phase = .started ∧
      move time s (.report i) =
        (s.deliver time c.request.jobId { status := .running }).setPhase i .running := by
  cases hget : s.containers[i]? with
  | none => exact .inl (by simp only [move, hget])
  | some c =>
    by_cases hphase : c.phase = .started
    · exact .inr ⟨c, rfl, hphase, by simp only [move, hget, hphase, if_true]⟩
    · exact .inl (by simp only [move, hget, hphase, if_false])

/-- What the end of a container does. -/
theorem finish_cases (time : ℕ → Time) (s : Composition) (i : ℕ) (code : ℤ) :
    move time s (.finish i code) = s ∨
    ∃ c, s.containers[i]? = some c ∧ c.phase = .running ∧
      move time s (.finish i code) =
        (s.deliver time c.request.jobId
          { status := exitStatus code, exitCode := some code }).setPhase i (.exited code) := by
  cases hget : s.containers[i]? with
  | none => exact .inl (by simp only [move, hget])
  | some c =>
    by_cases hphase : c.phase = .running
    · exact .inr ⟨c, rfl, hphase, by simp only [move, hget, hphase, if_true]⟩
    · exact .inl (by simp only [move, hget, hphase, if_false])

end DataHarbour.System
