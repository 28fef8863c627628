import DataHarbour.Orchestrator.LaunchOutcome

/-!
# Malformed events

A message is any JSON value. Most of what can be wrong with it shows in `create_spark_job`, whose
exceptions the launch loop turns into a dead letter. The two lines before the loop stand outside
of its `try`: what they raise leaves `_process_message`, and with it the loop of `start`.
-/

namespace DataHarbour.Orchestrator

open Python JobService

/-- A message on the job topic, with what the outside answers while it is handled. -/
structure Message where
  value : Json
  answers : Answers

/-- What the loop of `start` did with one message. -/
structure Handled where
  message : Message
  effects : List Effect

/-- The loop of `start`. -/
def JobConsumer.start (messages : List Message) : Routine Handled Unit :=
  messages.forM fun message =>
    let (effects, result) := (processMessage message.answers message.value).run []
    .perform ⟨message, effects⟩ fun _ => result

/-- The message led to a task. -/
def Handled.Launched (handled : Handled) : Prop :=
  ∃ arn, arn ∈ handled.effects.filterMap Effect.launchedArn

/-- The value of the message was published to the dead-letter topic. -/
def Handled.Published (handled : Handled) : Prop :=
  ∃ attempts, (handled.message.value, attempts) ∈ handled.effects.filterMap Effect.published

/-- The loop goes on to the end of the messages, and each leads to a task or a dead letter. -/
structure ConsumesAll (messages : List Message) : Prop where
  returns : ((JobConsumer.start messages).run []).2 = .ok ()
  handled : ((JobConsumer.start messages).run []).1.map Handled.message = messages
  settled : ∀ handled ∈ ((JobConsumer.start messages).run []).1,
    handled.Launched ∨ handled.Published

/-- The value is an object, and `int(...)` takes its `max_retries`: the field is missing, or a
boolean, a finite number, or a text that reads as an integer. -/
def HasMaxRetries : Json → Prop
  | .obj entries =>
    match Dict.get? entries "max_retries" with
    | none | some (.bool _) | some (.int _) | some (.float _) => True
    | some (.str text) => (intOfString text).isSome
    | some _ => False
  | _ => False

/-! ## One message -/

private theorem hasMaxRetries_iff {event : Json} :
    HasMaxRetries event ↔ ∃ maxRetries, readMaxRetries event = .ok maxRetries := by
  cases event with
  | obj entries =>
    have hread : readMaxRetries (.obj entries) =
        ((Dict.get? entries "max_retries").getD (.int defaultMaxRetries)).toInt := rfl
    rw [hread, HasMaxRetries]
    cases hentry : Dict.get? entries "max_retries" with
    | none => simp [Json.toInt]
    | some value =>
      cases value with
      | str text =>
        cases hint : intOfString text <;> simp [Json.toInt, hint]
      | bool | int | float => simp [Json.toInt]
      | null | infinity | arr | obj => simp [Json.toInt]
  | null | bool | int | float | infinity | str | arr =>
    exact iff_of_false id (by rintro ⟨_, h⟩; cases h)

section Loop

variable {event jobId : Json} {maxRetries : ℤ} {outcomes : ℕ → RunTaskOutcome}

/-- An event that `create_spark_job` cannot read is published, after all its attempts. -/
theorem published_of_error {e : Exc} (h : runTaskRequest event = .error e)
    (remaining attempt : ℕ) (lastError : Option Exc) :
    (event, maxRetries) ∈ (launchAttempts event jobId maxRetries outcomes remaining attempt
      lastError).filterMap Effect.published := by
  induction remaining generalizing attempt lastError with
  | zero => exact List.mem_singleton_self _
  | succ remaining ih =>
    rw [launchAttempts, h]
    simp only [List.filterMap_cons, List.filterMap_append, Effect.published]
    exact List.mem_append_right _ (ih (attempt + 1) (some e))

/-- Every run of the launch loop ends with a task or a dead letter. -/
theorem launched_or_published (event jobId : Json) (maxRetries : ℤ)
    (outcomes : ℕ → RunTaskOutcome) (remaining attempt : ℕ) (lastError : Option Exc) :
    let effects := launchAttempts event jobId maxRetries outcomes remaining attempt lastError
    (∃ arn, arn ∈ effects.filterMap Effect.launchedArn) ∨
      (event, maxRetries) ∈ effects.filterMap Effect.published := by
  intro effects
  cases hrequest : runTaskRequest event with
  | error e => exact .inr (published_of_error hrequest remaining attempt lastError)
  | ok request =>
    rcases launchAttempts_ends hrequest jobId maxRetries outcomes remaining attempt lastError with
      ⟨k, arn, -, -, -, -, hends⟩ | ⟨-, -, hends⟩
    · exact .inl ⟨arn, hends.launched ▸ List.mem_singleton_self arn⟩
    · exact .inr (hends.published ▸ List.mem_singleton_self _)

end Loop

/-- What is done with a message. -/
def Message.handled (message : Message) : Handled :=
  ⟨message, ((JobConsumer.processMessage message.answers message.value).run []).1⟩

private theorem processMessage_returns_iff (message : Message) :
    ((JobConsumer.processMessage message.answers message.value).run []).2 = .ok () ↔
      HasMaxRetries message.value := by
  rw [run_processMessage, hasMaxRetries_iff]
  rcases processMessage_eq message.value message.answers.runTask with
    ⟨jobId, maxRetries, hmax, hprocess⟩ | ⟨⟨e, hprocess⟩, hmax⟩
  · rw [hprocess]
    exact iff_of_true rfl ⟨maxRetries, hmax⟩
  · rw [hprocess]
    exact iff_of_false (by rintro ⟨⟩) (by rintro ⟨maxRetries, h⟩; exact hmax maxRetries h)

/-- A message that does not raise is settled. -/
theorem settled_of_hasMaxRetries {message : Message} (h : HasMaxRetries message.value) :
    message.handled.Launched ∨ message.handled.Published := by
  unfold Handled.Launched Handled.Published Message.handled
  rw [run_processMessage]
  rcases processMessage_eq message.value message.answers.runTask with
    ⟨jobId, maxRetries, -, hprocess⟩ | ⟨-, hmax⟩
  · rw [hprocess]
    rcases launched_or_published message.value jobId maxRetries message.answers.runTask
      maxRetries.toNat 1 none with hlaunched | hpublished
    · exact .inl hlaunched
    · exact .inr ⟨maxRetries, hpublished⟩
  · obtain ⟨maxRetries, hread⟩ := hasMaxRetries_iff.mp h
    exact absurd hread (hmax maxRetries)

/-! ## All messages -/

/-- **What the consumer survives.** The loop of `start` goes through a sequence of messages, and
each of them leads to a task or a dead letter, if and only if each is an object whose
`max_retries` can be read as an integer. -/
theorem consumesAll_iff (messages : List Message) :
    ConsumesAll messages ↔ ∀ message ∈ messages, HasMaxRetries message.value := by
  constructor
  · intro h message hmem
    obtain ⟨_, hreturns⟩ := Routine.returns_of_forM h.returns message hmem
    exact (processMessage_returns_iff message).mp hreturns
  · intro h
    have hstart : (JobConsumer.start messages).run [] =
        (messages.flatMap fun message => [message.handled], .ok ()) := by
      refine Routine.run_forM_of_returns (fun message hmem before => ?_) []
      have hreturns := (processMessage_returns_iff message).mpr (h message hmem)
      exact Prod.ext rfl hreturns
    rw [← List.map_eq_flatMap] at hstart
    refine ⟨by rw [hstart], ?_, ?_⟩
    · rw [hstart, List.map_map]
      exact List.map_id messages
    · intro handled hhandled
      rw [hstart] at hhandled
      obtain ⟨message, hmem, rfl⟩ := List.mem_map.mp hhandled
      exact settled_of_hasMaxRetries (h message hmem)

/-- A submission without a usable `max_retries`, and a well-formed one after it. -/
def sampleMessages : List Message := [
  ⟨.obj [("job_id", .str "job-1"), ("max_retries", .null)], ⟨fun _ => .noTasks, fun _ => .ok (),
    .ok ()⟩⟩,
  ⟨(originalEvent "job-2" sampleRequest).toJson, ⟨fun _ => .noTasks, fun _ => .ok (), .ok ()⟩⟩]

/-- The loop ends at the first message; the second is never handled. -/
theorem null_max_retries_stops_consumer :
    ((JobConsumer.start sampleMessages).run []).1.length = 1 ∧ ¬ ConsumesAll sampleMessages := by
  have hlength : ((JobConsumer.start sampleMessages).run []).1.length = 1 := rfl
  refine ⟨hlength, fun h => ?_⟩
  have hhandled := congrArg List.length h.handled
  rw [List.length_map, hlength] at hhandled
  cases hhandled

end DataHarbour.Orchestrator
