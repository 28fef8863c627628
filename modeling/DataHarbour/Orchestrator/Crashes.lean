import DataHarbour.Machine.Runs
import DataHarbour.Orchestrator.Redelivery

/-!
# Crashes and committed offsets

`JobConsumer.start` over the messages of the job topic. The client commits offsets on its own
(`enable_auto_commit`), at any time after a message has been handed to the loop, while the loop
may still be at work on it. A crash loses what the loop has in hand; the next start goes on from
the committed offset. This file says exactly which crashes, commits and dead-letter failures
lose a message.
-/

namespace DataHarbour.Orchestrator

open Python JobService Machine

/-- The consumer loop while it is alive. -/
structure Loop where
  /-- The offset of the next message. -/
  position : ℕ
  /-- The offset of the message in hand, and what `_process_message` has still to do for it. -/
  current : Option (ℕ × List Effect) := none

/-- The job topic, the consumer group's committed offset, the loop, and what has become of the
messages. -/
structure JobTopic where
  /-- The messages of the topic, by offset. -/
  messages : List Json
  /-- The offset of the first message that is not committed. -/
  committed : ℕ := 0
  /-- The number of messages that have been handed to a loop. -/
  handed : ℕ := 0
  /-- The loop; `none` before the start and after a crash. -/
  loop : Option Loop := none
  /-- The offsets of the messages for which a `RunTask` call was accepted. -/
  launched : List ℕ := []
  /-- The offsets of the messages that are on the dead-letter topic. -/
  deadLettered : List ℕ := []

/-- A step of the consumer or of its environment. -/
inductive ConsumerAction where
  /-- A service publishes a message. -/
  | publish (message : Json)
  /-- The process starts, from the committed offset. -/
  | start
  /-- The loop takes the next message; `outcomes n` is what `RunTask` will answer in attempt
  `n`. -/
  | take (outcomes : ℕ → RunTaskOutcome)
  /-- The loop goes on with the message in hand; a dead letter is published as given. -/
  | act (dlq : Delivery)
  /-- The client commits the offset of a message that was handed to the loop. -/
  | commit (offset : ℕ)
  /-- The process ends. -/
  | crash

/-- The effect decides the message: the task is launched, or the message is given up. -/
def Effect.decides : Effect → Bool
  | .runTask _ outcome => outcome.accepted
  | .deadLetter _ => true
  | _ => false

/-- An effect of the message at an offset takes place. -/
def JobTopic.perform (s : JobTopic) (offset : ℕ) (dlq : Delivery) : Effect → JobTopic
  | .runTask _ outcome =>
    if outcome.accepted then { s with launched := offset :: s.launched } else s
  | .deadLetter _ =>
    match dlq with
    | .delivered => { s with deadLettered := offset :: s.deadLettered }
    -- `publish` logs the failure and returns
    | .failed => s
  | _ => s

/-- What is left in hand of a message; nothing if its handling has ended. -/
def inHand (offset : ℕ) : List Effect → Option (ℕ × List Effect)
  | [] => none
  | rest => some (offset, rest)

/-- The state after a step; a step that is not enabled changes nothing. -/
def consumerStep (s : JobTopic) : ConsumerAction → JobTopic
  | .publish message => { s with messages := s.messages ++ [message] }
  | .start =>
    match s.loop with
    | none => { s with loop := some ⟨s.committed, none⟩ }
    | some _ => s
  | .take outcomes =>
    match s.loop with
    | some ⟨position, none⟩ =>
      match s.messages[position]? with
      | none => s
      | some message =>
        let handed := max s.handed (position + 1)
        match processMessage message outcomes with
        | .ok effects =>
          { s with handed := handed, loop := some ⟨position + 1, inHand position effects⟩ }
        -- an exception ends the loop, and with it the process
        | .error _ => { s with handed := handed, loop := none }
    | _ => s
  | .act dlq =>
    match s.loop with
    | some ⟨position, some (offset, effect :: rest)⟩ =>
      { s with loop := some ⟨position, inHand offset rest⟩ }.perform offset dlq effect
    | _ => s
  | .commit offset =>
    if offset < s.handed then { s with committed := offset + 1 } else s
  | .crash => { s with loop := none }

/-- A live loop has the message in hand. -/
def JobTopic.Processing (s : JobTopic) (offset : ℕ) : Prop :=
  ∃ position effects, s.loop = some ⟨position, some (offset, effects)⟩

/-- The message has been launched or published to the dead-letter topic. -/
def JobTopic.Settled (s : JobTopic) (offset : ℕ) : Prop :=
  offset ∈ s.launched ∨ offset ∈ s.deadLettered

/-- Every message below the committed offset that no loop is at work on is settled. -/
def NoneLost (s : JobTopic) : Prop :=
  ∀ offset < s.committed, ¬ s.Processing offset → s.Settled offset

/-- What loses no message, for each step. A commit covers only messages that are settled or in
hand. When the process crashes, or fails to publish the dead letter, the message in hand is not
committed yet or was settled before. -/
def LosesNothing (s : JobTopic) : ConsumerAction → Prop
  | .commit offset => offset < s.handed → ∀ i ≤ offset, ¬ s.Processing i → s.Settled i
  | .crash => ∀ offset < s.committed, s.Processing offset → s.Settled offset
  | .act dlq => dlq = .failed → ∀ position offset record,
    s.loop = some ⟨position, some (offset, [.deadLetter record])⟩ →
      offset < s.committed → s.Settled offset
  | _ => True

/-! ## What `_process_message` has in hand -/

/-- What is left of a message that is not decided: a launch and its report, or the dead letter,
comes last. -/
inductive Undecided : List Effect → Prop
  | cons {effect : Effect} {rest : List Effect} (h : effect.decides = false)
    (hrest : Undecided rest) : Undecided (effect :: rest)
  | launch (request : RunTaskRequest) (arn : TaskArn) (jobId : Json) (u : JobStatusUpdate) :
    Undecided [.runTask request (.task arn), .callback jobId u]
  | deadLetter (record : DeadLetter) : Undecided [.deadLetter record]

/-- A backoff leaves a message undecided. -/
theorem Undecided.backoff {rest : List Effect} (h : Undecided rest) (attempt : ℕ)
    (maxRetries : ℤ) : Undecided (Orchestrator.backoff attempt maxRetries ++ rest) := by
  unfold Orchestrator.backoff
  split
  · exact .cons rfl h
  · exact h

private theorem undecided_launchAttempts (event jobId : Json) (maxRetries : ℤ)
    (outcomes : ℕ → RunTaskOutcome) (remaining attempt : ℕ) (lastError : Option Exc) :
    Undecided (launchAttempts event jobId maxRetries outcomes remaining attempt lastError) := by
  induction remaining generalizing attempt lastError with
  | zero => exact .cons rfl (.deadLetter _)
  | succ remaining ih =>
    rw [launchAttempts]
    apply Undecided.cons rfl
    cases runTaskRequest event with
    | error e => exact (ih (attempt + 1) (some e)).backoff attempt maxRetries
    | ok request =>
      cases houtcome : outcomes attempt with
      | task arn => exact .launch request arn jobId _
      | raised e => exact .cons rfl ((ih (attempt + 1) (some e)).backoff attempt maxRetries)
      | failure reason => exact .cons rfl ((ih (attempt + 1) _).backoff attempt maxRetries)
      | noTasks => exact .cons rfl ((ih (attempt + 1) _).backoff attempt maxRetries)

/-- A message starts undecided. -/
theorem undecided_processMessage {message : Json} {outcomes : ℕ → RunTaskOutcome}
    {effects : List Effect} (h : processMessage message outcomes = .ok effects) :
    Undecided effects := by
  rcases processMessage_eq message outcomes with ⟨jobId, maxRetries, -, heq⟩ | ⟨⟨e, heq⟩, -⟩
  · rw [heq, Except.ok.injEq] at h
    exact h ▸ undecided_launchAttempts ..
  · rw [heq] at h
    cases h

/-- A message in hand is undecided, or launched with only its report to come. -/
def Sensible (s : JobTopic) : Prop :=
  ∀ position offset effects, s.loop = some ⟨position, some (offset, effects)⟩ →
    Undecided effects ∨ (offset ∈ s.launched ∧ ∃ jobId u, effects = [.callback jobId u])

/-- Undecided work is in hand, since something of it is left. -/
theorem Undecided.inHand_eq {effects : List Effect} (h : Undecided effects) (offset : ℕ) :
    inHand offset effects = some (offset, effects) := by
  cases h <;> rfl

/-- An effect that does not decide the message changes nothing here. -/
theorem perform_of_not_decides {effect : Effect} (h : effect.decides = false) (s : JobTopic)
    (offset : ℕ) (dlq : Delivery) : s.perform offset dlq effect = s := by
  cases effect with
  | callback jobId u => rfl
  | runTask request outcome =>
    have haccepted : outcome.accepted = false := h
    simp [JobTopic.perform, haccepted]
  | sleep n => rfl
  | deadLetter record => cases h

/-! ## What a step does -/

section Steps

variable {s : JobTopic}

/-- No loop has a message in hand. -/
def JobTopic.Idle (s : JobTopic) : Prop := ∀ offset, ¬ s.Processing offset

/-- The message of the loop is the only one in hand. -/
theorem processing_iff {position offset : ℕ} {effects : List Effect}
    (hloop : s.loop = some ⟨position, some (offset, effects)⟩) (i : ℕ) :
    s.Processing i ↔ i = offset := by
  constructor
  · rintro ⟨position', effects', h⟩
    rw [hloop] at h
    simp only [Option.some.injEq, Loop.mk.injEq, Prod.mk.injEq] at h
    exact h.2.1.symm
  · rintro rfl
    exact ⟨position, effects, hloop⟩

private theorem idle_of_loop (h : ∀ position current, s.loop ≠ some ⟨position, some current⟩) :
    s.Idle := by
  rintro offset ⟨position, effects, hloop⟩
  exact h position _ hloop

/-- With nothing in hand, no message is lost if everything below the committed offset is
settled. -/
theorem noneLost_iff_of_idle (h : s.Idle) :
    NoneLost s ↔ ∀ offset < s.committed, s.Settled offset := by
  constructor
  · intro hlost offset hlt
    exact hlost offset hlt (h offset)
  · intro hsettled offset hlt _
    exact hsettled offset hlt

/-- A message that comes into the loop's hand costs nothing. -/
theorem NoneLost.mono {s' : JobTopic} (h : NoneLost s) (hcommitted : s'.committed = s.committed)
    (hprocessing : ∀ offset, s.Processing offset → s'.Processing offset)
    (hsettled : ∀ offset, s.Settled offset → s'.Settled offset) : NoneLost s' := by
  intro offset hlt hnot
  rw [hcommitted] at hlt
  exact hsettled offset (h offset hlt fun hold => hnot (hprocessing offset hold))

/-- When the loop is done with a message, it must be settled if its offset is committed. -/
theorem noneLost_done_iff {position offset : ℕ} {effects : List Effect} (h : NoneLost s)
    (hloop : s.loop = some ⟨position, some (offset, effects)⟩) :
    NoneLost { s with loop := some ⟨position, none⟩ } ↔
      (offset < s.committed → s.Settled offset) := by
  rw [noneLost_iff_of_idle (idle_of_loop fun position' current => by simp)]
  constructor
  · intro hall hlt
    exact hall offset hlt
  · intro hone i hlt
    by_cases heq : i = offset
    · exact heq ▸ hone (heq ▸ hlt)
    · exact h i hlt fun hprocessing => heq ((processing_iff hloop i).mp hprocessing)

private theorem noneLost_start (h : NoneLost s) : NoneLost (consumerStep s .start) := by
  cases hloop : s.loop with
  | some l => simpa [consumerStep, hloop] using h
  | none =>
    simp only [consumerStep, hloop]
    refine h.mono rfl (fun offset hold => ?_) fun _ hsettled => hsettled
    obtain ⟨position, effects, hsome⟩ := hold
    rw [hloop] at hsome
    cases hsome

/-- A message that the loop takes was not lost before. -/
theorem noneLost_take (h : NoneLost s) (outcomes : ℕ → RunTaskOutcome) :
    NoneLost (consumerStep s (.take outcomes)) := by
  simp only [consumerStep]
  split
  · next position hloop =>
    have hidle : ∀ offset, ¬ s.Processing offset := by
      rintro offset ⟨position', effects, hsome⟩
      rw [hloop] at hsome
      simp at hsome
    split
    · exact h
    · split
      · exact h.mono rfl (fun offset hold => absurd hold (hidle offset)) fun _ hold => hold
      · exact h.mono rfl (fun offset hold => absurd hold (hidle offset)) fun _ hold => hold
  · exact h

private theorem noneLost_crash_iff (h : NoneLost s) :
    NoneLost (consumerStep s .crash) ↔ LosesNothing s .crash := by
  have hidle : (consumerStep s .crash).Idle :=
    idle_of_loop fun position current => by simp [consumerStep]
  rw [noneLost_iff_of_idle hidle]
  constructor
  · intro hall offset hlt _
    exact hall offset hlt
  · intro hkeeps offset hlt
    by_cases hprocessing : s.Processing offset
    · exact hkeeps offset hlt hprocessing
    · exact h offset hlt hprocessing

private theorem noneLost_commit_iff (h : NoneLost s) (offset : ℕ) :
    NoneLost (consumerStep s (.commit offset)) ↔ LosesNothing s (.commit offset) := by
  simp only [consumerStep, LosesNothing]
  split
  · next hhanded =>
    constructor
    · intro hlost _ i hi
      exact hlost i (Nat.lt_succ_of_le hi)
    · intro hkeeps i hi
      exact hkeeps hhanded i (Nat.le_of_lt_succ hi)
  · next hnot => exact iff_of_true h fun hhanded => absurd hhanded hnot

/-- Going on with the message in hand loses it only if its dead letter is not published. -/
theorem noneLost_act_iff (hsensible : Sensible s) (h : NoneLost s) (dlq : Delivery) :
    NoneLost (consumerStep s (.act dlq)) ↔ LosesNothing s (.act dlq) := by
  simp only [consumerStep]
  split
  · next position offset effect rest hloop =>
    have hnot : (∀ record, effect :: rest ≠ [.deadLetter record]) →
        LosesNothing s (.act dlq) := by
      intro hne _ position' offset' record hloop'
      rw [hloop] at hloop'
      simp only [Option.some.injEq, Loop.mk.injEq, Prod.mk.injEq] at hloop'
      exact absurd hloop'.2.2 (hne record)
    rcases hsensible position offset _ hloop with hundecided | ⟨hlaunched, jobId, u, heq⟩
    · cases hundecided with
      | cons hdecides hrest =>
        rw [perform_of_not_decides hdecides, hrest.inHand_eq]
        refine iff_of_true (h.mono rfl (fun i hi => ?_) fun _ hi => hi) (hnot fun record heq => ?_)
        · exact (processing_iff rfl i).mpr ((processing_iff hloop i).mp hi)
        · rw [(List.cons.inj heq).1] at hdecides
          cases hdecides
      | launch request arn jobId u =>
        refine iff_of_true (h.mono rfl (fun i hi => ?_) fun i hi => ?_) (hnot fun _ => by simp)
        · exact (processing_iff rfl i).mpr ((processing_iff hloop i).mp hi)
        · exact hi.imp_left (List.mem_cons_of_mem offset)
      | deadLetter record =>
        cases dlq with
        | delivered =>
          refine iff_of_true (fun i hlt _ => ?_) fun hfailed => by cases hfailed
          by_cases heq : i = offset
          · exact .inr (heq ▸ List.mem_cons_self)
          · have hold := h i hlt fun hi => heq ((processing_iff hloop i).mp hi)
            exact hold.imp_right (List.mem_cons_of_mem offset)
        | failed =>
          refine Iff.trans (noneLost_done_iff h hloop) ?_
          constructor
          · intro hone _ position' offset' record' hloop'
            rw [hloop] at hloop'
            simp only [Option.some.injEq, Loop.mk.injEq, Prod.mk.injEq] at hloop'
            exact hloop'.2.1 ▸ hone
          · intro hkeeps
            exact hkeeps rfl position offset record hloop
    · -- the report of the launch ends the handling
      obtain ⟨rfl, rfl⟩ := List.cons.inj heq
      refine iff_of_true ?_ (hnot fun record => by simp)
      exact (noneLost_done_iff h hloop).mpr fun _ => .inl hlaunched
  · next hnone =>
    refine iff_of_true h fun _ position offset record hloop => ?_
    exact absurd hloop (hnone position offset _ [])

/-- The loop only ever holds what `_process_message` leaves to do. -/
theorem sensible_invariant : Invariant consumerStep Sensible := by
  intro s a h
  cases a with
  | publish message => exact h
  | commit offset =>
    simp only [consumerStep]
    split <;> exact h
  | crash =>
    intro position offset effects hloop
    cases hloop
  | start =>
    simp only [consumerStep]
    split
    · intro position offset effects hloop
      simp at hloop
    · exact h
  | take outcomes =>
    simp only [consumerStep]
    split
    · next position hloop =>
      split
      · exact h
      · next message hmessage =>
        split
        · next effects hprocess =>
          have hundecided := undecided_processMessage hprocess
          intro position' offset effects' hloop'
          rw [hundecided.inHand_eq] at hloop'
          simp only [Option.some.injEq, Loop.mk.injEq, Prod.mk.injEq] at hloop'
          exact .inl (hloop'.2.2 ▸ hundecided)
        · intro position' offset effects' hloop'
          cases hloop'
    · exact h
  | act dlq =>
    simp only [consumerStep]
    split
    · next position offset effect rest hloop =>
      rcases h position offset _ hloop with hundecided | ⟨hlaunched, jobId, u, heq⟩
      · cases hundecided with
        | cons hdecides hrest =>
          rw [perform_of_not_decides hdecides, hrest.inHand_eq]
          intro position' offset' effects' hloop'
          simp only [Option.some.injEq, Loop.mk.injEq, Prod.mk.injEq] at hloop'
          exact .inl (hloop'.2.2 ▸ hrest)
        | launch request arn jobId u =>
          intro position' offset' effects' hloop'
          replace hloop' : some (Loop.mk position (some (offset, [.callback jobId u]))) =
            some (Loop.mk position' (some (offset', effects'))) := hloop'
          simp only [Option.some.injEq, Loop.mk.injEq, Prod.mk.injEq] at hloop'
          obtain ⟨-, rfl, rfl⟩ := hloop'
          exact .inr ⟨List.mem_cons_self, jobId, u, rfl⟩
        | deadLetter record =>
          intro position' offset' effects' hloop'
          cases dlq <;> simp [JobTopic.perform, inHand] at hloop'
      · obtain ⟨rfl, rfl⟩ := List.cons.inj heq
        intro position' offset' effects' hloop'
        simp [JobTopic.perform, inHand] at hloop'
    · exact h

end Steps

/-- One step loses no message exactly if it meets the condition. -/
theorem noneLost_step_iff {s : JobTopic} (hsensible : Sensible s) (h : NoneLost s)
    (a : ConsumerAction) : NoneLost (consumerStep s a) ↔ LosesNothing s a := by
  cases a with
  | publish message => exact iff_of_true h trivial
  | start => exact iff_of_true (noneLost_start h) trivial
  | take outcomes => exact iff_of_true (noneLost_take h outcomes) trivial
  | act dlq => exact noneLost_act_iff hsensible h dlq
  | commit offset => exact noneLost_commit_iff h offset
  | crash => exact noneLost_crash_iff h

/-- **When no submission is lost.** In every run of `JobConsumer` over a topic, with crashes,
restarts, commits and dead-letter failures anywhere, no message is lost in any state if and only
if no commit covers a message that ended without a launch and a dead letter, and no committed
message ends so. -/
theorem noneLost_iff (messages : List Json) (actions : List ConsumerAction) :
    Always consumerStep NoneLost { messages := messages } actions ↔
      Along consumerStep LosesNothing { messages := messages } actions := by
  refine always_iff_along (I := fun s _ => Sensible s) (fun s a _ h => sensible_invariant s a h)
    (fun s a _ hsensible h => noneLost_step_iff hsensible h a) ?_ ?_
  · intro position offset effects hloop
    cases hloop
  · intro offset hlt
    exact absurd hlt (Nat.not_lt_zero offset)

/-- The offset of the sample event is committed while the loop is at work on it, and then the
process crashes. -/
theorem committed_message_lost : ¬ NoneLost (run consumerStep
    { messages := [(originalEvent "job-1" sampleRequest).toJson] }
    [.start, .take fun _ => .noTasks, .commit 0, .crash]) := by
  intro h
  have hsettled := h 0 (by decide) (by rintro ⟨position, effects, hloop⟩; cases hloop)
  rcases hsettled with hlaunched | hlettered
  · exact absurd hlaunched (by decide)
  · exact absurd hlettered (by decide)

end DataHarbour.Orchestrator
