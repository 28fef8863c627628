import DataHarbour.JobService.Budget
import DataHarbour.System.Composition

/-!
# One message after the other

A schedule of the composed system in rounds: `JobConsumer` takes a message and handles it, and
then the container that it launched, if any, reports `RUNNING` and its final status. A round
either launches one container, after some failed attempts, or ends with a dead letter.
-/

namespace DataHarbour.System

open Python Relational Machine JobService Orchestrator

/-! ## The schedule -/

/-- The steps of one round: the next message with all its effects, and the reports of the
container that the round launches. -/
def round (time : ℕ → Time) (outcomes : ℕ → RunTaskOutcome) (code : ℤ) (s : Composition) :
    List Move :=
  let effects := (move time s (.take outcomes)).inHand
  .take outcomes :: (List.replicate effects.length .act ++
    [.report s.containers.length, .finish s.containers.length code])

/-- The state after `n` rounds; `outcomes i` and `codes i` are what `RunTask` answers and the
exit code of the container in round `i`. -/
def rounds (time : ℕ → Time) (outcomes : ℕ → ℕ → RunTaskOutcome) (codes : ℕ → ℤ) :
    ℕ → Composition → Composition
  | 0, s => s
  | n + 1, s =>
    let s' := rounds time outcomes codes n s
    run (move time) s' (round time (outcomes n) (codes n) s')

/-! ## Handling one message -/

private theorem perform_setInHand (time : ℕ → Time) (s : Composition) (effect : Effect)
    (effects : List Effect) :
    { s with inHand := effects }.perform time effect =
      { s.perform time effect with inHand := effects } := by
  unfold Composition.perform
  split <;> rfl

/-- As many steps as there are effects in hand handle the message to its end. -/
theorem run_act_inHand (time : ℕ → Time) (s : Composition) (effects : List Effect) :
    run (move time) { s with inHand := effects } (List.replicate effects.length .act) =
      { effects.foldl (Composition.perform time) s with inHand := [] } := by
  induction effects generalizing s with
  | nil => rfl
  | cons effect effects ih =>
    have hmove : move time { s with inHand := effect :: effects } .act =
        { s.perform time effect with inHand := effects } := by
      rw [← perform_setInHand]
      rfl
    rw [List.length_cons, List.replicate_succ, run_cons, hmove, ih, List.foldl_cons]

/-- `n` attempts to launch job `j` have failed between the two states. -/
structure Tried (j : JobId) (n : ℕ) (s s' : Composition) : Prop where
  budget : s'.world.budget j = s.world.budget j
  container : s'.world.storedContainer j = s.world.storedContainer j
  topic : s'.world.jobTopic = s.world.jobTopic
  offset : s'.offset = s.offset
  containers : s'.containers = s.containers
  deadLetters : s'.deadLetters = s.deadLetters
  calls : s'.calls.length = s.calls.length + n

namespace Tried

variable {j : JobId} {n n' : ℕ} {s s' s'' : Composition}

/-- Nothing done is no attempt. -/
theorem refl (j : JobId) (s : Composition) : Tried j 0 s s :=
  ⟨rfl, rfl, rfl, rfl, rfl, rfl, rfl⟩

/-- Attempts made one after the other add up. -/
theorem trans (h : Tried j n s s') (h' : Tried j n' s' s'') : Tried j (n + n') s s'' where
  budget := h'.budget.trans h.budget
  container := h'.container.trans h.container
  topic := h'.topic.trans h.topic
  offset := h'.offset.trans h.offset
  containers := h'.containers.trans h.containers
  deadLetters := h'.deadLetters.trans h.deadLetters
  calls := by rw [h'.calls, h.calls, Nat.add_assoc]

/-- The callback for PROVISIONING costs no attempt. -/
theorem provisioning (time : ℕ → Time) (s : Composition) (j : JobId) :
    Tried j 0 s (s.perform time (.callback (.str j) { status := .provisioning })) where
  budget := budget_update_of_not_failed (by decide) s.world j _ .delivered j
  container := by
    refine (storedContainer_update_self s.world j (time s.clock) .delivered _).trans ?_
    cases s.world.storedContainer j <;> rfl
  topic := jobTopic_update_of_not_failed (by decide) s.world j _ .delivered
  offset := rfl
  containers := rfl
  deadLetters := rfl
  calls := rfl

/-- A call that fails is one attempt. -/
theorem call (time : ℕ → Time) (s : Composition) (j : JobId) (request : RunTaskRequest)
    {outcome : RunTaskOutcome} (h : outcome.accepted = false) :
    Tried j 1 s (s.perform time (.runTask request outcome)) where
  budget := rfl
  container := rfl
  topic := rfl
  offset := rfl
  containers := by cases outcome <;> first | rfl | cases h
  deadLetters := rfl
  calls := by simp [Composition.perform]

/-- A backoff costs no attempt. -/
theorem backoff (time : ℕ → Time) (s : Composition) (j : JobId) (attempt : ℕ) (maxRetries : ℤ) :
    Tried j 0 s ((Orchestrator.backoff attempt maxRetries).foldl (Composition.perform time) s) := by
  unfold Orchestrator.backoff
  split <;> exact refl j s

/-- A failed attempt calls once. -/
theorem failedAttempt (time : ℕ → Time) (s : Composition) (e : JobEvent)
    {outcomes : ℕ → RunTaskOutcome} {attempt : ℕ} (h : (outcomes attempt).accepted = false) :
    Tried e.jobId 1 s
      ((Orchestrator.failedAttempt e outcomes attempt).foldl (Composition.perform time) s) :=
  (provisioning time s e.jobId).trans <|
    (call time _ e.jobId (requestOf e) h).trans (backoff time _ e.jobId attempt e.maxRetries)

/-- Failed attempts call as often as there are of them. -/
theorem failedAttempts (time : ℕ → Time) (e : JobEvent) {outcomes : ℕ → RunTaskOutcome}
    (n attempt : ℕ) (h : ∀ i < n, (outcomes (attempt + i)).accepted = false) (s : Composition) :
    Tried e.jobId n s
      ((Orchestrator.failedAttempts e outcomes attempt n).foldl (Composition.perform time) s) := by
  induction n generalizing attempt s with
  | zero => exact refl e.jobId s
  | succ n ih =>
    have hlater : ∀ i < n, (outcomes (attempt + 1 + i)).accepted = false := by
      intro i hi
      have hnext := h (i + 1) (by omega)
      rwa [← Nat.add_assoc, Nat.add_right_comm] at hnext
    rw [failedAttempts_succ, List.foldl_append, Nat.add_comm n 1]
    exact (failedAttempt time s e (h 0 (Nat.succ_pos n))).trans (ih (attempt + 1) hlater _)

end Tried

/-- The accepted attempt: one more container, whose ARN is stored. -/
theorem perform_launched (time : ℕ → Time) (s : Composition) (e : JobEvent) (arn : TaskArn)
    (hstored : s.world.budget e.jobId ≠ none) :
    let s' := (launched e arn).foldl (Composition.perform time) s
    s'.world.budget e.jobId = s.world.budget e.jobId ∧
      s'.world.storedContainer e.jobId = some (some arn.text) ∧
      s'.world.jobTopic = s.world.jobTopic ∧ s'.offset = s.offset ∧
      s'.containers = s.containers ++ [{ request := requestOf e, arn := arn }] ∧
      s'.deadLetters = s.deadLetters ∧ s'.calls.length = s.calls.length + 1 := by
  intro s'
  have hfirst := Tried.provisioning time s e.jobId
  let s₁ := s.perform time (.callback (.str e.jobId) { status := .provisioning })
  have hcalls : s'.calls.length = s.calls.length + 1 := by
    simp [s', launched, Composition.perform, Composition.deliver]
  refine ⟨?_, ?_, ?_, rfl, rfl, rfl, hcalls⟩
  · refine Eq.trans ?_ hfirst.budget
    exact budget_update_of_not_failed (by simp) s₁.world e.jobId _ .delivered e.jobId
  · refine (storedContainer_update_self s₁.world e.jobId _ .delivered _).trans ?_
    rw [hfirst.container]
    obtain ⟨b, hb⟩ := Option.ne_none_iff_exists'.mp hstored
    obtain ⟨job, hfind, -⟩ := Option.map_eq_some_iff.mp hb
    rw [World.storedContainer, hfind, Option.map_some, Option.map_some]
    simp [overwrite, arn.nonempty]
  · refine Eq.trans ?_ hfirst.topic
    exact jobTopic_update_of_not_failed (by simp) s₁.world e.jobId _ .delivered

private theorem modify_length {α : Type*} (l : List α) (x : α) (f : α → α) :
    (l ++ [x]).modify l.length f = l ++ [f x] := by
  induction l with
  | nil => rfl
  | cons y l ih => rw [List.cons_append, List.length_cons, List.modify_succ_cons, ih,
      List.cons_append]

/-- The two reports of the container that was launched last. -/
theorem run_container (time : ℕ → Time) (s : Composition) (request : RunTaskRequest)
    (arn : TaskArn) (code : ℤ) {front : List Container}
    (hcontainers : s.containers = front ++ [{ request := request, arn := arn }]) :
    let s' := run (move time) s [.report front.length, .finish front.length code]
    let w := JobService.step s.world
      (.update request.jobId (time s.clock) .delivered { status := .running })
    s'.world = JobService.step w (.update request.jobId (time (s.clock + 1)) .delivered
        { status := exitStatus code, exitCode := some code }) ∧
      s'.containers = front ++ [{ request := request, arn := arn, phase := .exited code }] ∧
      s'.inHand = s.inHand ∧ s'.offset = s.offset ∧ s'.calls = s.calls ∧
      s'.deadLetters = s.deadLetters := by
  intro s' w
  have hget : s.containers[front.length]? = some { request := request, arn := arn } := by
    rw [hcontainers, List.getElem?_concat_length]
  let s₁ := (s.deliver time request.jobId { status := .running }).setPhase front.length .running
  have hreport : move time s (.report front.length) = s₁ := by
    simp only [move, hget, if_true]
    rfl
  have hrunning : s₁.containers =
      front ++ [{ request := request, arn := arn, phase := .running }] := by
    calc s₁.containers
        = s.containers.modify front.length fun c => { c with phase := .running } := rfl
      _ = _ := by rw [hcontainers, modify_length]
  have hget₁ : s₁.containers[front.length]? =
      some { request := request, arn := arn, phase := .running } := by
    rw [hrunning, List.getElem?_concat_length]
  have hfinish : s' = (s₁.deliver time request.jobId
      { status := exitStatus code, exitCode := some code }).setPhase front.length
        (.exited code) := by
    show move time (move time s (.report front.length)) (.finish front.length code) = _
    rw [hreport]
    simp only [move, hget₁, if_true]
  rw [hfinish]
  refine ⟨rfl, ?_, rfl, rfl, rfl, rfl⟩
  calc ((s₁.deliver time request.jobId
        { status := exitStatus code, exitCode := some code }).setPhase front.length
          (.exited code)).containers
      = s₁.containers.modify front.length fun c => { c with phase := .exited code } := rfl
    _ = _ := by rw [hrunning, modify_length]

/-- How a round ends for the message `e` of a job that had used `n` retries. -/
inductive Outcome (e : JobEvent) (n : ℕ) (code : ℤ) (s s' : Composition) : Prop
  /-- The task was launched and its container exited with `code`. -/
  | launched (arn : TaskArn)
    (containers : s'.containers =
      s.containers ++ [{ request := requestOf e, arn := arn, phase := .exited code }])
    (deadLetters : s'.deadLetters = s.deadLetters)
    (container : s'.world.storedContainer e.jobId = some (some arn.text))
    (success : code = 0 → s'.world.storedStatus e.jobId = some .success ∧
      s'.world.jobTopic = s.world.jobTopic)
    (failure : code ≠ 0 → Spends s.world.jobTopic s'.world e.jobId n e.maxRetries)
  /-- The launches were exhausted. -/
  | exhausted (record : DeadLetter) (letter : record.originalEvent = e.toJson)
    (containers : s'.containers = s.containers)
    (deadLetters : s'.deadLetters = s.deadLetters ++ [record])
    (container : s'.world.storedContainer e.jobId = s.world.storedContainer e.jobId)
    (failure : Spends s.world.jobTopic s'.world e.jobId n e.maxRetries)

/-- The reports of the launched container, after the row has its ARN. -/
theorem outcome_of_container (time : ℕ → Time) {s t : Composition} {e : JobEvent} {n : ℕ}
    {arn : TaskArn} (code : ℤ) (hbudget : t.world.budget e.jobId = some (n, e.maxRetries))
    (hcontainer : t.world.storedContainer e.jobId = some (some arn.text))
    (htopic : t.world.jobTopic = s.world.jobTopic)
    (hcontainers : t.containers = s.containers ++ [{ request := requestOf e, arn := arn }])
    (hletters : t.deadLetters = s.deadLetters) :
    Outcome e n code s (run (move time) t
      [.report s.containers.length, .finish s.containers.length code]) := by
  obtain ⟨hworld, hexited, -, -, -, hsame⟩ :=
    run_container time t (requestOf e) arn code hcontainers
  let w := JobService.step t.world
    (.update e.jobId (time t.clock) .delivered { status := .running })
  have hrunning : w.budget e.jobId = some (n, e.maxRetries) := by
    rw [← hbudget]
    exact budget_update_of_not_failed (by decide) t.world e.jobId _ .delivered e.jobId
  have hrunningTopic : w.jobTopic = s.world.jobTopic := by
    rw [← htopic]
    exact jobTopic_update_of_not_failed (by decide) t.world e.jobId _ .delivered
  have hrunningContainer : w.storedContainer e.jobId = some (some arn.text) := by
    rw [storedContainer_update_self, hcontainer]
    rfl
  have hlast : (run (move time) t [.report s.containers.length,
      .finish s.containers.length code]).world = JobService.step w (.update e.jobId
        (time (t.clock + 1)) .delivered { status := exitStatus code, exitCode := some code }) :=
    hworld
  refine .launched arn hexited (hsame.trans hletters) ?_ (fun hcode => ?_) fun hcode => ?_ <;>
    rw [hlast]
  · rw [storedContainer_update_self, hrunningContainer]
    rfl
  · have hsuccess : exitStatus code = .success := by simp [exitStatus, hcode]
    constructor
    · rw [← hsuccess]
      exact storedStatus_update_of_not_failed _ .delivered (by simp [hsuccess])
        (by simp [hrunning])
    · rw [← hrunningTopic]
      exact jobTopic_update_of_not_failed (by simp [hsuccess]) w e.jobId _ .delivered
  · have hfailed : exitStatus code = .failed := by simp [exitStatus, hcode]
    rw [← hrunningTopic]
    exact spends_update _ hrunning hfailed

/-- A container that was not launched reports nothing. -/
theorem run_no_container (time : ℕ → Time) {s : Composition} {i : ℕ} (code : ℤ)
    (h : s.containers.length = i) : run (move time) s [.report i, .finish i code] = s := by
  have hnone : s.containers[i]? = none := List.getElem?_eq_none_iff.mpr h.le
  simp only [run_cons, run_nil, move, hnone]

/-- The `FAILED` report and the dead letter after the last attempt. -/
theorem outcome_of_exhausted (time : ℕ → Time) {s t : Composition} {e : JobEvent} {n : ℕ}
    (code : ℤ) (err : Option Exc) (hbudget : t.world.budget e.jobId = some (n, e.maxRetries))
    (hcontainer : t.world.storedContainer e.jobId = s.world.storedContainer e.jobId)
    (htopic : t.world.jobTopic = s.world.jobTopic) (hcontainers : t.containers = s.containers)
    (hletters : t.deadLetters = s.deadLetters) :
    Outcome e n code s { (exhausted e.toJson (.str e.jobId) e.maxRetries err).foldl
      (Composition.perform time) t with inHand := [] } := by
  refine .exhausted _ rfl hcontainers (congrArg (· ++ _) hletters) ?_ ?_
  · refine (storedContainer_update_self t.world e.jobId _ .delivered _).trans ?_
    rw [hcontainer]
    cases s.world.storedContainer e.jobId <;> rfl
  · rw [← htopic]
    exact spends_update _ hbudget rfl

/-- A round is the handling of the message, and then the two reports. -/
theorem run_round (time : ℕ → Time) {s : Composition} {e : JobEvent}
    (outcomes : ℕ → RunTaskOutcome) (code : ℤ) (hhand : s.inHand = [])
    (hget : s.world.jobTopic[s.offset]? = some e) :
    run (move time) s (round time outcomes code s) = run (move time)
      { (handleEvent e outcomes).foldl (Composition.perform time)
          { s with offset := s.offset + 1, message := some e } with inHand := [] }
      [.report s.containers.length, .finish s.containers.length code] := by
  let s₁ : Composition := { s with offset := s.offset + 1, message := some e }
  have htake : move time s (.take outcomes) = { s₁ with inHand := handleEvent e outcomes } := by
    simp only [move, hhand, hget, s₁]
  rw [← run_act_inHand, ← run_append, ← htake]
  simp only [round, run_cons, htake]

section Cases

variable (time : ℕ → Time) {s : Composition} {e : JobEvent} {n : ℕ}
  {outcomes : ℕ → RunTaskOutcome} (code : ℤ) (hhand : s.inHand = [])
  (hget : s.world.jobTopic[s.offset]? = some e)
  (hbudget : s.world.budget e.jobId = some (n, e.maxRetries))

include hhand hget hbudget

/-- A round whose `k + 1`-th call is the first to be accepted. -/
theorem round_launched {k : ℕ} {arn : TaskArn} (hk : k < e.maxRetries)
    (hfailed : ∀ i < k, (outcomes (1 + i)).accepted = false)
    (heq : handleEvent e outcomes = failedAttempts e outcomes 1 k ++ launched e arn) :
    let s' := run (move time) s (round time outcomes code s)
    s'.inHand = [] ∧ s'.offset = s.offset + 1 ∧
      s'.calls.length ≤ s.calls.length + e.maxRetries ∧ s'.deadLetters = s.deadLetters ∧
      Outcome e n code s s' := by
  intro s'
  let s₁ : Composition := { s with offset := s.offset + 1, message := some e }
  have htried := Tried.failedAttempts time e k 1 hfailed s₁
  let s₂ := (failedAttempts e outcomes 1 k).foldl (Composition.perform time) s₁
  have hstored : s₂.world.budget e.jobId = some (n, e.maxRetries) := htried.budget.trans hbudget
  obtain ⟨hsame, hcontainer, htopic, hoffset, hcontainers, hletters, hcalls⟩ :=
    perform_launched time s₂ e arn (by simp [hstored])
  let t : Composition :=
    { (launched e arn).foldl (Composition.perform time) s₂ with inHand := [] }
  have hlaunched : t.containers = s.containers ++ [{ request := requestOf e, arn := arn }] := by
    rw [← htried.containers]
    exact hcontainers
  obtain ⟨-, -, hidle, hkept, hlogged, hsent⟩ :=
    run_container time t (requestOf e) arn code hlaunched
  have hrun : s' = run (move time) t
      [.report s.containers.length, .finish s.containers.length code] := by
    simp only [s', run_round time outcomes code hhand hget, heq, List.foldl_append, t, s₂, s₁]
  have hquiet : t.deadLetters = s.deadLetters := hletters.trans htried.deadLetters
  rw [hrun]
  refine ⟨hidle, hkept.trans (hoffset.trans htried.offset), ?_, hsent.trans hquiet, ?_⟩
  · have htotal : t.calls.length = s.calls.length + k + 1 := by
      rw [← htried.calls]
      exact hcalls
    rw [hlogged, htotal]
    omega
  · exact outcome_of_container time code (hsame.trans hstored) hcontainer
      (htopic.trans htried.topic) hlaunched hquiet

/-- A round in which no call is accepted. -/
theorem round_exhausted {err : Option Exc}
    (hfailed : ∀ i < e.maxRetries, (outcomes (1 + i)).accepted = false)
    (heq : handleEvent e outcomes = failedAttempts e outcomes 1 e.maxRetries ++
      exhausted e.toJson (.str e.jobId) e.maxRetries err) :
    let s' := run (move time) s (round time outcomes code s)
    s'.inHand = [] ∧ s'.offset = s.offset + 1 ∧
      s'.calls.length ≤ s.calls.length + e.maxRetries ∧ Outcome e n code s s' := by
  intro s'
  let s₁ : Composition := { s with offset := s.offset + 1, message := some e }
  have htried := Tried.failedAttempts time e e.maxRetries 1 hfailed s₁
  let s₂ := (failedAttempts e outcomes 1 e.maxRetries).foldl (Composition.perform time) s₁
  let t : Composition := { (exhausted e.toJson (.str e.jobId) e.maxRetries err).foldl
    (Composition.perform time) s₂ with inHand := [] }
  have hrun : s' = run (move time) t
      [.report s.containers.length, .finish s.containers.length code] := by
    simp only [s', run_round time outcomes code hhand hget, heq, List.foldl_append, t, s₂, s₁]
  have hquiet := run_no_container time (s := t) code (congrArg List.length htried.containers)
  rw [hrun, hquiet]
  exact ⟨rfl, htried.offset, htried.calls.le, outcome_of_exhausted time code err
    (htried.budget.trans hbudget) htried.container htried.topic htried.containers
    htried.deadLetters⟩

end Cases

/-- What one round does. -/
theorem round_cases (time : ℕ → Time) {s : Composition} {e : JobEvent} {n : ℕ}
    (outcomes : ℕ → RunTaskOutcome) (code : ℤ) (hhand : s.inHand = [])
    (hget : s.world.jobTopic[s.offset]? = some e)
    (hbudget : s.world.budget e.jobId = some (n, e.maxRetries)) :
    let s' := run (move time) s (round time outcomes code s)
    s'.inHand = [] ∧ s'.offset = s.offset + 1 ∧
      s'.calls.length ≤ s.calls.length + e.maxRetries ∧ Outcome e n code s s' := by
  intro s'
  rcases launchAttempts_cases e outcomes e.maxRetries 1 none with
    ⟨k, arn, hk, hfailed, -, heq⟩ | ⟨hfailed, err, heq⟩
  · obtain ⟨hidle, hoffset, hcalls, -, houtcome⟩ :=
      round_launched time code hhand hget hbudget hk hfailed heq
    exact ⟨hidle, hoffset, hcalls, houtcome⟩
  · exact round_exhausted time code hhand hget hbudget hfailed heq

end DataHarbour.System
