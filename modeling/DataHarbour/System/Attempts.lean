import DataHarbour.System.Composition

/-!
# Every attempt is in one place

An attempt of a job, that is a submission event with its `retry_count`, waits on the job
topic, is being launched by `JobConsumer`, or runs in a container. Each job has at most one
attempt at a time, and it carries the `retry_count` that the row stores: the job service
publishes the next attempt only for the report that ends the last one.
-/

namespace DataHarbour.System

open Python Relational Machine JobService Orchestrator

/-- A job id and a `retry_count`. -/
abbrev Attempt := JobId × ℤ

/-- The attempt that an event asks for. -/
def attemptOf (e : JobEvent) : Attempt := (e.jobId, ((e.retry.getD 0 : ℕ) : ℤ))

/-- The attempt that a container runs. -/
def Container.attempt (c : Container) : Attempt := (c.request.jobId, c.request.retryCount)

/-- The effect decides the message in hand: the task is launched, or the launch is reported
as failed. -/
def settles : Effect → Bool
  | .runTask _ outcome => outcome.accepted
  | .callback _ u => u.status = .failed
  | _ => false

/-- The attempt of the message in hand, while it is not decided. -/
def Composition.launching (s : Composition) : List Attempt :=
  match s.message with
  | some e => if s.inHand.any settles then [attemptOf e] else []
  | none => []

/-- The attempts that run in containers. -/
def Composition.executing (s : Composition) : List Attempt :=
  (s.containers.filter Container.live).map Container.attempt

/-- All attempts that are under way. -/
def Composition.attempts (s : Composition) : List Attempt :=
  s.pending.map attemptOf ++ s.launching ++ s.executing

/-! ## The accounts of the attempts -/

/-- No job has two attempts, each attempt has the stored count, and every event the stored
budget. -/
structure Accounts (attempts : List Attempt) (w : World) : Prop where
  distinct : (attempts.map Prod.fst).Nodup
  counted : ∀ t ∈ attempts, ∃ n m, w.budget t.1 = some (n, m) ∧ (n : ℤ) = t.2
  budgets : ∀ e ∈ w.jobTopic, ∃ n, w.budget e.jobId = some (n, e.maxRetries)

namespace Accounts

variable {attempts attempts' : List Attempt} {w w' : World}

/-- The order of the attempts does not matter. -/
theorem perm (h : Accounts attempts w) (hperm : attempts.Perm attempts') :
    Accounts attempts' w where
  distinct := (hperm.map Prod.fst).nodup h.distinct
  counted t ht := h.counted t (hperm.mem_iff.mpr ht)
  budgets := h.budgets

/-- Accounts depend on the budgets and on the job topic alone. -/
theorem congr (h : Accounts attempts w) (hbudget : ∀ k, w'.budget k = w.budget k)
    (htopic : w'.jobTopic = w.jobTopic) : Accounts attempts w' where
  distinct := h.distinct
  counted t ht := by
    rw [hbudget]
    exact h.counted t ht
  budgets e he := by
    rw [hbudget]
    exact h.budgets e (htopic ▸ he)

/-- An attempt may end. -/
theorem close {t : Attempt} (h : Accounts (t :: attempts) w) : Accounts attempts w where
  distinct := (List.nodup_cons.mp h.distinct).2
  counted u hu := h.counted u (List.mem_cons_of_mem t hu)
  budgets := h.budgets

/-- A new event opens the attempt that its row counts, for a job without one. -/
theorem extend (h : Accounts attempts w) {e : JobEvent} {n : ℕ}
    (hfree : e.jobId ∉ attempts.map Prod.fst) (hcount : attemptOf e = (e.jobId, (n : ℤ)))
    (hrow : w'.budget e.jobId = some (n, e.maxRetries))
    (hothers : ∀ k, k ≠ e.jobId → w'.budget k = w.budget k)
    (hmax : ∀ m, w.budget e.jobId = some m → m.2 = e.maxRetries)
    (htopic : w'.jobTopic = w.jobTopic ++ [e]) : Accounts (attemptOf e :: attempts) w' where
  distinct := List.nodup_cons.mpr ⟨hfree, h.distinct⟩
  counted t ht := by
    rcases List.mem_cons.mp ht with rfl | hold
    · exact ⟨n, e.maxRetries, hrow, by rw [hcount]⟩
    · have hne : t.1 ≠ e.jobId := fun heq => hfree (heq ▸ List.mem_map_of_mem hold)
      rw [hothers t.1 hne]
      exact h.counted t hold
  budgets x hx := by
    rw [htopic] at hx
    rcases List.mem_append.mp hx with hold | hnew
    · obtain ⟨k, hk⟩ := h.budgets x hold
      by_cases hxe : x.jobId = e.jobId
      · have hsame : x.maxRetries = e.maxRetries := hmax _ (hxe ▸ hk)
        exact ⟨n, by rw [hxe, hrow, hsame]⟩
      · exact ⟨k, by rw [hothers _ hxe, hk]⟩
    · rw [List.mem_singleton.mp hnew]
      exact ⟨n, hrow⟩

/-- A `FAILED` report ends the attempt of its job, and opens the next one if the budget
allows. -/
theorem failed_report {j : JobId} {n : ℤ} (h : Accounts ((j, n) :: attempts) w)
    {u : JobStatusUpdate} (hfailed : u.status = .failed) (now : Time) :
    let w' := JobService.step w (.update j now .delivered u)
    (∃ e, w'.jobTopic = w.jobTopic ++ [e] ∧ e.jobId = j ∧
      (∃ m, w.budget j = some (n.toNat, m) ∧ n < m) ∧
      w'.storedStatus j = some .queued ∧ Accounts (attemptOf e :: attempts) w') ∨
    (w'.jobTopic = w.jobTopic ∧ (∃ m, w.budget j = some (n.toNat, m) ∧ m ≤ n) ∧
      w'.storedStatus j = some .dead ∧ Accounts attempts w') := by
  intro w'
  obtain ⟨k, m, hbudget, hk⟩ := h.counted (j, n) List.mem_cons_self
  replace hk : (k : ℤ) = n := hk
  have hnat : n.toNat = k := by omega
  have hfree : j ∉ attempts.map Prod.fst := (List.nodup_cons.mp h.distinct).1
  have hothers : ∀ l, l ≠ j → w'.budget l = w.budget l := fun l hl => by
    rw [World.budget, find?_update_of_ne now .delivered u (Ne.symm hl), World.budget]
  rw [hnat]
  rcases spends_update now hbudget hfailed with
    ⟨hlt, hrow, hqueued, e, htopic, rfl, hmax, hretry⟩ | ⟨hge, hrow, hdead, htopic⟩
  · refine .inl ⟨e, htopic, rfl, ⟨m, hbudget, by omega⟩, hqueued, ?_⟩
    refine h.close.extend (n := k + 1) hfree ?_ (hmax ▸ hrow) hothers ?_ htopic
    · rw [attemptOf, hretry]
      rfl
    · intro b hb
      rw [show w.budget e.jobId = some (k, m) from hbudget, Option.some.injEq] at hb
      rw [hmax, ← hb]
  · refine .inr ⟨htopic, ⟨m, hbudget, by omega⟩, hdead, h.close.congr (fun l => ?_) htopic⟩
    by_cases hl : l = j
    · rw [hl]
      exact hrow.trans hbudget.symm
    · exact hothers l hl

end Accounts

/-! ## What `_process_message` has in hand -/

/-- What is left of a message whose attempt is not decided. -/
inductive Rest (e : JobEvent) : List Effect → Prop
  | attempt {rest : List Effect} (h : Rest e rest) :
    Rest e (.callback (.str e.jobId) { status := .provisioning } :: rest)
  | failure {outcome : RunTaskOutcome} {rest : List Effect} (hfail : outcome.accepted = false)
    (h : Rest e rest) : Rest e (.runTask (requestOf e) outcome :: rest)
  | sleep {n : ℕ} {rest : List Effect} (h : Rest e rest) : Rest e (.sleep n :: rest)
  | launch (arn : TaskArn) : Rest e [.runTask (requestOf e) (.task arn),
      .callback (.str e.jobId) { status := .provisioning, containerId := some arn.text }]
  | failed (text : String) : Rest e [
      .callback (.str e.jobId) { status := .failed, errorMessage := some text },
      .deadLetter ⟨.str e.jobId, e.toJson, text, e.maxRetries⟩]

/-- What is left of a message whose attempt is decided. -/
inductive After (e : JobEvent) : List Effect → Prop
  | done : After e []
  | confirm (arn : TaskArn) : After e [
      .callback (.str e.jobId) { status := .provisioning, containerId := some arn.text }]
  | deadLetter (text : String) :
    After e [.deadLetter ⟨.str e.jobId, e.toJson, text, e.maxRetries⟩]

/-- The work left of a message settles it. -/
theorem Rest.any_settles {e : JobEvent} {effects : List Effect} (h : Rest e effects) :
    effects.any settles = true := by
  induction h with
  | attempt _ ih => rw [List.any_cons, ih, Bool.or_true]
  | failure _ _ ih => rw [List.any_cons, ih, Bool.or_true]
  | sleep _ ih => rw [List.any_cons, ih, Bool.or_true]
  | launch arn => rfl
  | failed text => rfl

/-- Once a message is settled, nothing settles it again. -/
theorem After.not_any_settles {e : JobEvent} {effects : List Effect} (h : After e effects) :
    effects.any settles = false := by
  cases h <;> rfl

/-- A backoff before the work left is work left. -/
theorem Rest.backoff {e : JobEvent} {rest : List Effect} (h : Rest e rest) (attempt : ℕ)
    (maxRetries : ℤ) : Rest e (Orchestrator.backoff attempt maxRetries ++ rest) := by
  unfold Orchestrator.backoff
  split
  · exact .sleep h
  · exact h

/-- A message starts undecided. -/
theorem rest_handleEvent (e : JobEvent) (outcomes : ℕ → RunTaskOutcome) :
    Rest e (handleEvent e outcomes) := by
  have hloop : ∀ remaining attempt lastError, Rest e (launchAttempts e.toJson (.str e.jobId)
      e.maxRetries outcomes remaining attempt lastError) := by
    intro remaining
    induction remaining with
    | zero =>
      intro attempt lastError
      exact .failed (launchFailedText e.maxRetries lastError)
    | succ remaining ih =>
      intro attempt lastError
      cases haccepted : (outcomes attempt).accepted with
      | true =>
        obtain ⟨arn, harn⟩ := RunTaskOutcome.accepted_iff.mp haccepted
        rw [launchAttempts_of_task harn]
        exact .attempt (.launch arn)
      | false =>
        obtain ⟨err, hstep⟩ := launchAttempts_of_failure haccepted remaining lastError
        rw [hstep]
        exact .attempt (.failure haccepted ((ih (attempt + 1) (some err)).backoff attempt _))
  exact hloop e.maxRetries 1 none

/-! ## One step keeps the accounts -/

section Lists

variable {α β : Type*} {p : α → Bool} {f : α → β} {g : α → α} {x : α} {l : List α} {i : ℕ}

/-- Changing an entry in what is not looked at leaves the selected entries. -/
theorem map_filter_modify (hx : l[i]? = some x) (hp : p (g x) = p x) (hf : f (g x) = f x) :
    ((l.modify i g).filter p).map f = (l.filter p).map f := by
  induction l generalizing i with
  | nil => simp at hx
  | cons y l ih =>
    cases i with
    | zero =>
      obtain rfl : y = x := by simpa using hx
      by_cases hy : p y = true <;> simp [hp, hf, hy]
    | succ i =>
      have hl := ih (by simpa using hx)
      by_cases hy : p y = true <;> simp [hy, hl]

/-- Changing a selected entry so that it is selected no longer takes its image away. -/
theorem perm_map_filter_modify (hx : l[i]? = some x) (hp : p x = true) (hg : p (g x) = false) :
    ((l.filter p).map f).Perm (f x :: ((l.modify i g).filter p).map f) := by
  induction l generalizing i with
  | nil => simp at hx
  | cons y l ih =>
    cases i with
    | zero =>
      obtain rfl : y = x := by simpa using hx
      simp [hp, hg]
    | succ i =>
      have hl := ih (by simpa using hx)
      by_cases hy : p y = true
      · simpa [hy] using (hl.cons (f y)).trans (List.Perm.swap (f x) (f y) _)
      · simpa [hy] using hl

end Lists

/-- What is published while the consumer stays where it is joins the pending events. -/
theorem pending_of_append {s s' : Composition} {new : List JobEvent}
    (hle : s.offset ≤ s.world.jobTopic.length) (hoffset : s'.offset = s.offset)
    (htopic : s'.world.jobTopic = s.world.jobTopic ++ new) : s'.pending = s.pending ++ new := by
  rw [Composition.pending, htopic, hoffset, List.drop_append_of_le_length hle,
    Composition.pending]

/-- The accounts after a step. No attempt is opened for a stored job without one. -/
structure Continues (s s' : Composition) : Prop where
  accounts : Accounts s'.attempts s'.world
  stored : ∀ j, s.world.budget j ≠ none → j ∈ s'.attempts.map Prod.fst →
    j ∈ s.attempts.map Prod.fst

namespace Continues

variable {s s' : Composition}

/-- A step that only moves attempts continues the accounts. -/
theorem of_perm (h : Accounts s.attempts s.world) (hperm : s.attempts.Perm s'.attempts)
    (hbudget : ∀ k, s'.world.budget k = s.world.budget k)
    (htopic : s'.world.jobTopic = s.world.jobTopic) : Continues s s' where
  accounts := (h.congr hbudget htopic).perm hperm
  stored _ _ hj := (hperm.map Prod.fst).mem_iff.mpr hj

/-- The attempts after a step that publishes `e` and leaves the consumer where it is. -/
theorem attempts_perm_of_publish {e : JobEvent} (hle : s.offset ≤ s.world.jobTopic.length)
    (hoffset : s'.offset = s.offset) (htopic : s'.world.jobTopic = s.world.jobTopic ++ [e]) :
    s'.attempts.Perm
      (attemptOf e :: (s.pending.map attemptOf ++ (s'.launching ++ s'.executing))) := by
  rw [Composition.attempts, pending_of_append hle hoffset htopic, List.map_append,
    List.append_assoc, List.append_assoc]
  exact List.perm_middle

/-- The attempts after a step that leaves the topic and the consumer where they are. -/
theorem attempts_eq (hoffset : s'.offset = s.offset)
    (htopic : s'.world.jobTopic = s.world.jobTopic) :
    s'.attempts = s.pending.map attemptOf ++ (s'.launching ++ s'.executing) := by
  rw [Composition.attempts, Composition.pending, htopic, hoffset, List.append_assoc,
    Composition.pending]

/-- Such a step neither opens an attempt nor ends one. -/
theorem quiet (h : Accounts s.attempts s.world) (hoffset : s'.offset = s.offset)
    (hperm : (s.launching ++ s.executing).Perm (s'.launching ++ s'.executing))
    (hbudget : ∀ k, s'.world.budget k = s.world.budget k)
    (htopic : s'.world.jobTopic = s.world.jobTopic) : Continues s s' := by
  refine of_perm h ?_ hbudget htopic
  rw [attempts_eq hoffset htopic, Composition.attempts, List.append_assoc]
  exact hperm.append_left _

/-- Such a step ends one attempt. -/
theorem close {t : Attempt} (h : Accounts s.attempts s.world) (hoffset : s'.offset = s.offset)
    (hperm : (s.launching ++ s.executing).Perm (t :: (s'.launching ++ s'.executing)))
    (hbudget : ∀ k, s'.world.budget k = s.world.budget k)
    (htopic : s'.world.jobTopic = s.world.jobTopic) : Continues s s' := by
  have hall : s.attempts.Perm (t :: s'.attempts) := by
    rw [attempts_eq hoffset htopic, Composition.attempts, List.append_assoc]
    exact (hperm.append_left _).trans List.perm_middle
  refine ⟨(h.perm hall).close.congr hbudget htopic, fun j _ hj => ?_⟩
  exact (hall.map Prod.fst).mem_iff.mpr (List.mem_cons_of_mem _ hj)

end Continues

/-- The next attempt of the job waits on the topic. -/
def Composition.Requeued (s : Composition) (j : JobId) : Prop :=
  s.world.storedStatus j = some .queued ∧ ∃ e ∈ s.pending, e.jobId = j

/-- The job is dead and has no attempt. -/
def Composition.Buried (s : Composition) (j : JobId) : Prop :=
  s.world.storedStatus j = some .dead ∧ j ∉ s.attempts.map Prod.fst

/-- **A `FAILED` report.** It ends the attempt `n` of its job; the job is then queued for the
next attempt or, if its budget is `n`, dead. -/
theorem failed_step {s s' : Composition} {j : JobId} {n : ℤ} {now : Time} {u : JobStatusUpdate}
    (h : Accounts s.attempts s.world) (hle : s.offset ≤ s.world.jobTopic.length)
    (hfailed : u.status = .failed)
    (hworld : s'.world = JobService.step s.world (.update j now .delivered u))
    (hoffset : s'.offset = s.offset)
    (hperm : (s.launching ++ s.executing).Perm ((j, n) :: (s'.launching ++ s'.executing))) :
    Continues s s' ∧ ∃ m, s.world.budget j = some (n.toNat, m) ∧
      (n < m ∧ s'.Requeued j ∨ m ≤ n ∧ s'.Buried j) := by
  have hall : s.attempts.Perm
      ((j, n) :: (s.pending.map attemptOf ++ (s'.launching ++ s'.executing))) := by
    rw [Composition.attempts, List.append_assoc]
    exact (hperm.append_left _).trans List.perm_middle
  have hids : ∀ k ∈ (s.pending.map attemptOf ++ (s'.launching ++ s'.executing)).map Prod.fst,
      k ∈ s.attempts.map Prod.fst := fun k hk =>
    (hall.map Prod.fst).mem_iff.mpr (List.mem_cons_of_mem j hk)
  have hj : j ∈ s.attempts.map Prod.fst := (hall.map Prod.fst).mem_iff.mpr List.mem_cons_self
  rcases (h.perm hall).failed_report hfailed now with
    ⟨e, htopic, hid, ⟨m, hbudget, hlt⟩, hqueued, haccounts⟩ |
    ⟨htopic, ⟨m, hbudget, hge⟩, hdead, haccounts⟩
  · rw [← hworld] at htopic hqueued haccounts
    have hattempts := Continues.attempts_perm_of_publish hle hoffset htopic
    refine ⟨⟨haccounts.perm hattempts.symm, fun k _ hk => ?_⟩,
      m, hbudget, .inl ⟨hlt, hqueued, e, ?_, hid⟩⟩
    · rcases List.mem_cons.mp ((hattempts.map Prod.fst).mem_iff.mp hk) with rfl | hold
      · rw [attemptOf, hid]
        exact hj
      · exact hids k hold
    · rw [pending_of_append hle hoffset htopic]
      exact List.mem_append_right _ (List.mem_singleton_self e)
  · rw [← hworld] at htopic hdead haccounts
    have hattempts := Continues.attempts_eq hoffset htopic
    rw [← hattempts] at haccounts hids hall
    refine ⟨⟨haccounts, fun k _ hk => hids k hk⟩, m, hbudget, .inr ⟨hge, hdead, ?_⟩⟩
    exact (List.nodup_cons.mp ((hall.map Prod.fst).nodup h.distinct)).1

end DataHarbour.System
