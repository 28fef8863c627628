import DataHarbour.System.Attempts

/-!
# No attempt is lost or doubled

Every step of every party keeps the accounts of the attempts: a submission opens the first
attempt of a new job, a launch moves an attempt from the consumer into a container, and a
`FAILED` report ends one attempt and opens the next. All other steps leave the attempts where
they are.
-/

namespace DataHarbour.System

open Python Relational Machine JobService Orchestrator

/-- The invariant of the composed system. -/
structure Conserved (s : Composition) : Prop where
  accounts : Accounts s.attempts s.world
  offset_le : s.offset ≤ s.world.jobTopic.length
  /-- Work in hand belongs to a message that is on the topic. -/
  inHand : s.inHand = [] ∨
    ∃ e ∈ s.world.jobTopic, s.message = some e ∧ (Rest e s.inHand ∨ After e s.inHand)

/-- An effect in hand belongs to the message that was taken last. -/
theorem Conserved.work {s : Composition} (h : Conserved s) {effect : Effect} {rest : List Effect}
    (hhand : s.inHand = effect :: rest) : ∃ e ∈ s.world.jobTopic, s.message = some e ∧
      (Rest e (effect :: rest) ∨ After e (effect :: rest)) := by
  rcases h.inHand with hnil | ⟨e, he, hmsg, hwork⟩
  · simp [hnil] at hhand
  · exact ⟨e, he, hmsg, hhand ▸ hwork⟩

/-- Work left of a message is one attempt about to launch. -/
theorem Composition.launching_of_rest {s : Composition} {e : JobEvent} (hmsg : s.message = some e)
    (h : Rest e s.inHand) : s.launching = [attemptOf e] := by
  simp only [Composition.launching, hmsg, h.any_settles, if_true]

/-- A settled message has no attempt about to launch. -/
theorem Composition.launching_of_after {s : Composition} {e : JobEvent}
    (hmsg : s.message = some e) (h : After e s.inHand) : s.launching = [] := by
  simp only [Composition.launching, hmsg, h.not_any_settles, Bool.false_eq_true, if_false]

/-- Without work in hand no attempt is about to launch. -/
theorem Composition.launching_of_inHand_nil {s : Composition} (h : s.inHand = []) :
    s.launching = [] := by
  cases hmsg : s.message <;> simp [Composition.launching, hmsg, h]

private theorem exists_topic_update (w : World) (jobId : JobId) (now : Time) (u : JobStatusUpdate) :
    ∃ new, (JobService.step w (.update jobId now .delivered u)).jobTopic = w.jobTopic ++ new := by
  rw [jobTopic_update]
  cases (w.jobs.find? jobId).bind (·.resubmission u now) with
  | none => exact ⟨[], (List.append_nil _).symm⟩
  | some e => exact ⟨[e], rfl⟩

/-- Events stay on the topic. -/
theorem exists_topic_move (time : ℕ → Time) (s : Composition) (a : Move) :
    ∃ new, (move time s a).world.jobTopic = s.world.jobTopic ++ new := by
  have hsame : ∃ new, s.world.jobTopic = s.world.jobTopic ++ new :=
    ⟨[], (List.append_nil _).symm⟩
  cases a with
  | create jobId request =>
    have htopic := jobTopic_create s.world jobId (time s.clock) .delivered request
    by_cases hfresh : s.world.jobs.find? jobId = none
    · rw [if_pos hfresh] at htopic
      exact ⟨_, htopic⟩
    · rw [if_neg hfresh] at htopic
      exact ⟨[], htopic.trans (List.append_nil _).symm⟩
  | take outcomes =>
    rcases take_cases time s outcomes with hmove | ⟨e, -, -, hmove⟩ <;> rw [hmove] <;> exact hsame
  | act =>
    rcases act_cases time s with ⟨-, hmove⟩ | ⟨effect, rest, -, hmove⟩ <;> rw [hmove]
    · exact hsame
    · unfold Composition.perform
      split
      · exact exists_topic_update s.world _ _ _
      all_goals exact hsame
  | report i =>
    rcases report_cases time s i with hmove | ⟨c, -, -, hmove⟩ <;> rw [hmove]
    · exact hsame
    · exact exists_topic_update s.world _ _ _
  | finish i code =>
    rcases finish_cases time s i code with hmove | ⟨c, -, -, hmove⟩ <;> rw [hmove]
    · exact hsame
    · exact exists_topic_update s.world _ _ _

private theorem continues_refl {s : Composition} (h : Conserved s) : Continues s s :=
  .quiet h.accounts rfl (List.Perm.refl _) (fun _ => rfl) rfl

/-- A job without a row has no attempt. -/
theorem Accounts.no_attempt {attempts : List Attempt} {w : World} (h : Accounts attempts w)
    {j : JobId} (hfresh : w.budget j = none) : j ∉ attempts.map Prod.fst := by
  intro hmem
  obtain ⟨t, ht, rfl⟩ := List.mem_map.mp hmem
  obtain ⟨n, m, hrow, -⟩ := h.counted t ht
  rw [hfresh] at hrow
  cases hrow

/-- A creation continues the accounts with one attempt more. -/
theorem continues_create (time : ℕ → Time) {s : Composition} (h : Conserved s) (jobId : JobId)
    (request : JobCreateRequest) : Continues s (move time s (.create jobId request)) := by
  have htopic := jobTopic_create s.world jobId (time s.clock) .delivered request
  have hbudget := budget_create s.world jobId (time s.clock) .delivered request
  by_cases hfresh : s.world.jobs.find? jobId = none
  · rw [if_pos hfresh] at htopic
    have hnone : s.world.budget jobId = none := budget_eq_none_iff.mpr hfresh
    have hattempts : (move time s (.create jobId request)).attempts.Perm
        (attemptOf (originalEvent jobId request) :: s.attempts) := by
      have hsplit : s.attempts = s.pending.map attemptOf ++ (s.launching ++ s.executing) :=
        List.append_assoc _ _ _
      rw [hsplit]
      exact Continues.attempts_perm_of_publish h.offset_le rfl htopic
    have hrow : (JobService.step s.world (.create jobId (time s.clock) .delivered request)).budget
        jobId = some (0, request.maxRetries) := by rw [hbudget, if_pos ⟨rfl, hfresh⟩]
    have hothers : ∀ k, k ≠ jobId → (JobService.step s.world
        (.create jobId (time s.clock) .delivered request)).budget k = s.world.budget k := by
      intro k hk
      rw [hbudget, if_neg fun hboth => hk hboth.1.symm]
    have hopen := h.accounts.extend (e := originalEvent jobId request) (n := 0)
      (h.accounts.no_attempt hnone) rfl hrow hothers (fun m hm => by cases hnone.symm.trans hm)
      htopic
    refine ⟨hopen.perm hattempts.symm, fun k hk hmem => ?_⟩
    rcases List.mem_cons.mp ((hattempts.map Prod.fst).mem_iff.mp hmem) with rfl | hold
    · exact absurd hnone hk
    · exact hold
  · rw [if_neg hfresh] at htopic
    refine Continues.quiet h.accounts rfl (List.Perm.refl _) (fun k => ?_) htopic
    refine (hbudget k).trans (if_neg ?_)
    rintro ⟨rfl, hnone⟩
    exact hfresh hnone

/-- Taking a message moves its attempt from the topic into the consumer's hand. -/
theorem continues_take (time : ℕ → Time) {s : Composition} (h : Conserved s)
    (outcomes : ℕ → RunTaskOutcome) : Continues s (move time s (.take outcomes)) := by
  rcases take_cases time s outcomes with hmove | ⟨e, hhand, htopic, hmove⟩ <;> rw [hmove]
  · exact continues_refl h
  · refine Continues.of_perm h.accounts ?_ (fun _ => rfl) rfl
    have hpending : s.pending = e :: s.world.jobTopic.drop (s.offset + 1) := by
      obtain ⟨hlt, hget⟩ := List.getElem?_eq_some_iff.mp htopic
      rw [Composition.pending, List.drop_eq_getElem_cons hlt, hget]
    rw [Composition.attempts, Composition.attempts, hpending,
      Composition.launching_of_inHand_nil hhand,
      Composition.launching_of_rest (e := e) rfl (rest_handleEvent e outcomes)]
    refine List.Perm.append_right _ ?_
    rw [List.append_nil, List.map_cons]
    exact (List.perm_append_singleton _ _).symm

/-- What is left of the work on a message after one of its effects. -/
theorem rest_or_after_tail {e : JobEvent} {effect : Effect} {rest : List Effect}
    (h : Rest e (effect :: rest) ∨ After e (effect :: rest)) : Rest e rest ∨ After e rest := by
  rcases h with hrest | hafter
  · cases hrest with
    | attempt h => exact .inl h
    | failure _ h => exact .inl h
    | sleep h => exact .inl h
    | launch arn => exact .inr (.confirm arn)
    | failed text => exact .inr (.deadLetter text)
  · cases hafter <;> exact .inr .done

/-- The `FAILED` report of a message ends its attempt: the job is queued again exactly if the
message was not the last attempt. -/
theorem launch_failed_step (time : ℕ → Time) {s : Composition} (h : Conserved s) {e : JobEvent}
    (he : e ∈ s.world.jobTopic) (hmsg : s.message = some e) {u : JobStatusUpdate}
    (hfailed : u.status = .failed) {record : DeadLetter}
    (hrest : Rest e [.callback (.str e.jobId) u, .deadLetter record])
    (hhand : s.inHand = [.callback (.str e.jobId) u, .deadLetter record]) :
    let s' := { s with inHand := [.deadLetter record] }.perform time (.callback (.str e.jobId) u)
    Continues s s' ∧ (e.retry.getD 0 < e.maxRetries ∧ s'.Requeued e.jobId ∨
      e.maxRetries ≤ e.retry.getD 0 ∧ s'.Buried e.jobId) := by
  intro s'
  have hbefore : s.launching = [attemptOf e] := Composition.launching_of_rest hmsg (hhand ▸ hrest)
  have hlaunching : s'.launching = [] := by
    rcases rest_or_after_tail (.inl hrest) with hbad | hafter
    · cases hbad
    · exact Composition.launching_of_after hmsg hafter
  have hperm : (s.launching ++ s.executing).Perm
      ((e.jobId, ((e.retry.getD 0 : ℕ) : ℤ)) :: (s'.launching ++ s'.executing)) := by
    rw [hbefore, hlaunching]
    exact List.Perm.refl _
  have hworld : s'.world = JobService.step s.world
      (.update e.jobId (time s.clock) .delivered u) := rfl
  have hoffset : s'.offset = s.offset := rfl
  obtain ⟨hcontinues, m, hbudget, hcases⟩ :=
    failed_step h.accounts h.offset_le hfailed hworld hoffset hperm
  obtain ⟨n, hrow⟩ := h.accounts.budgets e he
  have hmax : m = e.maxRetries := by
    rw [hrow, Option.some.injEq, Prod.mk.injEq] at hbudget
    exact hbudget.2.symm
  refine ⟨hcontinues, hcases.imp (fun ⟨hlt, hqueued⟩ => ⟨?_, hqueued⟩)
    fun ⟨hge, hburied⟩ => ⟨?_, hburied⟩⟩ <;> omega

/-- An effect that reports no failure. -/
def Harmless : Effect → Prop
  | .callback _ u => u.status ≠ .failed
  | _ => True

private theorem perform_harmless (time : ℕ → Time) (s : Composition) {effect : Effect}
    (h : Harmless effect) : (∀ k, (s.perform time effect).world.budget k = s.world.budget k) ∧
      (s.perform time effect).world.jobTopic = s.world.jobTopic := by
  unfold Composition.perform
  split
  · exact ⟨budget_update_of_not_failed h s.world _ _ .delivered,
      jobTopic_update_of_not_failed h s.world _ _ .delivered⟩
  all_goals exact ⟨fun _ => rfl, rfl⟩

/-- The attempts in containers after an effect. -/
theorem executing_perform (time : ℕ → Time) (s : Composition) (effect : Effect) :
    (s.perform time effect).executing = s.executing ++
      match effect with
      | .runTask request (.task _) => [(request.jobId, request.retryCount)]
      | _ => [] := by
  have hsame : s.executing = s.executing ++ [] := (List.append_nil _).symm
  cases effect with
  | callback jobId u => cases jobId <;> exact hsame
  | runTask request outcome =>
    cases outcome with
    | task arn =>
      simp only [Composition.perform, Composition.executing, List.filter_append, List.map_append]
      rfl
    | raised e => exact hsame
    | failure reason => exact hsame
    | noTasks => exact hsame
  | sleep n => exact hsame
  | deadLetter record => exact hsame

/-- An effect that neither reports a failure nor launches a task, and does not decide the
message, changes no attempt. -/
theorem continues_of_launching_eq (time : ℕ → Time) {s : Composition} (h : Conserved s)
    {effect : Effect} {rest : List Effect} (hharmless : Harmless effect)
    (hlaunching : { s with inHand := rest }.launching = s.launching)
    (hexecuting : (s.perform time effect).executing = s.executing) :
    Continues s ({ s with inHand := rest }.perform time effect) := by
  let s' := { s with inHand := rest }.perform time effect
  obtain ⟨hbudget, htopic⟩ := perform_harmless time { s with inHand := rest } hharmless
  have hlaunching' : s'.launching = s.launching := by
    rw [← hlaunching, Composition.launching, perform_message, perform_inHand, Composition.launching]
  have hexecuting' : s'.executing = s.executing := by
    rw [← hexecuting, executing_perform, executing_perform]
    rfl
  refine .quiet h.accounts (perform_offset _ _ _) ?_ hbudget htopic
  rw [hlaunching', hexecuting']

/-- An effect of the message in hand keeps the accounts: the accepted launch moves the attempt
into its container, the `FAILED` report ends it, and the others leave it where it is. -/
theorem continues_effect (time : ℕ → Time) {s : Composition} (h : Conserved s) {e : JobEvent}
    (he : e ∈ s.world.jobTopic) (hmsg : s.message = some e) {effect : Effect} {rest : List Effect}
    (hhand : s.inHand = effect :: rest)
    (hwork : Rest e (effect :: rest) ∨ After e (effect :: rest)) :
    Continues s ({ s with inHand := rest }.perform time effect) := by
  rcases hwork with hrest | hafter
  · have hbefore : s.launching = [attemptOf e] :=
      Composition.launching_of_rest hmsg (hhand ▸ hrest)
    have hundecided : Rest e rest → { s with inHand := rest }.launching = s.launching :=
      fun hnext => (Composition.launching_of_rest (s := { s with inHand := rest }) hmsg
        hnext).trans hbefore.symm
    cases hrest with
    | attempt hnext =>
      exact continues_of_launching_eq time h (by simp [Harmless]) (hundecided hnext) rfl
    | @failure outcome _ hfail hnext =>
      refine continues_of_launching_eq time h trivial (hundecided hnext) ?_
      rw [executing_perform]
      cases outcome <;> first | exact List.append_nil _ | cases hfail
    | sleep hnext => exact continues_of_launching_eq time h trivial (hundecided hnext) rfl
    | launch arn =>
      have hafter : ({ s with inHand := [.callback (.str e.jobId)
          { status := .provisioning, containerId := some arn.text }] }.perform time
          (.runTask (requestOf e) (.task arn))).launching = [] :=
        Composition.launching_of_after hmsg (.confirm arn)
      refine .quiet h.accounts rfl ?_ (fun _ => rfl) rfl
      rw [hbefore, executing_perform, hafter]
      exact (List.perm_append_singleton _ _).symm
    | failed text => exact (launch_failed_step time h he hmsg rfl (.failed text) hhand).1
  · have hdecided : { s with inHand := rest }.launching = s.launching := by
      have hbefore := Composition.launching_of_after hmsg (hhand ▸ hafter)
      rcases rest_or_after_tail (.inr hafter) with hbad | hnext
      · cases hafter <;> cases hbad
      · rw [hbefore]
        exact Composition.launching_of_after (s := { s with inHand := rest }) hmsg hnext
    cases hafter with
    | confirm arn => exact continues_of_launching_eq time h (by simp [Harmless]) hdecided rfl
    | deadLetter text => exact continues_of_launching_eq time h trivial hdecided rfl

/-- An effect continues the accounts. -/
theorem continues_act (time : ℕ → Time) {s : Composition} (h : Conserved s) :
    Continues s (move time s .act) := by
  rcases act_cases time s with ⟨-, hmove⟩ | ⟨effect, rest, hhand, hmove⟩ <;> rw [hmove]
  · exact continues_refl h
  · obtain ⟨e, he, hmsg, hwork⟩ := h.work hhand
    exact continues_effect time h he hmsg hhand hwork

/-- A first report moves no attempt. -/
theorem continues_report (time : ℕ → Time) {s : Composition} (h : Conserved s) (i : ℕ) :
    Continues s (move time s (.report i)) := by
  rcases report_cases time s i with hmove | ⟨c, hget, hphase, hmove⟩ <;> rw [hmove]
  · exact continues_refl h
  · refine .quiet h.accounts rfl ?_ ?_ ?_
    · have hexecuting : ((s.deliver time c.request.jobId { status := .running }).setPhase i
          .running).executing = s.executing :=
        map_filter_modify hget (by simp [Container.live, hphase]) rfl
      rw [hexecuting]
      exact List.Perm.refl _
    · exact budget_update_of_not_failed (by decide) s.world c.request.jobId _ .delivered
    · exact jobTopic_update_of_not_failed (by decide) s.world c.request.jobId _ .delivered

/-- A container that ends takes its attempt from those executing. -/
theorem executing_finish (time : ℕ → Time) {s : Composition} {i : ℕ} {c : Container}
    (hget : s.containers[i]? = some c) (hphase : c.phase = .running) (u : JobStatusUpdate)
    (code : ℤ) : s.executing.Perm (c.attempt ::
      ((s.deliver time c.request.jobId u).setPhase i (.exited code)).executing) :=
  perm_map_filter_modify hget (by simp [Container.live, hphase]) rfl

/-- The end of a container continues the accounts. -/
theorem continues_finish (time : ℕ → Time) {s : Composition} (h : Conserved s) (i : ℕ)
    (code : ℤ) : Continues s (move time s (.finish i code)) := by
  rcases finish_cases time s i code with hmove | ⟨c, hget, hphase, hmove⟩ <;> rw [hmove]
  · exact continues_refl h
  · have hperm := executing_finish time hget hphase
      { status := exitStatus code, exitCode := some code } code
    by_cases hcode : code = 0
    · have hsuccess : exitStatus code ≠ .failed := by simp [exitStatus, hcode]
      refine .close h.accounts rfl ((hperm.append_left s.launching).trans List.perm_middle) ?_ ?_
      · exact budget_update_of_not_failed hsuccess s.world c.request.jobId _ .delivered
      · exact jobTopic_update_of_not_failed hsuccess s.world c.request.jobId _ .delivered
    · have hfailed : exitStatus code = .failed := by simp [exitStatus, hcode]
      refine And.left (failed_step (j := c.request.jobId) (n := c.request.retryCount) h.accounts
        h.offset_le hfailed rfl rfl ?_)
      exact (hperm.append_left s.launching).trans List.perm_middle

/-- Every move continues the accounts. -/
theorem continues_move (time : ℕ → Time) {s : Composition} (h : Conserved s) (a : Move) :
    Continues s (move time s a) := by
  cases a with
  | create jobId request => exact continues_create time h jobId request
  | take outcomes => exact continues_take time h outcomes
  | act => exact continues_act time h
  | report i => exact continues_report time h i
  | finish i code => exact continues_finish time h i code

/-- The accounts are kept by every step of every party. -/
theorem conserved_invariant (time : ℕ → Time) : Invariant (move time) Conserved := by
  intro s a h
  obtain ⟨new, htopic⟩ := exists_topic_move time s a
  have hkept : ∀ e ∈ s.world.jobTopic, e ∈ (move time s a).world.jobTopic := fun e he =>
    htopic ▸ List.mem_append_left new he
  have hle : s.offset ≤ (move time s a).world.jobTopic.length := by
    have hold := h.offset_le
    rw [htopic, List.length_append]
    omega
  have hsame : s.inHand = [] ∨ ∃ e ∈ (move time s a).world.jobTopic,
      s.message = some e ∧ (Rest e s.inHand ∨ After e s.inHand) :=
    h.inHand.imp_right fun ⟨e, he, hwork⟩ => ⟨e, hkept e he, hwork⟩
  have haccounts := (continues_move time h a).accounts
  cases a with
  | create jobId request => exact ⟨haccounts, hle, hsame⟩
  | take outcomes =>
    rcases take_cases time s outcomes with hmove | ⟨e, hhand, hget, hmove⟩
    · rw [hmove]
      exact h
    · rw [hmove] at haccounts hkept ⊢
      obtain ⟨hlt, -⟩ := List.getElem?_eq_some_iff.mp hget
      exact ⟨haccounts, hlt, .inr ⟨e, List.mem_of_getElem? hget, rfl,
        .inl (rest_handleEvent e outcomes)⟩⟩
  | act =>
    rcases act_cases time s with ⟨-, hmove⟩ | ⟨effect, rest, hhand, hmove⟩
    · rw [hmove]
      exact h
    · rw [hmove] at haccounts hle hkept ⊢
      refine ⟨haccounts, by simpa only [perform_offset] using hle, ?_⟩
      rw [perform_inHand, perform_message]
      obtain ⟨e, he, hmsg, hwork⟩ := h.work hhand
      exact .inr ⟨e, hkept e he, hmsg, rest_or_after_tail hwork⟩
  | report i =>
    rcases report_cases time s i with hmove | ⟨c, -, -, hmove⟩
    · rw [hmove]
      exact h
    · rw [hmove] at haccounts hle hsame ⊢
      exact ⟨haccounts, hle, hsame⟩
  | finish i code =>
    rcases finish_cases time s i code with hmove | ⟨c, -, -, hmove⟩
    · rw [hmove]
      exact h
    · rw [hmove] at haccounts hle hsame ⊢
      exact ⟨haccounts, hle, hsame⟩

end DataHarbour.System
