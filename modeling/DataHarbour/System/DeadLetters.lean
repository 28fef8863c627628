import DataHarbour.System.Conservation

/-!
# Is dead-lettering final?

`JobConsumer` dead-letters a message after its launch attempts are used up. The `FAILED` report
just before makes the job service spend one retry of the job, so the job is dead only if the
message was its last attempt. Otherwise it is queued again, and each further attempt whose
launches fail is dead-lettered as well.
-/

namespace DataHarbour.System

open Python Relational Machine JobService Orchestrator

/-- The event has no retry left: its `retry_count` has reached its `max_retries`. -/
def LastAttempt (e : JobEvent) : Prop := e.maxRetries ≤ e.retry.getD 0

/-- The step publishes a dead letter for job `j`. -/
def DeadLetters (j : JobId) (s : Composition) (a : Move) : Prop :=
  a = .act ∧ ∃ record rest, s.inHand = .deadLetter record :: rest ∧ record.jobId = .str j

/-- Whenever the run publishes a dead letter for a job, the job is `DEAD` at that point, and
from there on the run publishes no submission event and no dead letter for it. -/
def DeadLettersFinal (time : ℕ → Time) (start : Composition) (actions : List Move) : Prop :=
  ∀ before a after j, actions = before ++ a :: after →
    DeadLetters j (run (move time) start before) a →
    (run (move time) start before).world.storedStatus j = some .dead ∧
      (run (move time) start actions).world.submissions j =
        (run (move time) start before).world.submissions j ∧
      Along (move time) (fun s b => ¬ DeadLetters j s b)
        (run (move time) start (before ++ [a])) after

/-- The message that a step dead-letters is a last attempt. -/
def LastAttempts (s : Composition) (a : Move) : Prop :=
  ∀ j, DeadLetters j s a → ∃ e, s.message = some e ∧ LastAttempt e

/-! ## A job without an attempt -/

/-- The effect is about job `j`. -/
def Concerns (j : JobId) : Effect → Prop
  | .callback jobId _ => jobId = .str j
  | .deadLetter record => record.jobId = .str j
  | _ => False

/-- No party will report on job `j` any more. -/
structure Closed (j : JobId) (s : Composition) : Prop where
  stored : s.world.budget j ≠ none
  no_attempt : j ∉ s.attempts.map Prod.fst
  no_effect : ∀ effect ∈ s.inHand, ¬ Concerns j effect

/-- The work on a message concerns the job of the message alone. -/
theorem concerns_of_work {e : JobEvent} {effects : List Effect}
    (h : Rest e effects ∨ After e effects) {j : JobId} :
    ∀ effect ∈ effects, Concerns j effect → e.jobId = j := by
  rcases h with hrest | hafter
  · induction hrest with
    | attempt _ ih =>
      intro effect heffect hconcerns
      rcases List.mem_cons.mp heffect with rfl | htail
      · exact Json.str.inj hconcerns
      · exact ih effect htail hconcerns
    | failure _ _ ih =>
      intro effect heffect hconcerns
      rcases List.mem_cons.mp heffect with rfl | htail
      · exact hconcerns.elim
      · exact ih effect htail hconcerns
    | sleep _ ih =>
      intro effect heffect hconcerns
      rcases List.mem_cons.mp heffect with rfl | htail
      · exact hconcerns.elim
      · exact ih effect htail hconcerns
    | launch arn => simp [Concerns]
    | failed text => simp [Concerns]
  · cases hafter <;> simp [Concerns]

/-- A step that makes no call about job `j` leaves its row and its submissions alone. -/
theorem move_frame (time : ℕ → Time) {s : Composition} {j : JobId} {a : Move}
    (hstored : s.world.budget j ≠ none) (hidle : j ∉ s.executing.map Prod.fst)
    (hact : a = .act → ∀ effect ∈ s.inHand, ¬ Concerns j effect) :
    (move time s a).world.jobs.find? j = s.world.jobs.find? j ∧
      (move time s a).world.submissions j = s.world.submissions j := by
  have hother : ∀ (c : Container) (i : ℕ), s.containers[i]? = some c → c.live = true →
      c.request.jobId ≠ j := by
    rintro c i hget hlive rfl
    apply hidle
    have hmem : c ∈ s.containers.filter Container.live :=
      List.mem_filter.mpr ⟨List.mem_of_getElem? hget, hlive⟩
    exact List.mem_map_of_mem (List.mem_map_of_mem hmem)
  have hupdate : ∀ (k : JobId) (now : Time) (u : JobStatusUpdate), k ≠ j →
      (updateJobStatus s.world k now .delivered u).1.jobs.find? j = s.world.jobs.find? j ∧
        (updateJobStatus s.world k now .delivered u).1.submissions j = s.world.submissions j :=
    fun k now u hk =>
      ⟨find?_update_of_ne now .delivered u hk, submissions_update_of_ne now .delivered u hk⟩
  cases a with
  | create jobId request =>
    by_cases hid : jobId = j
    · subst hid
      obtain ⟨b, hb⟩ := Option.ne_none_iff_exists'.mp hstored
      obtain ⟨job, hfind, -⟩ := Option.map_eq_some_iff.mp hb
      rw [hfind]
      exact create_of_stored (time s.clock) .delivered request hfind
    · have hrow := find?_create s.world jobId (time s.clock) .delivered request j
      rw [if_neg fun hboth => hid hboth.1] at hrow
      exact ⟨hrow, submissions_create_of_ne (time s.clock) .delivered request hid⟩
  | take outcomes =>
    rcases take_cases time s outcomes with hmove | ⟨e, -, -, hmove⟩ <;> rw [hmove] <;>
      exact ⟨rfl, rfl⟩
  | act =>
    rcases act_cases time s with ⟨-, hmove⟩ | ⟨effect, rest, hhand, hmove⟩ <;> rw [hmove]
    · exact ⟨rfl, rfl⟩
    · have hquiet := hact rfl effect (hhand ▸ List.mem_cons_self)
      unfold Composition.perform
      split
      · next jobId u => exact hupdate jobId _ u fun heq => hquiet (congrArg Json.str heq)
      all_goals exact ⟨rfl, rfl⟩
  | report i =>
    rcases report_cases time s i with hmove | ⟨c, hget, hphase, hmove⟩ <;> rw [hmove]
    · exact ⟨rfl, rfl⟩
    · exact hupdate _ _ _ (hother c i hget (by simp [Container.live, hphase]))
  | finish i code =>
    rcases finish_cases time s i code with hmove | ⟨c, hget, hphase, hmove⟩ <;> rw [hmove]
    · exact ⟨rfl, rfl⟩
    · exact hupdate _ _ _ (hother c i hget (by simp [Container.live, hphase]))

/-- Where the work in hand of the next state comes from. -/
theorem inHand_move (time : ℕ → Time) (s : Composition) (a : Move) :
    (∀ effect ∈ (move time s a).inHand, effect ∈ s.inHand) ∨
      ∃ e ∈ s.pending, Rest e (move time s a).inHand := by
  cases a with
  | create jobId request => exact .inl fun _ h => h
  | take outcomes =>
    rcases take_cases time s outcomes with hmove | ⟨e, -, hget, hmove⟩ <;> rw [hmove]
    · exact .inl fun _ h => h
    · obtain ⟨hlt, rfl⟩ := List.getElem?_eq_some_iff.mp hget
      refine .inr ⟨s.world.jobTopic[s.offset], ?_, rest_handleEvent _ outcomes⟩
      rw [Composition.pending, List.drop_eq_getElem_cons hlt]
      exact List.mem_cons_self
  | act =>
    rcases act_cases time s with ⟨-, hmove⟩ | ⟨effect, rest, hhand, hmove⟩ <;> rw [hmove]
    · exact .inl fun _ h => h
    · rw [perform_inHand, hhand]
      exact .inl fun _ h => List.mem_cons_of_mem effect h
  | report i =>
    rcases report_cases time s i with hmove | ⟨c, -, -, hmove⟩ <;> rw [hmove] <;>
      exact .inl fun _ h => h
  | finish i code =>
    rcases finish_cases time s i code with hmove | ⟨c, -, -, hmove⟩ <;> rw [hmove] <;>
      exact .inl fun _ h => h

/-- A job with an executing attempt has an attempt. -/
theorem executing_subset {s : Composition} {j : JobId} (h : j ∈ s.executing.map Prod.fst) :
    j ∈ s.attempts.map Prod.fst := by
  rw [Composition.attempts, List.map_append]
  exact List.mem_append_right _ h

private theorem pending_subset {s : Composition} {e : JobEvent} (h : e ∈ s.pending) :
    e.jobId ∈ s.attempts.map Prod.fst := by
  have hmem : attemptOf e ∈ s.pending.map attemptOf := List.mem_map_of_mem h
  rw [Composition.attempts, List.append_assoc]
  exact List.mem_map_of_mem (List.mem_append_left _ hmem)

/-- A job that is closed stays closed, and nothing is published for it. -/
theorem Closed.preserved (time : ℕ → Time) {s : Composition} {j : JobId} (hcons : Conserved s)
    (h : Closed j s) (a : Move) : Closed j (move time s a) ∧
      (move time s a).world.submissions j = s.world.submissions j := by
  obtain ⟨hrow, hsubmissions⟩ := move_frame time (a := a) h.stored
    (fun hexec => h.no_attempt (executing_subset hexec)) fun _ => h.no_effect
  refine ⟨⟨?_, ?_, ?_⟩, hsubmissions⟩
  · rw [World.budget, hrow]
    exact h.stored
  · exact fun hmem => h.no_attempt ((continues_move time hcons a).stored j h.stored hmem)
  · intro effect heffect hconcerns
    rcases inHand_move time s a with hold | ⟨e, he, hrest⟩
    · exact h.no_effect effect (hold effect heffect) hconcerns
    · have hid := concerns_of_work (.inl hrest) effect heffect hconcerns
      exact h.no_attempt (hid ▸ pending_subset he)

/-- No move dead-letters a closed job. -/
theorem Closed.not_deadLetters {s : Composition} {j : JobId} (h : Closed j s) (a : Move) :
    ¬ DeadLetters j s a := by
  rintro ⟨-, record, rest, hhand, hid⟩
  exact h.no_effect (.deadLetter record) (hhand ▸ List.mem_cons_self) hid

/-- Nothing more is published for a closed job in any run. -/
theorem Closed.forever (time : ℕ → Time) {s : Composition} {j : JobId} (hcons : Conserved s)
    (h : Closed j s) (actions : List Move) :
    (run (move time) s actions).world.submissions j = s.world.submissions j ∧
      Along (move time) (fun s b => ¬ DeadLetters j s b) s actions := by
  induction actions generalizing s with
  | nil => exact ⟨rfl, trivial⟩
  | cons a actions ih =>
    obtain ⟨hclosed, hsubmissions⟩ := h.preserved time hcons a
    obtain ⟨hend, halong⟩ := ih (conserved_invariant time s a hcons) hclosed
    exact ⟨hend.trans hsubmissions, h.not_deadLetters a, halong⟩

/-! ## What the report before the dead letter did -/

/-- When a dead letter is next, its job is either dead without an attempt, or queued for the
next one. -/
def Verdict (s : Composition) : Prop :=
  ∀ e record rest, s.message = some e → s.inHand = .deadLetter record :: rest →
    (¬ LastAttempt e ∧ s.Requeued e.jobId) ∨ (LastAttempt e ∧ s.Buried e.jobId)

/-- Only the `FAILED` report comes before a dead letter. -/
theorem reported_of_deadLetter_next {e : JobEvent} {effect : Effect} {record : DeadLetter}
    {rest : List Effect} (h : Rest e (effect :: .deadLetter record :: rest) ∨
      After e (effect :: .deadLetter record :: rest)) :
    ∃ text, effect = .callback (.str e.jobId) { status := .failed, errorMessage := some text } ∧
      rest = [] := by
  rcases h with hrest | hafter
  · cases hrest with
    | attempt h => cases h
    | failure _ h => cases h
    | sleep h => cases h
    | failed text => exact ⟨text, rfl, rfl⟩
  · cases hafter

/-- A step that does not go on with the message in hand leaves the verdict on it. -/
theorem verdict_of_frame (time : ℕ → Time) {s : Composition} (hcons : Conserved s)
    (h : Verdict s) {a : Move} (ha : a ≠ .act) (hhand : (move time s a).inHand = s.inHand)
    (hmsg : (move time s a).message = s.message)
    (hoffset : (move time s a).offset = s.offset) : Verdict (move time s a) := by
  intro e record rest he hnext
  rw [hmsg] at he
  rw [hhand] at hnext
  have hframe : s.world.budget e.jobId ≠ none → e.jobId ∉ s.executing.map Prod.fst →
      (move time s a).world.storedStatus e.jobId = s.world.storedStatus e.jobId := by
    intro hstored hidle
    have hrow := (move_frame time (a := a) hstored hidle fun hact => absurd hact ha).1
    rw [World.storedStatus, hrow, World.storedStatus]
  rcases h e record rest he hnext with ⟨hmore, hstatus, e', he', hid⟩ | ⟨hlast, hstatus, hfree⟩
  · refine .inl ⟨hmore, ?_, e', ?_, hid⟩
    · rw [hframe (budget_ne_none_of_storedStatus hstatus), hstatus]
      -- the queued attempt is the job's only one
      intro hexec
      have hdistinct := hcons.accounts.distinct
      rw [Composition.attempts, List.append_assoc, List.map_append, List.map_append] at hdistinct
      refine (List.nodup_append.mp hdistinct).2.2 e.jobId ?_ e.jobId
        (List.mem_append_right _ hexec) rfl
      exact hid ▸ List.mem_map_of_mem (List.mem_map_of_mem he')
    · obtain ⟨new, htopic⟩ := exists_topic_move time s a
      rw [pending_of_append hcons.offset_le hoffset htopic]
      exact List.mem_append_left _ he'
  · refine .inr ⟨hlast, ?_, ?_⟩
    · have hbudget := budget_ne_none_of_storedStatus hstatus
      rw [hframe hbudget fun hexec => hfree (executing_subset hexec), hstatus]
    · exact fun hmem =>
        hfree ((continues_move time hcons a).stored e.jobId
          (budget_ne_none_of_storedStatus hstatus) hmem)

private theorem verdict_invariant (time : ℕ → Time) :
    Invariant (move time) fun s => Conserved s ∧ Verdict s := by
  intro s a ⟨hcons, h⟩
  refine ⟨conserved_invariant time s a hcons, ?_⟩
  cases a with
  | create jobId request => exact verdict_of_frame time hcons h (by simp) rfl rfl rfl
  | take outcomes =>
    rcases take_cases time s outcomes with hmove | ⟨e, -, -, hmove⟩ <;> rw [hmove]
    · exact h
    · intro e' record rest hmsg hnext
      have hrest := rest_handleEvent e outcomes
      rw [show handleEvent e outcomes = .deadLetter record :: rest from hnext] at hrest
      cases hrest
  | act =>
    rcases act_cases time s with ⟨-, hmove⟩ | ⟨effect, rest, hhand, hmove⟩ <;> rw [hmove]
    · exact h
    · intro e record rest' hmsg hnext
      rw [perform_message] at hmsg
      rw [perform_inHand] at hnext
      replace hnext : rest = .deadLetter record :: rest' := hnext
      replace hmsg : s.message = some e := hmsg
      subst hnext
      obtain ⟨e₀, he₀, hmsg₀, hwork⟩ := hcons.work hhand
      obtain rfl : e₀ = e := Option.some.inj (hmsg₀.symm.trans hmsg)
      obtain ⟨text, rfl, rfl⟩ := reported_of_deadLetter_next hwork
      rcases hwork with hrest | hafter
      · rcases (launch_failed_step time hcons he₀ hmsg rfl hrest hhand).2 with
          ⟨hlt, hqueued⟩ | ⟨hge, hburied⟩
        · exact .inl ⟨by unfold LastAttempt; omega, hqueued⟩
        · exact .inr ⟨hge, hburied⟩
      · cases hafter
  | report i =>
    rcases report_cases time s i with hmove | ⟨c, -, -, hmove⟩
    · rw [hmove]
      exact h
    · apply verdict_of_frame time hcons h (by simp) <;> rw [hmove] <;> rfl
  | finish i code =>
    rcases finish_cases time s i code with hmove | ⟨c, -, -, hmove⟩
    · rw [hmove]
      exact h
    · apply verdict_of_frame time hcons h (by simp) <;> rw [hmove] <;> rfl

/-- The system at its first deployment. -/
theorem verdict_empty : Conserved (.atRest .empty) ∧ Verdict (.atRest .empty) := by
  refine ⟨⟨⟨List.nodup_nil, ?_, ?_⟩, Nat.le_refl _, .inl rfl⟩, ?_⟩
  · exact fun t ht => absurd ht List.not_mem_nil
  · exact fun e he => absurd he List.not_mem_nil
  · exact fun e record rest hmsg => by cases hmsg

/-- The dead letter in hand is about the job of the message. -/
theorem jobId_of_deadLetters {s : Composition} (hcons : Conserved s) {j : JobId} {a : Move}
    (h : DeadLetters j s a) : ∃ e record, s.message = some e ∧ e.jobId = j ∧
      s.inHand = [.deadLetter record] := by
  obtain ⟨-, record, rest, hhand, hid⟩ := h
  obtain ⟨e, -, hmsg, hwork⟩ := hcons.work hhand
  have hconcerns : Concerns j (.deadLetter record) := hid
  refine ⟨e, record, hmsg, concerns_of_work hwork _ List.mem_cons_self hconcerns, ?_⟩
  rcases hwork with hrest | hafter
  · cases hrest
  · cases hafter
    exact hhand

/-- The dead letter of a last attempt closes its job. -/
theorem closed_of_deadLetter (time : ℕ → Time) {s : Composition} {j : JobId} {record : DeadLetter}
    (hhand : s.inHand = [.deadLetter record]) (h : s.Buried j) :
    Closed j (move time s .act) ∧
      (move time s .act).world.submissions j = s.world.submissions j := by
  obtain ⟨hstatus, hfree⟩ := h
  have hmove : move time s .act = { s with inHand := [] }.perform time (.deadLetter record) := by
    simp only [move, hhand]
  have hlaunching : s.launching = [] := by
    cases hmsg : s.message <;> simp [Composition.launching, hmsg, hhand, settles]
  have hafter : ({ s with inHand := [] }.perform time (.deadLetter record)).launching = [] :=
    Composition.launching_of_inHand_nil rfl
  rw [hmove]
  refine ⟨⟨?_, ?_, fun _ heffect => absurd heffect List.not_mem_nil⟩, rfl⟩
  · exact budget_ne_none_of_storedStatus hstatus
  · rw [Composition.attempts, hlaunching] at hfree
    rw [Composition.attempts, hafter]
    exact hfree

/-- **When dead-lettering is final.** In a run of the composed system, every dead letter finds
its job `DEAD` and is the end of the job if and only if every message that is dead-lettered
is the last attempt of its job. -/
theorem deadLettersFinal_iff (time : ℕ → Time) (actions : List Move) :
    DeadLettersFinal time (.atRest .empty) actions ↔
      Along (move time) LastAttempts (.atRest .empty) actions := by
  have hreach : ∀ before, Conserved (run (move time) (.atRest .empty) before) ∧
      Verdict (run (move time) (.atRest .empty) before) := fun before =>
    (verdict_invariant time).run verdict_empty before
  rw [along_iff_forall_split]
  constructor
  · intro h before a after heq j hdead
    obtain ⟨hcons, hverdict⟩ := hreach before
    obtain ⟨e, record, hmsg, rfl, hhand⟩ := jobId_of_deadLetters hcons hdead
    refine ⟨e, hmsg, ?_⟩
    rcases hverdict e record [] hmsg hhand with ⟨-, hqueued, -⟩ | ⟨hlast, -⟩
    · have hstatus := (h before a after e.jobId heq hdead).1
      rw [hqueued] at hstatus
      cases hstatus
    · exact hlast
  · intro h before a after j heq hdead
    obtain ⟨hcons, hverdict⟩ := hreach before
    obtain ⟨e, record, hmsg, rfl, hhand⟩ := jobId_of_deadLetters hcons hdead
    obtain ⟨e', hmsg', hlast⟩ := h before a after heq e.jobId hdead
    obtain rfl : e = e' := Option.some.inj (hmsg.symm.trans hmsg')
    rcases hverdict e record [] hmsg hhand with ⟨hmore, -⟩ | ⟨-, hstatus, hfree⟩
    · exact absurd hlast hmore
    obtain rfl : a = .act := hdead.1
    obtain ⟨hclosed, hsame⟩ := closed_of_deadLetter time hhand ⟨hstatus, hfree⟩
    have hnext : run (move time) (.atRest .empty) (before ++ [.act]) =
        move time (run (move time) (.atRest .empty) before) .act := by
      rw [run_append, run_cons, run_nil]
    rw [← hnext] at hclosed hsame
    obtain ⟨hend, halong⟩ := hclosed.forever time (hreach (before ++ [.act])).1 after
    refine ⟨hstatus, ?_, halong⟩
    have hsplit : actions = (before ++ [.act]) ++ after := by
      rw [heq, List.append_assoc, List.singleton_append]
    rw [hsplit, run_append]
    exact hend.trans hsame

/-- The launch of a job with one retry fails, and the job service queues the job again just
before its event is dead-lettered. -/
theorem dead_letter_of_queued_job : ¬ DeadLettersFinal id (.atRest .empty)
    [.create "job-1" sampleRequest, .take fun _ => .noTasks, .act, .act, .act, .act] := by
  intro hfinal
  have hdead := (hfinal [.create "job-1" sampleRequest, .take fun _ => .noTasks, .act, .act, .act]
    .act [] "job-1" rfl ⟨rfl, _, _, rfl, rfl⟩).1
  exact absurd hdead (by decide)

end DataHarbour.System
