import DataHarbour.JobService.KafkaAgreement
import DataHarbour.System.Rounds

/-!
# The lifecycle of a job

A job from its submission to its end, when messages are handled one at a time. `JobConsumer`
retries the launch up to `max_retries` times within a round, and the job service retries the
job over up to `max_retries` further rounds; the job ends because each failed round spends one
of the stored retries.
-/

namespace DataHarbour.System

open Python Relational Machine JobService Orchestrator

/-! ## How the job and its attempts ended -/

/-- The task of the event was launched, and its container exited with `code`. -/
def Composition.Exited (s : Composition) (e : JobEvent) (code : ℤ) : Prop :=
  ∃ c ∈ s.containers, c.request = requestOf e ∧ c.phase = .exited code

/-- The launches of the event were exhausted, and it was dead-lettered. -/
def Composition.Exhausted (s : Composition) (e : JobEvent) : Prop :=
  ∃ record ∈ s.deadLetters, record.originalEvent = e.toJson

/-- The event ended in exhausted launches or a non-zero exit. -/
def Composition.Failed (s : Composition) (e : JobEvent) : Prop :=
  s.Exhausted e ∨ ∃ code, code ≠ 0 ∧ s.Exited e code

/-- The ARN of the last task launched. -/
def Composition.lastArn (s : Composition) : Option String :=
  s.containers.getLast?.map (·.arn.text)

/-- The end of a job `j` with `max_retries` `m`. -/
structure Finished (j : JobId) (m : ℕ) (s : Composition) : Prop where
  /-- No party has anything left to do. -/
  idle : s.inHand = [] ∧ s.pending = [] ∧ ∀ c ∈ s.containers, c.live = false
  ended : s.world.storedStatus j = some .success ∨ s.world.storedStatus j = some .dead
  submissions_le : (s.world.submissions j).length ≤ m + 1
  launches_le : s.containers.length ≤ m + 1
  calls_le : s.calls.length ≤ m * (m + 1)
  success_iff : s.world.storedStatus j = some .success ↔
    ∃ e, (s.world.submissions j).getLast? = some e ∧ s.Exited e 0
  dead_iff : s.world.storedStatus j = some .dead ↔
    (s.world.submissions j).length = m + 1 ∧ ∀ e ∈ s.world.submissions j, s.Failed e
  container : s.world.storedContainer j = some s.lastArn

/-! ## The record of the rounds -/

/-- What the first `k` rounds left behind: one launch and one dead letter at most for each
`retry_count` below `k`. -/
structure Logged (j : JobId) (m k : ℕ) (s : Composition) : Prop where
  container : s.world.storedContainer j = some s.lastArn
  launches_le : s.containers.length ≤ k
  exited : ∀ c ∈ s.containers, c.live = false
  launched_before : ∀ c ∈ s.containers, c.request.retryCount < k
  lettered_before : ∀ record ∈ s.deadLetters, ∀ e : JobEvent,
    record.originalEvent = e.toJson → e.retry.getD 0 < k
  calls_le : s.calls.length ≤ k * m

/-- Two events with the same text ask for the same task. -/
theorem retry_eq_of_toJson_eq {e e' : JobEvent} (h : e.toJson = e'.toJson) :
    e.retry.getD 0 = e'.retry.getD 0 := by
  have hrequest := congrArg runTaskRequest h
  rw [runTaskRequest_toJson, runTaskRequest_toJson] at hrequest
  have hcount : ((e.retry.getD 0 : ℕ) : ℤ) = (e'.retry.getD 0 : ℕ) :=
    congrArg RunTaskRequest.retryCount (Except.ok.inj hrequest)
  omega

variable {j : JobId} {m k : ℕ} {s s' : Composition} {e : JobEvent} {code : ℤ}

/-- Another round extends the record. -/
theorem Logged.next (h : Logged e.jobId m k s) (hretry : e.retry.getD 0 = k)
    (hcalls : s'.calls.length ≤ s.calls.length + m) (houtcome : Outcome e k code s s') :
    Logged e.jobId m (k + 1) s' := by
  have hlt : ∀ n : ℤ, n < k → n < (k + 1 : ℕ) := fun n hn => by omega
  have hbudget : s'.calls.length ≤ (k + 1) * m := by
    have hold := h.calls_le
    rw [Nat.succ_mul]
    omega
  have hlength := h.launches_le
  cases houtcome with
  | launched arn hcontainers hletters hcontainer _ _ =>
    refine ⟨?_, ?_, ?_, ?_, ?_, hbudget⟩
    · rw [hcontainer, Composition.lastArn, hcontainers, List.getLast?_concat, Option.map_some]
    · rw [hcontainers, List.length_append, List.length_singleton]
      omega
    · intro c hc
      rw [hcontainers] at hc
      rcases List.mem_append.mp hc with hold | hnew
      · exact h.exited c hold
      · rw [List.mem_singleton.mp hnew]
        rfl
    · intro c hc
      rw [hcontainers] at hc
      rcases List.mem_append.mp hc with hold | hnew
      · exact hlt _ (h.launched_before c hold)
      · rw [List.mem_singleton.mp hnew]
        have hcount : ((e.retry.getD 0 : ℕ) : ℤ) < (k + 1 : ℕ) := by omega
        exact hcount
    · intro record hrecord x hx
      exact Nat.lt_succ_of_lt (h.lettered_before record (hletters ▸ hrecord) x hx)
  | exhausted record hevent hcontainers hletters hcontainer _ =>
    refine ⟨?_, ?_, ?_, ?_, ?_, hbudget⟩
    · rw [hcontainer, h.container, Composition.lastArn, Composition.lastArn, hcontainers]
    · rw [hcontainers]
      omega
    · rw [hcontainers]
      exact h.exited
    · rw [hcontainers]
      exact fun c hc => hlt _ (h.launched_before c hc)
    · intro record' hrecord x hx
      rw [hletters] at hrecord
      rcases List.mem_append.mp hrecord with hold | hnew
      · exact Nat.lt_succ_of_lt (h.lettered_before record' hold x hx)
      · rw [List.mem_singleton.mp hnew, hevent] at hx
        rw [← retry_eq_of_toJson_eq hx, hretry]
        exact Nat.lt_succ_self k

/-- An event that has ended in failure stays so. -/
theorem Outcome.failed_mono (h : Outcome e k code s s') {x : JobEvent} (hx : s.Failed x) :
    s'.Failed x := by
  have hcontainers : ∀ c ∈ s.containers, c ∈ s'.containers := by
    intro c hc
    cases h with
    | launched _ hcontainers => exact hcontainers ▸ List.mem_append_left _ hc
    | exhausted _ _ hcontainers => exact hcontainers ▸ hc
  have hletters : ∀ record ∈ s.deadLetters, record ∈ s'.deadLetters := by
    intro record hrecord
    cases h with
    | launched _ _ hletters => exact hletters ▸ hrecord
    | exhausted _ _ _ hletters => exact hletters ▸ List.mem_append_left _ hrecord
  rcases hx with ⟨record, hrecord, hevent⟩ | ⟨n, hn, c, hc, hexited⟩
  · exact .inl ⟨record, hletters record hrecord, hevent⟩
  · exact .inr ⟨n, hn, c, hcontainers c hc, hexited⟩

/-- The two ends of an attempt. -/
theorem Outcome.verdict (h : Outcome e k code s s') (hlogged : Logged j m k s)
    (hretry : e.retry.getD 0 = k) :
    (s'.Exited e 0 ∧ ¬ s'.Failed e ∧ s'.world.storedStatus e.jobId = some .success ∧
      s'.world.jobTopic = s.world.jobTopic) ∨
    (s'.Failed e ∧ ¬ s'.Exited e 0 ∧
      Spends s.world.jobTopic s'.world e.jobId k e.maxRetries) := by
  -- nothing in the record of the earlier rounds is about `e`
  have hnew : ∀ c ∈ s.containers, c.request ≠ requestOf e := by
    intro c hc hrequest
    have hbefore := hlogged.launched_before c hc
    rw [hrequest, requestOf, hretry] at hbefore
    exact lt_irrefl _ hbefore
  have hunlettered : ¬ s.Exhausted e := by
    rintro ⟨record, hrecord, hevent⟩
    have hbefore := hlogged.lettered_before record hrecord e hevent
    omega
  cases h with
  | launched arn hcontainers hletters hcontainer hsuccess hfailure =>
    have hexited : ∀ n, s'.Exited e n ↔ n = code := by
      intro n
      constructor
      · rintro ⟨c, hc, hrequest, hphase⟩
        rw [hcontainers] at hc
        rcases List.mem_append.mp hc with hold | hlast
        · exact absurd hrequest (hnew c hold)
        · rw [List.mem_singleton.mp hlast] at hphase
          exact (ContainerPhase.exited.inj hphase).symm
      · rintro rfl
        exact ⟨_, hcontainers ▸ List.mem_append_right _ (List.mem_singleton_self _), rfl, rfl⟩
    by_cases hcode : code = 0
    · obtain ⟨hstatus, htopic⟩ := hsuccess hcode
      refine .inl ⟨(hexited 0).mpr hcode.symm, ?_, hstatus, htopic⟩
      rintro (⟨record, hrecord, hevent⟩ | ⟨n, hn, hexit⟩)
      · exact hunlettered ⟨record, hletters ▸ hrecord, hevent⟩
      · exact hn (((hexited n).mp hexit).trans hcode)
    · refine .inr ⟨.inr ⟨code, hcode, (hexited code).mpr rfl⟩, ?_, hfailure hcode⟩
      exact fun hexit => hcode ((hexited 0).mp hexit).symm
  | exhausted record hevent hcontainers hletters hcontainer hfailure =>
    refine .inr ⟨.inl ⟨record, ?_, hevent⟩, ?_, hfailure⟩
    · rw [hletters]
      exact List.mem_append_right _ (List.mem_singleton_self record)
    · rintro ⟨c, hc, hrequest, -⟩
      exact hnew c (hcontainers ▸ hc) hrequest

/-! ## From round to round -/

/-- After `k` failed rounds the job is queued, and its next event is all that is pending. -/
structure Ready (j : JobId) (m k : ℕ) (s : Composition) : Prop where
  inHand : s.inHand = []
  budget : s.world.budget j = some (k, m)
  le : k ≤ m
  logged : Logged j m k s
  history : ∃ ended e, s.world.submissions j = ended ++ [e] ∧ s.pending = [e] ∧
    ended.length = k ∧ e.jobId = j ∧ e.maxRetries = m ∧ e.retry.getD 0 = k ∧
    ∀ x ∈ ended, s.Failed x

/-- The one pending event is the next one of the topic. -/
theorem getElem?_of_pending (h : s.pending = [e]) : s.world.jobTopic[s.offset]? = some e := by
  have hhead := congrArg (·[0]?) h
  simpa [Composition.pending] using hhead

/-- Taking the only pending event leaves what was published since. -/
theorem pending_next (h : s.pending = [e]) (hoffset : s'.offset = s.offset + 1)
    {new : List JobEvent} (htopic : s'.world.jobTopic = s.world.jobTopic ++ new) :
    s'.pending = new := by
  have hlength := congrArg List.length h
  rw [Composition.pending, List.length_drop, List.length_singleton] at hlength
  rw [Composition.pending, htopic, hoffset, List.drop_append_of_le_length (by omega),
    List.drop_of_length_le (by omega), List.nil_append]

/-- The end of a job whose last attempt `e` has succeeded, or has failed as the last of its
budget. -/
theorem finished_of_ended {ended : List JobEvent} (hlogged : Logged j m (k + 1) s) (hle : k ≤ m)
    (hidle : s.inHand = []) (hpending : s.pending = [])
    (hsubmissions : s.world.submissions j = ended ++ [e]) (hlength : ended.length = k)
    (hfailed : ∀ x ∈ ended, s.Failed x)
    (hend : (s.Exited e 0 ∧ ¬ s.Failed e ∧ s.world.storedStatus j = some .success) ∨
      (s.Failed e ∧ ¬ s.Exited e 0 ∧ s.world.storedStatus j = some .dead ∧ k = m)) :
    Finished j m s where
  idle := ⟨hidle, hpending, hlogged.exited⟩
  ended := hend.imp (fun h => h.2.2) fun h => h.2.2.1
  submissions_le := by
    rw [hsubmissions, List.length_append, List.length_singleton]
    omega
  launches_le := by
    have hlaunches := hlogged.launches_le
    omega
  calls_le := by
    calc s.calls.length ≤ (k + 1) * m := hlogged.calls_le
      _ ≤ (m + 1) * m := Nat.mul_le_mul_right _ (by omega)
      _ = m * (m + 1) := Nat.mul_comm _ _
  success_iff := by
    rw [hsubmissions, List.getLast?_concat]
    rcases hend with ⟨hexited, -, hstatus⟩ | ⟨-, hexited, hstatus, -⟩
    · exact ⟨fun _ => ⟨e, rfl, hexited⟩, fun _ => hstatus⟩
    · rw [hstatus]
      constructor
      · intro h
        cases h
      · rintro ⟨e', he, hexited'⟩
        exact absurd (Option.some.inj he ▸ hexited') hexited
  dead_iff := by
    rw [hsubmissions, List.length_append, List.length_singleton, hlength]
    have hlast : e ∈ ended ++ [e] := List.mem_append_right _ (List.mem_singleton_self e)
    rcases hend with ⟨-, hnot, hstatus⟩ | ⟨hfail, -, hstatus, hspent⟩
    · rw [hstatus]
      constructor
      · intro h
        cases h
      · rintro ⟨-, hall⟩
        exact absurd (hall e hlast) hnot
    · refine ⟨fun _ => ⟨by omega, fun x hx => ?_⟩, fun _ => hstatus⟩
      rcases List.mem_append.mp hx with hold | hnew
      · exact hfailed x hold
      · exact List.mem_singleton.mp hnew ▸ hfail
  container := hlogged.container

/-- A round ends the job, or leaves it ready for the next one. -/
theorem Ready.next (time : ℕ → Time) (outcomes : ℕ → RunTaskOutcome) (code : ℤ)
    (h : Ready j m k s) : Finished j m (run (move time) s (round time outcomes code s)) ∨
      k < m ∧ Ready j m (k + 1) (run (move time) s (round time outcomes code s)) := by
  obtain ⟨ended, e, hsubmissions, hpending, hlength, rfl, rfl, hretry, hended⟩ := h.history
  obtain ⟨hidle, hoffset, hcalls, houtcome⟩ :=
    round_cases time outcomes code h.inHand (getElem?_of_pending hpending) h.budget
  generalize run (move time) s (round time outcomes code s) = s' at *
  have hlogged := h.logged.next hretry hcalls houtcome
  have hle := h.le
  have hmono : ∀ x ∈ ended, s'.Failed x := fun x hx => houtcome.failed_mono (hended x hx)
  have hquiet : s'.world.jobTopic = s.world.jobTopic →
      s'.pending = [] ∧ s'.world.submissions e.jobId = ended ++ [e] := by
    intro htopic
    constructor
    · exact pending_next hpending hoffset (htopic.trans (List.append_nil _).symm)
    · rw [← hsubmissions, World.submissions, htopic, World.submissions]
  rcases houtcome.verdict h.logged hretry with
    ⟨hexited, hnot, hstatus, htopic⟩ | ⟨hfail, hnot, hspends⟩
  · left
    obtain ⟨hnone, hsame⟩ := hquiet htopic
    exact finished_of_ended hlogged hle hidle hnone hsame hlength hmono
      (.inl ⟨hexited, hnot, hstatus⟩)
  rcases hspends with ⟨hlt, hbudget, -, e', htopic, hid, hmax, hcount⟩ | ⟨hge, -, hstatus, htopic⟩
  · refine .inr ⟨hlt, hidle, hbudget, hlt, hlogged, ended ++ [e], e', ?_,
      pending_next hpending hoffset htopic, ?_, hid, hmax, ?_, ?_⟩
    · rw [← hsubmissions, World.submissions, htopic, List.filter_append, World.submissions,
        List.filter_singleton]
      simp [hid]
    · rw [List.length_append, hlength, List.length_singleton]
    · rw [hcount, Option.getD_some]
    · intro x hx
      rcases List.mem_append.mp hx with hold | hnew
      · exact hmono x hold
      · exact List.mem_singleton.mp hnew ▸ hfail
  · left
    obtain ⟨hnone, hsame⟩ := hquiet htopic
    exact finished_of_ended hlogged hle hidle hnone hsame hlength hmono
      (.inr ⟨hfail, hnot, hstatus, by omega⟩)

/-- A finished job takes no further part in any round. -/
theorem Finished.next (time : ℕ → Time) (outcomes : ℕ → RunTaskOutcome) (code : ℤ)
    (h : Finished j m s) : run (move time) s (round time outcomes code s) = s := by
  obtain ⟨hidle, hpending, -⟩ := h.idle
  have hnone : s.world.jobTopic[s.offset]? = none := by
    rw [List.getElem?_eq_none_iff]
    exact List.drop_eq_nil_iff.mp hpending
  have htake : move time s (.take outcomes) = s := by simp only [move, hidle, hnone]
  have hround : round time outcomes code s = [.take outcomes, .report s.containers.length,
      .finish s.containers.length code] := by
    rw [round, htake, hidle]
    rfl
  rw [hround, run_cons, htake]
  exact run_no_container time code rfl

private theorem ready_or_finished (time : ℕ → Time) (outcomes : ℕ → ℕ → RunTaskOutcome)
    (codes : ℕ → ℤ)
    (h : Ready j m 0 s) (n : ℕ) : Finished j m (rounds time outcomes codes n s) ∨
      n ≤ m ∧ Ready j m n (rounds time outcomes codes n s) := by
  induction n with
  | zero => exact .inr ⟨Nat.zero_le m, h⟩
  | succ n ih =>
    rcases ih with hfinished | ⟨-, hready⟩
    · left
      rw [rounds, hfinished.next]
      exact hfinished
    · exact (hready.next time (outcomes n) (codes n)).imp_right fun ⟨hlt, hnext⟩ => ⟨hlt, hnext⟩

/-- A job submitted while nothing else is under way is ready for its first round. -/
theorem ready_create (time : ℕ → Time) {w : World} (request : JobCreateRequest)
    (hfresh : w.jobs.find? j = none) (hunknown : w.submissions j = []) :
    Ready j request.maxRetries 0 (move time (.atRest w) (.create j request)) := by
  let job := (newJob j (time 0) request).afterEnqueue .delivered
  have hrow : (move time (.atRest w) (.create j request)).world.jobs.find? j = some job := by
    have hstored := find?_create w j (time 0) .delivered request j
    rw [if_pos ⟨rfl, hfresh⟩] at hstored
    exact hstored
  have htopic : (move time (.atRest w) (.create j request)).world.jobTopic =
      w.jobTopic ++ [originalEvent j request] := by
    have hpublished := jobTopic_create w j (time 0) .delivered request
    rw [if_pos hfresh] at hpublished
    exact hpublished
  have hnone : ∀ {α : Type} {p : α → Prop}, ∀ x ∈ ([] : List α), p x :=
    fun x hx => absurd hx List.not_mem_nil
  refine ⟨rfl, ?_, Nat.zero_le _, ⟨?_, Nat.le_refl 0, hnone, hnone, hnone, Nat.zero_le _⟩,
    [], originalEvent j request, ?_, ?_, rfl, rfl, rfl, rfl, hnone⟩
  · rw [World.budget, hrow]
    rfl
  · rw [World.storedContainer, hrow]
    rfl
  · have hsubmitted := submissions_create_self (time 0) .delivered request hfresh
    rw [hunknown] at hsubmitted
    exact hsubmitted
  · rw [Composition.pending, htopic]
    exact List.drop_left

/-- **The end of every job.** At any time when all published events have been handled, a job is
submitted with a successful publish. Whatever `RunTask` answers in each attempt and whatever
code each container exits with, after `max_retries + 1` rounds the job is finished: it has
succeeded if its last event's task exited with 0, and is dead if all `max_retries + 1` events
failed. -/
theorem job_finishes (time : ℕ → Time) (calls : List Call) {j : JobId}
    (request : JobCreateRequest) (outcomes : ℕ → ℕ → RunTaskOutcome) (codes : ℕ → ℤ)
    (hfresh : (run JobService.step .empty calls).jobs.find? j = none) {n : ℕ}
    (hn : request.maxRetries < n) :
    Finished j request.maxRetries (rounds time outcomes codes n
      (move time (.atRest (run JobService.step .empty calls)) (.create j request))) := by
  have hgrounded := grounded_invariant.run grounded_empty calls
  have hready := ready_create time request hfresh (submissions_of_absent hgrounded.known hfresh)
  rcases ready_or_finished time outcomes codes hready n with hfinished | ⟨hle, -⟩
  · exact hfinished
  · omega

/-- The sample job, whose first container exits with 1 and whose second launch fails. -/
theorem job_finishes_dead : Finished "job-1" 1 (rounds id
    (fun i _ => if i = 0 then .task ⟨"arn:aws:ecs:task/1", by decide⟩ else .noTasks) (fun _ => 1) 2
    (move id (.atRest (run JobService.step .empty [])) (.create "job-1" sampleRequest))) :=
  job_finishes id [] sampleRequest _ _ rfl (Nat.lt_succ_self 1)

end DataHarbour.System
