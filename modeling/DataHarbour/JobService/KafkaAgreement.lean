import DataHarbour.JobService.Steps

/-!
# The jobs table and Kafka

Each of the three operations changes a row and publishes an event, and the database and
Kafka have no common transaction. `create_job` falls back to `PENDING` when its publish
fails; the other two log the failure and keep the new status. This file states what the
table and the topics should agree on and says exactly which publish failures break it.
-/

namespace DataHarbour.JobService

open Python Relational Machine

/-- The retry keys of the event for a row's current attempt: none for the original. -/
def attemptTag (retryCount : ℕ) : Option ℕ :=
  if retryCount = 0 then none else some retryCount

/-- What the row of a queued or cancelled job says about the topics: a queued job has a
submission event for its current `retry_count`, a cancelled job has a cancel event. -/
def Job.Announced (w : World) (job : Job) : Prop :=
  (job.status = .queued →
    ∃ e ∈ w.jobTopic, e.jobId = job.jobId ∧ e.retry = attemptTag job.retryCount) ∧
  (job.status = .cancelled → ∃ e ∈ w.statusTopic, e.jobId = job.jobId)

/-- The jobs table and Kafka agree. -/
def Agree (w : World) : Prop :=
  ∀ j job, w.jobs.find? j = some job → job.Announced w

/-- Every submission event belongs to a stored job, and a retry event carries a count that
the job has already reached. -/
def Grounded (w : World) : Prop :=
  ∀ e ∈ w.jobTopic, ∃ job, w.jobs.find? e.jobId = some job ∧
    ∀ n, e.retry = some n → 1 ≤ n ∧ n ≤ job.retryCount

/-- The empty world is grounded. -/
theorem grounded_empty : Grounded World.empty := by
  intro e he
  simp [World.empty] at he

private theorem updated_retryCount_ge (job : Job) (u : JobStatusUpdate) (now : Time) :
    job.retryCount ≤ (job.updated u now).retryCount := by
  rcases updated_cases job u now with ⟨-, -, h, -⟩ | ⟨-, -, h, -⟩ | ⟨-, h, -⟩ <;> rw [h]
  · exact Nat.le_succ _
  · exact le_rfl
  · exact le_rfl

/-- A cancellation keeps `retry_count`. -/
theorem afterCancel_retryCount (job : Job) (now : Time) :
    (job.afterCancel now).retryCount = job.retryCount := by
  unfold Job.afterCancel
  split <;> rfl

/-- Rows stay, and their `retry_count` never decreases. -/
theorem retryCount_mono (w : World) (c : Call) {k : JobId} {job : Job}
    (hfind : w.jobs.find? k = some job) :
    ∃ job', (step w c).jobs.find? k = some job' ∧ job.retryCount ≤ job'.retryCount := by
  cases c with
  | create jobId now d request => exact ⟨job, by simp [find?_create, hfind], le_rfl⟩
  | update jobId now d u =>
    rw [find?_update, hfind]
    split
    · exact ⟨job.updated u now, rfl, updated_retryCount_ge job u now⟩
    · exact ⟨job, rfl, le_rfl⟩
  | cancel jobId now d =>
    rw [find?_cancel, hfind]
    split
    · exact ⟨job.afterCancel now, rfl, (afterCancel_retryCount job now).ge⟩
    · exact ⟨job, rfl, le_rfl⟩

/-- An event that a call adds to the job topic is grounded in the row that the call leaves. -/
theorem grounded_of_new {w : World} {c : Call} {e : JobEvent} (he : e ∈ (step w c).jobTopic) :
    e ∈ w.jobTopic ∨ ∃ job, (step w c).jobs.find? e.jobId = some job ∧
      ∀ n, e.retry = some n → 1 ≤ n ∧ n ≤ job.retryCount := by
  cases c with
  | create jobId now d request =>
    rw [jobTopic_create] at he
    split at he
    · next hfresh =>
      rcases mem_publish.mp he with hold | ⟨-, rfl⟩
      · exact .inl hold
      · refine .inr ⟨(newJob jobId now request).afterEnqueue d, ?_, fun n hn => ?_⟩
        · simp [find?_create, originalEvent, hfresh]
        · simp [originalEvent] at hn
    · exact .inl he
  | cancel jobId now d => exact .inl (by rwa [jobTopic_cancel] at he)
  | update jobId now d u =>
    rw [jobTopic_update] at he
    cases hevent : (w.jobs.find? jobId).bind (·.resubmission u now) with
    | none =>
      rw [hevent] at he
      exact .inl he
    | some event =>
      rw [hevent] at he
      rcases mem_publish.mp he with hold | ⟨-, rfl⟩
      · exact .inl hold
      · right
        obtain ⟨job, hfind, hresubmission⟩ := Option.bind_eq_some_iff.mp hevent
        have hkey : job.jobId = jobId := Table.key_of_find? hfind
        have hretries : job.retries u = true := by
          by_contra hno
          simp [Job.resubmission, hno] at hresubmission
        obtain ⟨hfailed, hbudget⟩ := retries_iff.mp hretries
        obtain ⟨hrow, hretry⟩ := updated_of_retry now hfailed hbudget
        obtain rfl : retryEvent (job.updated u now) = e :=
          Option.some.inj (hretry.symm.trans hresubmission)
        refine ⟨job.updated u now, ?_, fun n hn => ?_⟩
        · simp [find?_update, retryEvent, hkey, hfind]
        · have hcount : (job.updated u now).retryCount = n := by simpa [retryEvent] using hn
          have hnext : (job.updated u now).retryCount = job.retryCount + 1 := by rw [hrow]
          omega

/-- No call, whatever Kafka does, publishes a submission event without a row or with a
count ahead of the row. -/
theorem grounded_invariant : Invariant step Grounded := by
  intro w c hw e he
  rcases grounded_of_new he with hold | hnew
  · obtain ⟨job, hfind, hcount⟩ := hw e hold
    obtain ⟨job', hfind', hle⟩ := retryCount_mono w c hfind
    exact ⟨job', hfind', fun n hn => ⟨(hcount n hn).1, (hcount n hn).2.trans hle⟩⟩
  · exact hnew

/-- Every event on the job topic is one of a stored job. -/
def Known (w : World) : Prop := ∀ e ∈ w.jobTopic, w.jobs.find? e.jobId ≠ none

/-- In a grounded world every published event is about a stored job. -/
theorem Grounded.known {w : World} (h : Grounded w) : Known w := by
  intro e he
  obtain ⟨job, hjob, -⟩ := h e he
  rw [hjob]
  exact Option.some_ne_none job

/-- A job that has no row has no submission events either. -/
theorem submissions_of_absent {w : World} (h : Known w) {j : JobId}
    (hnone : w.jobs.find? j = none) : w.submissions j = [] := by
  rw [World.submissions, List.filter_eq_nil_iff]
  intro e he heq
  have hid : e.jobId = j := by simpa using heq
  exact h e he (hid ▸ hnone)

/-- The statuses that the orchestrator and the Spark container report. -/
def JobStatus.isReported : JobStatus → Bool
  | .provisioning | .running | .success | .failed => true
  | _ => false

/-- The call is one that clients, the orchestrator and the containers make: a status
update carries a reported status. -/
def Call.Reported : Call → Prop
  | .update _ _ _ u => u.status.isReported
  | _ => True

/-- The publish that the stored status will stand for succeeds: a retry event is
delivered, and so is a cancel event unless one for the job is on the topic already. The
publish of `create_job` may fail. -/
def PublishesWhatItStores (w : World) : Call → Prop
  | .create .. => True
  | .update jobId _ d u =>
    ∀ job, w.jobs.find? jobId = some job → job.retries u = true → d = .delivered
  | .cancel jobId _ d =>
    ∀ job, w.jobs.find? jobId = some job → job.status.isTerminal = false →
      d = .delivered ∨ ∃ e ∈ w.statusTopic, e.jobId = jobId

/-- A row that a call does not touch stays announced, since topics only grow. -/
theorem Job.Announced.mono {w w' : World} {job : Job} (h : job.Announced w)
    (hjobs : ∀ e ∈ w.jobTopic, e ∈ w'.jobTopic)
    (hstatus : ∀ e ∈ w.statusTopic, e ∈ w'.statusTopic) : job.Announced w' := by
  constructor
  · intro hq
    obtain ⟨e, he, hid, htag⟩ := h.1 hq
    exact ⟨e, hjobs e he, hid, htag⟩
  · intro hc
    obtain ⟨e, he, hid⟩ := h.2 hc
    exact ⟨e, hstatus e he, hid⟩

/-- No call takes an event off the job topic. -/
theorem mem_jobTopic_step {w : World} (c : Call) {e : JobEvent} (he : e ∈ w.jobTopic) :
    e ∈ (step w c).jobTopic := by
  cases c with
  | create jobId now d request =>
    rw [jobTopic_create]
    split
    · exact mem_publish_of_mem he
    · exact he
  | cancel jobId now d => rwa [jobTopic_cancel]
  | update jobId now d u =>
    rw [jobTopic_update]
    split
    · exact mem_publish_of_mem he
    · exact he

/-- No call takes an event off the status topic. -/
theorem mem_statusTopic_step {w : World} (c : Call) {e : CancelEvent}
    (he : e ∈ w.statusTopic) : e ∈ (step w c).statusTopic := by
  cases c with
  | create jobId now d request => rwa [statusTopic_create]
  | cancel jobId now d =>
    rw [statusTopic_cancel]
    split
    · exact he
    · split
      · exact he
      · exact mem_publish_of_mem he
  | update jobId now d u => rwa [statusTopic_update]

/-- Table and topics agree after a call when every row that the call leaves is announced;
the rows other than `j` are the old ones. -/
theorem agree_step_iff {w : World} (hagree : Agree w) (c : Call) (j : JobId)
    (hother : ∀ k, j ≠ k → (step w c).jobs.find? k = w.jobs.find? k) :
    Agree (step w c) ↔
      ∀ job, (step w c).jobs.find? j = some job → job.Announced (step w c) := by
  refine ⟨fun h job hjob => h j job hjob, fun h k job hjob => ?_⟩
  by_cases hk : j = k
  · subst hk
    exact h job hjob
  · rw [hother k hk] at hjob
    exact (hagree k job hjob).mono (fun e => mem_jobTopic_step c) (fun e => mem_statusTopic_step c)

/-- A submission keeps table and topics in agreement whatever its publish does. -/
theorem agree_create {w : World} (hagree : Agree w) (jobId : JobId) (now : Time) (d : Delivery)
    (request : JobCreateRequest) : Agree (step w (.create jobId now d request)) := by
  rw [agree_step_iff hagree _ jobId (fun k hk => by simp [find?_create, hk])]
  intro job hjob
  cases hfind : w.jobs.find? jobId with
  | none =>
    have hrow : (newJob jobId now request).afterEnqueue d = job := by
      simpa [find?_create, hfind] using hjob
    subst hrow
    cases d with
    | delivered =>
      refine ⟨fun _ => ⟨originalEvent jobId request, ?_, rfl, rfl⟩, fun h => ?_⟩
      · rw [jobTopic_create, if_pos hfind]
        exact mem_publish.mpr (Or.inr ⟨rfl, rfl⟩)
      · simp [Job.afterEnqueue] at h
    | failed => constructor <;> intro h <;> simp [Job.afterEnqueue] at h
  | some old =>
    have hrow : old = job := by simpa [find?_create, hfind] using hjob
    subst hrow
    exact (hagree jobId old hfind).mono (fun e => mem_jobTopic_step _)
      (fun e => mem_statusTopic_step _)

/-- A reported status keeps the agreement exactly when its retry event, if it takes a
retry, is delivered. -/
theorem agree_update_iff {w : World} (hground : Grounded w) (hagree : Agree w) (jobId : JobId)
    (now : Time) (d : Delivery) {u : JobStatusUpdate} (hreported : u.status.isReported) :
    Agree (step w (.update jobId now d u)) ↔
      PublishesWhatItStores w (.update jobId now d u) := by
  rw [agree_step_iff hagree _ jobId (fun k hk => by simp [find?_update, hk])]
  have hjobs : ∀ job, (step w (.update jobId now d u)).jobs.find? jobId = some job ↔
      ∃ old, w.jobs.find? jobId = some old ∧ old.updated u now = job := by
    intro job
    simp [find?_update]
  constructor
  · intro h job hfind hretries
    obtain ⟨hfailed, hbudget⟩ := retries_iff.mp hretries
    obtain ⟨hrow, hevent⟩ := updated_of_retry now hfailed hbudget
    have hkey : job.jobId = jobId := Table.key_of_find? hfind
    by_contra hd
    have hd' : d = .failed := by cases d <;> simp_all
    obtain ⟨e, he, hid, htag⟩ := (h _ ((hjobs _).mpr ⟨job, hfind, rfl⟩)).1 (by rw [hrow])
    rw [jobTopic_update, hfind, Option.bind_some, hevent, hd'] at he
    -- the event would have to be an old one, with a count the old row has not reached
    obtain ⟨old, hold, hcount⟩ := hground e he
    rw [hid, updated_jobId, hkey, hfind, Option.some.injEq] at hold
    subst hold
    have hn : e.retry = some (job.retryCount + 1) := by rw [htag, hrow]; rfl
    have := (hcount _ hn).2
    omega
  · intro hQ job hjob
    obtain ⟨old, hfind, rfl⟩ := (hjobs job).mp hjob
    have hkey : old.jobId = jobId := Table.key_of_find? hfind
    rcases updated_cases old u now with
      ⟨hfailed, hbudget, hrow, hevent⟩ | ⟨-, -, hrow, -⟩ | ⟨hu, hrow, -⟩
    · have hd : d = .delivered := hQ old hfind (retries_iff.mpr ⟨hfailed, hbudget⟩)
      refine ⟨fun _ => ⟨retryEvent (old.updated u now), ?_, rfl, ?_⟩, fun h => ?_⟩
      · rw [jobTopic_update, hfind, Option.bind_some, hevent]
        exact mem_publish.mpr (Or.inr ⟨hd, rfl⟩)
      · rw [hrow]
        rfl
      · rw [hrow] at h
        cases h
    · constructor <;> intro h <;> rw [hrow] at h <;> cases h
    · have hstatus : (old.updated u now).status = u.status := by rw [hrow]; rfl
      constructor <;> intro h <;> rw [hstatus] at h <;> simp [h, JobStatus.isReported] at hreported

/-- A cancellation keeps the agreement exactly when its event is delivered, or the job is
terminal already, or a cancel event for the job is there from before. -/
theorem agree_cancel_iff {w : World} (hagree : Agree w) (jobId : JobId) (now : Time)
    (d : Delivery) :
    Agree (step w (.cancel jobId now d)) ↔
      PublishesWhatItStores w (.cancel jobId now d) := by
  rw [agree_step_iff hagree _ jobId (fun k hk => by simp [find?_cancel, hk])]
  cases hfind : w.jobs.find? jobId with
  | none => simp [PublishesWhatItStores, find?_cancel, hfind]
  | some job =>
    have hkey : job.jobId = jobId := Table.key_of_find? hfind
    have hrow : (step w (.cancel jobId now d)).jobs.find? jobId = some (job.afterCancel now) := by
      simp [find?_cancel, hfind]
    simp only [hrow, Option.some.injEq, forall_eq', PublishesWhatItStores, hfind]
    cases hterminal : job.status.isTerminal with
    | true =>
      have hsame : job.afterCancel now = job := by simp [Job.afterCancel, hterminal]
      rw [hsame]
      simp only [Bool.true_eq_false, false_imp_iff, iff_true]
      exact (hagree jobId job hfind).mono (fun e => mem_jobTopic_step _)
        (fun e => mem_statusTopic_step _)
    | false =>
      have hcancelled : job.afterCancel now = job.cancelled now := by
        simp [Job.afterCancel, hterminal]
      have htopic : (step w (.cancel jobId now d)).statusTopic =
          d.publish w.statusTopic ⟨job.jobId, job.containerId⟩ := by
        simp [statusTopic_cancel, hfind, hterminal]
      rw [hcancelled]
      simp only [forall_const]
      constructor
      · intro h
        obtain ⟨e, he, hid⟩ := h.2 rfl
        rw [htopic] at he
        rcases mem_publish.mp he with hold | ⟨hd, -⟩
        · exact Or.inr ⟨e, hold, by rw [hid, cancelled_jobId, hkey]⟩
        · exact Or.inl hd
      · intro hQ
        refine ⟨fun h => absurd h (by simp [Job.cancelled]), fun _ => ?_⟩
        rw [htopic]
        rcases hQ with hd | ⟨e, he, hid⟩
        · exact ⟨⟨job.jobId, job.containerId⟩, mem_publish.mpr (Or.inr ⟨hd, rfl⟩), rfl⟩
        · exact ⟨e, mem_publish_of_mem he, by rw [hid, cancelled_jobId, hkey]⟩

/-- **The jobs table and Kafka agree in every state of a run exactly when every retry and
cancel publish that the stored status stands for succeeds.** The run starts from an empty
deployment; submissions may fail to publish. -/
theorem always_agree_iff {calls : List Call} (hcalls : ∀ c ∈ calls, c.Reported) :
    Always step Agree World.empty calls ↔ Along step PublishesWhatItStores World.empty calls := by
  refine always_iff_along (I := fun w rest => Grounded w ∧ ∀ c ∈ rest, c.Reported) ?_ ?_
    ⟨grounded_empty, hcalls⟩ ?_
  · rintro w c rest ⟨hground, hreported⟩
    exact ⟨grounded_invariant w c hground,
      fun c' hc' => hreported c' (List.mem_cons_of_mem c hc')⟩
  · rintro w c rest ⟨hground, hreported⟩ hagree
    have hc := hreported c List.mem_cons_self
    cases c with
    | create jobId now d request =>
      exact iff_of_true (agree_create hagree jobId now d request) trivial
    | update jobId now d u => exact agree_update_iff hground hagree jobId now d hc
    | cancel jobId now d => exact agree_cancel_iff hagree jobId now d
  · intro j job hjob
    simp [World.empty] at hjob

/-- A job that runs, fails, is queued again and is cancelled, with every publish delivered. -/
theorem always_agree_iff_retried : Always step Agree World.empty
    [.create "job-1" 0 .delivered sampleRequest,
      .update "job-1" 1 .delivered { status := .running },
      .update "job-1" 2 .delivered { status := .failed, exitCode := some 1 },
      .cancel "job-1" 3 .delivered] := by
  have hreported : ∀ c ∈ [Call.create "job-1" 0 .delivered sampleRequest,
      .update "job-1" 1 .delivered { status := .running },
      .update "job-1" 2 .delivered { status := .failed, exitCode := some 1 },
      .cancel "job-1" 3 .delivered], c.Reported := by
    simp [Call.Reported, JobStatus.isReported]
  exact (always_agree_iff hreported).mpr
    ⟨trivial, fun _ _ _ => rfl, fun _ _ _ => rfl, fun _ _ _ => .inl rfl, trivial⟩

/-- The first attempt fails and the retry event cannot be published: the job stays queued
for a second attempt that no event asks for. -/
theorem failed_retry_publish_disagrees :
    ¬ Always step Agree World.empty
      [.create "job-1" 0 .delivered sampleRequest,
        .update "job-1" 1 .failed { status := .failed, exitCode := some 1 }] := by
  intro h
  have hfinal := h _ [] (List.append_nil _).symm
  obtain ⟨e, he, -, htag⟩ := (hfinal "job-1" _ rfl).1 rfl
  -- the original event is the only one on the topic
  obtain rfl : e = originalEvent "job-1" sampleRequest := List.mem_singleton.mp he
  exact absurd htag (by decide)

end DataHarbour.JobService
