import DataHarbour.JobService.Budget
import DataHarbour.Machine.Guards
import DataHarbour.System.ScheduleApi

/-!
# Who can do what

Every route of the job service depends on one of two tokens: the status callback on the internal
token, all others on the API key. Whatever is requested and however it interleaves with the
scheduler, a request without its token leaves no trace, and nobody but the holder of the internal
token moves a job beyond its submission and cancellation.
-/

namespace DataHarbour.System

open Python Relational Machine JobService Orchestrator

/-! ## Tokens -/

/-- The tokens in the settings; an empty one is not configured. -/
structure Tokens where
  apiKey : String
  internalApiToken : String

/-- The headers that carry the tokens. -/
structure Headers where
  xApiKey : Option String := none
  xInternalToken : Option String := none

/-- How a request is turned away. -/
inductive Refusal where
  | http (statusCode : ℕ) (detail : String)
  | raised (e : Exc)
  deriving DecidableEq

/-- The text has only ASCII characters. -/
def isAscii (text : String) : Bool := text.toList.all fun c => decide (c.toNat < 128)

/-- `hmac.compare_digest` for two strings. -/
def compareDigest (a b : String) : Except Exc Bool :=
  if isAscii a && isAscii b then .ok (decide (a = b))
  else .error (.typeError "comparing strings with non-ASCII characters is not supported")

/-- `_require_token`. -/
def requireToken (provided : Option String) (expected detail : String) : Except Refusal Unit :=
  if expected = "" then .error (.http 500 "Authentication is not configured")
  else
    match provided with
    | none => .error (.http 401 detail)
    | some token =>
      if token = "" then .error (.http 401 detail)
      else
        match compareDigest token expected with
        | .error e => .error (.raised e)
        | .ok false => .error (.http 401 detail)
        | .ok true => .ok ()

/-- `require_api_key`. -/
def requireApiKey (tokens : Tokens) (headers : Headers) : Except Refusal Unit :=
  requireToken headers.xApiKey tokens.apiKey "Invalid API key"

/-- `require_internal_token`. -/
def requireInternalToken (tokens : Tokens) (headers : Headers) : Except Refusal Unit :=
  requireToken headers.xInternalToken tokens.internalApiToken "Invalid internal service token"

/-- Only the configured token passes, and only if there is one. -/
theorem requireToken_eq_ok_iff {provided : Option String} {expected detail : String} :
    requireToken provided expected detail = .ok () ↔
      provided = some expected ∧ expected ≠ "" ∧ isAscii expected = true := by
  unfold requireToken
  split
  · next hempty => simp [hempty]
  · next hne =>
    cases provided with
    | none => simp
    | some token =>
      by_cases htoken : token = ""
      · simp [htoken, Ne.symm hne]
      · simp only [htoken, if_false, compareDigest]
        by_cases hsame : token = expected
        · subst hsame
          cases hascii : isAscii token <;> simp [hne]
        · cases isAscii token && isAscii expected <;> simp [hsame]

/-! ## Requests -/

variable {ι : Type*}

/-- The dependency of the route; a step of a replica is no request. -/
def authorised (tokens : Tokens) : Headers × DeskStep ι → Bool
  | (_, .tick _) => true
  | (headers, .job (.update ..)) => (requireInternalToken tokens headers).isOk
  | (headers, _) => (requireApiKey tokens headers).isOk

/-- The state after a request. -/
def requestStep [DecidableEq ι] (lib : Libraries) (tokens : Tokens) :
    Desk ι → Headers × DeskStep ι → Desk ι :=
  guarded (authorised tokens) fun s r => deskStep lib s r.2

/-- The holder of the API key. -/
def Tokens.Keyed (tokens : Tokens) (headers : Headers) : Prop :=
  headers.xApiKey = some tokens.apiKey ∧ tokens.apiKey ≠ ""

/-- The holder of the internal token. -/
def Tokens.Internal (tokens : Tokens) (headers : Headers) : Prop :=
  headers.xInternalToken = some tokens.internalApiToken ∧ tokens.internalApiToken ≠ ""

/-- The job has been submitted, and perhaps cancelled, and nothing else. -/
structure Untouched (job : Job) : Prop where
  status : job.status ∈ [.pending, .queued, .cancelled]
  retryCount : job.retryCount = 0
  containerId : job.containerId = none
  startedAt : job.startedAt = none

private theorem isOk_iff {x : Except Refusal Unit} : x.isOk = true ↔ x = .ok () := by
  cases x <;> simp [Except.isOk, Except.toBool]

private theorem keyed_of_isOk {tokens : Tokens} {headers : Headers}
    (h : (requireApiKey tokens headers).isOk = true) : tokens.Keyed headers := by
  obtain ⟨htoken, hne, -⟩ := requireToken_eq_ok_iff.mp (isOk_iff.mp h)
  exact ⟨htoken, hne⟩

private theorem internal_of_isOk {tokens : Tokens} {headers : Headers}
    (h : (requireInternalToken tokens headers).isOk = true) : tokens.Internal headers := by
  obtain ⟨htoken, hne, -⟩ := requireToken_eq_ok_iff.mp (isOk_iff.mp h)
  exact ⟨htoken, hne⟩

/-- The request submits the job. -/
def DeskStep.Submits (jobId : JobId) (a : DeskStep ι) : Prop :=
  (∃ now delivery request, a = .job (.create jobId now delivery request)) ∨
    ∃ scheduleId now stampedAt delivery, a = .trigger scheduleId jobId now stampedAt delivery

/-- The request reports a status of the job. -/
def DeskStep.Updates (jobId : JobId) (a : DeskStep ι) : Prop :=
  ∃ now delivery u, a = .job (.update jobId now delivery u)

section Steps

variable [DecidableEq ι]

/-- A trigger leaves the jobs as they are or submits one. -/
theorem jobs_trigger (lib : Libraries) (s : Desk ι) (scheduleId : String) (jobId : JobId)
    (now stampedAt : Time) (delivery : Delivery) :
    let s' := deskStep lib s (.trigger scheduleId jobId now stampedAt delivery)
    s'.world.jobs = s.world.jobs ∨ ∃ request, s'.world.jobs =
      (JobService.step s.world (.create jobId now delivery request)).jobs := by
  intro s'
  rcases triggerSchedule_cases lib s scheduleId jobId now stampedAt delivery with
    ⟨world, e, hjobs, heq⟩ | ⟨row, checked, world, response, -, hcreate, heq⟩
  · refine .inl ?_
    show (triggerSchedule lib s scheduleId jobId now stampedAt delivery).1.world.jobs = _
    rw [heq]
    exact hjobs
  · refine .inr ⟨checked.request, ?_⟩
    show (triggerSchedule lib s scheduleId jobId now stampedAt delivery).1.world.jobs = _
    rw [heq, JobService.step, hcreate]
    rfl

/-- A request to the job service leaves the jobs as they are, or commits. -/
theorem jobs_job (lib : Libraries) (s : Desk ι) (call : Call) :
    let s' := deskStep lib s (.job call)
    s'.world.jobs = s.world.jobs ∨ s'.world.jobs = (JobService.step s.world call).jobs :=
  jobs_serve lib.acceptsJob s.world call

/-- **One step.** A row stays as it is, is submitted, cancelled, or the subject of a status
callback. -/
theorem find?_deskStep (lib : Libraries) (s : Desk ι) (a : DeskStep ι) (jobId : JobId) :
    (deskStep lib s a).world.jobs.find? jobId = s.world.jobs.find? jobId ∨
      (a.Submits jobId ∧ ∃ now delivery request, (deskStep lib s a).world.jobs.find? jobId =
        some ((newJob jobId now request).afterEnqueue delivery)) ∨
      (∃ now, (deskStep lib s a).world.jobs.find? jobId =
        (s.world.jobs.find? jobId).map (·.afterCancel now)) ∨
      a.Updates jobId := by
  have hcreate : ∀ (k : JobId) now delivery request,
      (JobService.step s.world (.create k now delivery request)).jobs.find? jobId =
          s.world.jobs.find? jobId ∨
        k = jobId ∧ (JobService.step s.world (.create k now delivery request)).jobs.find? jobId =
          some ((newJob jobId now request).afterEnqueue delivery) := by
    intro k now delivery request
    rw [find?_create]
    split
    · next h =>
      obtain ⟨rfl, -⟩ := h
      exact .inr ⟨rfl, rfl⟩
    · exact .inl rfl
  cases a with
  | tick a => exact .inl rfl
  | create scheduleId now request => exact .inl rfl
  | update scheduleId now patch => exact .inl rfl
  | delete scheduleId => exact .inl rfl
  | trigger scheduleId k now stampedAt delivery =>
    rcases jobs_trigger lib s scheduleId k now stampedAt delivery with hsame | ⟨request, hnew⟩
    · exact .inl (by rw [hsame])
    · rw [hnew]
      rcases hcreate k now delivery request with hold | ⟨rfl, hrow⟩
      · exact .inl hold
      · exact .inr (.inl ⟨.inr ⟨scheduleId, now, stampedAt, delivery, rfl⟩, now, delivery, request,
          hrow⟩)
  | job call =>
    rcases jobs_job lib s call with hsame | hserved
    · exact .inl (by rw [hsame])
    rw [hserved]
    cases call with
    | create k now delivery request =>
      rcases hcreate k now delivery request with hold | ⟨rfl, hrow⟩
      · exact .inl hold
      · exact .inr (.inl ⟨.inl ⟨now, delivery, request, rfl⟩, now, delivery, request, hrow⟩)
    | update k now delivery u =>
      by_cases hk : k = jobId
      · exact .inr (.inr (.inr ⟨now, delivery, u, hk ▸ rfl⟩))
      · exact .inl (find?_update_of_ne now delivery u hk)
    | cancel k now delivery =>
      by_cases hk : k = jobId
      · refine .inr (.inr (.inl ⟨now, ?_⟩))
        exact (find?_cancel s.world k now delivery jobId).trans (if_pos hk)
      · exact .inl ((find?_cancel s.world k now delivery jobId).trans (if_neg hk))

private theorem untouched_newJob (jobId : JobId) (now : Time) (request : JobCreateRequest)
    (delivery : Delivery) : Untouched ((newJob jobId now request).afterEnqueue delivery) := by
  cases delivery <;> exact ⟨by simp [Job.afterEnqueue], rfl, rfl, rfl⟩

/-- A job that is cancelled is still untouched. -/
theorem Untouched.afterCancel {job : Job} (h : Untouched job) (now : Time) :
    Untouched (job.afterCancel now) := by
  unfold Job.afterCancel
  split
  · exact h
  · exact ⟨by simp [Job.cancelled], h.retryCount, h.containerId, h.startedAt⟩

/-- Only a submission stores a row. -/
theorem submits_of_stored {lib : Libraries} {s : Desk ι} {a : DeskStep ι} {jobId : JobId}
    (hnone : s.world.jobs.find? jobId = none)
    (hstored : (deskStep lib s a).world.jobs.find? jobId ≠ none) :
    a.Submits jobId := by
  rcases find?_deskStep lib s a jobId with hsame | ⟨hsubmits, -⟩ | ⟨now, hcancel⟩ | hupdates
  · exact absurd (hsame.trans hnone) hstored
  · exact hsubmits
  · rw [hnone] at hcancel
    exact absurd hcancel hstored
  · obtain ⟨now, delivery, u, rfl⟩ := hupdates
    rcases jobs_job lib s (.update jobId now delivery u) with hsame | hserved
    · rw [hsame, hnone] at hstored
      exact absurd rfl hstored
    · rw [hserved, find?_update, if_pos rfl, hnone, Option.map_none] at hstored
      exact absurd rfl hstored

/-- Only a status callback takes a row further. -/
theorem updates_of_touched {lib : Libraries} {s : Desk ι} {a : DeskStep ι} {jobId : JobId}
    (huntouched : ¬ ∃ job, s.world.jobs.find? jobId = some job ∧ ¬ Untouched job)
    (htouched : ∃ job, (deskStep lib s a).world.jobs.find? jobId = some job ∧ ¬ Untouched job) :
    a.Updates jobId := by
  obtain ⟨job, hjob, hnot⟩ := htouched
  rcases find?_deskStep lib s a jobId with
    hsame | ⟨-, now, delivery, request, hnew⟩ | ⟨now, hcancel⟩ | hupdates
  · exact absurd ⟨job, hsame.symm.trans hjob, hnot⟩ huntouched
  · obtain rfl := Option.some.inj (hnew.symm.trans hjob)
    exact absurd (untouched_newJob jobId now request delivery) hnot
  · obtain ⟨old, hold, rfl⟩ := Option.map_eq_some_iff.mp (hcancel.symm.trans hjob)
    refine absurd ⟨old, hold, fun h => hnot (h.afterCancel now)⟩ huntouched
  · exact hupdates

/-- Only `create_schedule` stores a schedule. -/
theorem creates_of_stored {lib : Libraries} {s : Desk ι} {a : DeskStep ι} {scheduleId : String}
    (hnone : s.schedules.find? scheduleId = none)
    (hstored : (deskStep lib s a).schedules.find? scheduleId ≠ none) :
    ∃ now request, a = .create scheduleId now request := by
  have hset : ∀ row, (s.schedules.set row).find? scheduleId = none := fun row => by
    rw [Table.find?_set, hnone, Option.map_none, ite_self]
  cases a with
  | tick a =>
    exfalso
    obtain ⟨row, hrow⟩ := Option.ne_none_iff_exists'.mp hstored
    have hmoves := moves_clusterStep lib.next s.cluster a
    replace hrow : (clusterStep lib.next s.cluster a).schedules.find? scheduleId = some row := hrow
    generalize clusterStep lib.next s.cluster a = cluster at hmoves hrow
    cases hmoves with
    | commit _ =>
      exact forall_foldl_apply (P := fun k _ => s.cluster.schedules.find? k ≠ none)
        (fun k old hold => by simp [hold]) (fun _ _ _ h => h) hrow hnone
    | _ => cases hnone.symm.trans hrow
  | create k now request =>
    replace hstored : (createSchedule lib s.schedules k now request).1.find? scheduleId ≠ none :=
      hstored
    rcases createSchedule_cases lib s.schedules k now request with
      heq | ⟨row, hfresh, -, hid, -, -, -, heq⟩
    · exact absurd hnone (heq ▸ hstored)
    · rw [heq, Table.find?_insert] at hstored
      split at hstored
      · next hkey => exact ⟨now, request, by rw [← hid, hkey]⟩
      · exact absurd hnone hstored
  | update k now patch =>
    replace hstored : (updateSchedule lib s.schedules k now patch).1.find? scheduleId ≠ none :=
      hstored
    rw [updateSchedule_fst, hnone] at hstored
    exact absurd rfl hstored
  | delete k =>
    replace hstored : (deleteSchedule s.schedules k).1.find? scheduleId ≠ none := hstored
    unfold deleteSchedule at hstored
    split at hstored
    · exact absurd hnone hstored
    · obtain ⟨row, hrow⟩ := Option.ne_none_iff_exists'.mp hstored
      have hmem := (Table.mem_erase.mp (Table.mem_of_find? hrow)).1
      have hfind := Table.find?_of_mem hmem
      rw [Table.key_of_find? hrow, hnone] at hfind
      cases hfind
  | trigger k jobId now stampedAt delivery =>
    replace hstored : (triggerSchedule lib s k jobId now stampedAt delivery).1.schedules.find?
      scheduleId ≠ none := hstored
    rcases triggerSchedule_cases lib s k jobId now stampedAt delivery with
      ⟨world, e, -, heq⟩ | ⟨row, checked, world, response, -, -, heq⟩
    · rw [heq] at hstored
      exact absurd hnone hstored
    · rw [heq] at hstored
      exact absurd (hset _) hstored
  | job call => exact absurd hnone hstored

/-- **No token, no effect.** However requests with any headers interleave with the ticks of the
replicas: the state is that of the run of the authorised requests alone; every stored job was
submitted, and every stored schedule created, by a holder of the API key; and a job that has been
taken further than its submission and cancellation was reported on by a holder of the internal
token. -/
theorem requests_need_tokens (lib : Libraries) (tokens : Tokens) (clock : Time)
    (requests : List (Headers × DeskStep ι)) :
    let s := run (requestStep lib tokens) (Desk.start clock) requests
    s = run (deskStep lib) (Desk.start clock)
        ((requests.filter (authorised tokens)).map Prod.snd) ∧
      (∀ job ∈ s.world.jobs.rows, ∃ r ∈ requests, tokens.Keyed r.1 ∧ r.2.Submits job.jobId) ∧
      (∀ row ∈ s.schedules.rows, ∃ r ∈ requests, tokens.Keyed r.1 ∧
        ∃ now request, r.2 = .create row.scheduleId now request) ∧
      ∀ job ∈ s.world.jobs.rows, ¬ Untouched job →
        ∃ r ∈ requests, tokens.Internal r.1 ∧ r.2.Updates job.jobId := by
  intro s
  have hrun : s = run (fun s (r : Headers × DeskStep ι) => deskStep lib s r.2) (Desk.start clock)
      (requests.filter (authorised tokens)) := run_guarded _ _
  refine ⟨?_, fun job hjob => ?_, fun row hrow => ?_, fun job hjob htouched => ?_⟩
  · rw [hrun, run, run, List.foldl_map]
  · have hstored : s.world.jobs.find? job.jobId ≠ none := by simp [Table.find?_of_mem hjob]
    obtain ⟨r, hr, hauthorised, hsubmits⟩ := exists_admitted
      (P := fun s : Desk ι => s.world.jobs.find? job.jobId ≠ none)
      (K := fun r : Headers × DeskStep ι => r.2.Submits job.jobId)
      (fun s r hnone hstored => submits_of_stored (not_not.mp hnone) hstored)
      (not_not.mpr rfl) hstored
    refine ⟨r, hr, keyed_of_isOk ?_, hsubmits⟩
    obtain ⟨headers, a⟩ := r
    rcases hsubmits with ⟨_, _, _, rfl⟩ | ⟨_, _, _, _, rfl⟩ <;> exact hauthorised
  · have hstored : s.schedules.find? row.scheduleId ≠ none := by simp [Table.find?_of_mem hrow]
    obtain ⟨r, hr, hauthorised, hcreates⟩ := exists_admitted
      (P := fun s : Desk ι => s.schedules.find? row.scheduleId ≠ none)
      (K := fun r : Headers × DeskStep ι => ∃ now request, r.2 = .create row.scheduleId now request)
      (fun s r hnone hstored => creates_of_stored (not_not.mp hnone) hstored)
      (not_not.mpr rfl) hstored
    refine ⟨r, hr, keyed_of_isOk ?_, hcreates⟩
    obtain ⟨headers, a⟩ := r
    obtain ⟨_, _, rfl⟩ := hcreates
    exact hauthorised
  · obtain ⟨r, hr, hauthorised, hupdates⟩ := exists_admitted
      (P := fun s : Desk ι =>
        ∃ row, s.world.jobs.find? job.jobId = some row ∧ ¬ Untouched row)
      (K := fun r : Headers × DeskStep ι => r.2.Updates job.jobId)
      (fun s r => updates_of_touched)
      (by rintro ⟨row, hrow, -⟩; cases hrow) ⟨job, Table.find?_of_mem hjob, htouched⟩
    refine ⟨r, hr, internal_of_isOk ?_, hupdates⟩
    obtain ⟨headers, a⟩ := r
    obtain ⟨_, _, _, rfl⟩ := hupdates
    exact hauthorised

end Steps

end DataHarbour.System
