import DataHarbour.LogService.QueryScope
import DataHarbour.LogService.Streaming
import DataHarbour.System.Access
import DataHarbour.System.Api

/-!
# The logs of a job

`GET /jobs/{job_id}/logs` through two services: the job service looks the job up and asks the log
service, and that asks Loki with a query built from the texts of the request. The texts that get
that far are plain, those that spell a UUID and the sources of the enumeration, so the answer never
holds a line of another job. The job is looked up by the UUID, and Loki by its spelling.
-/

namespace DataHarbour.System

open Text LogQL Machine Relational JobService LogService

/-! ## Loki -/

/-- The `params` of a query; the direction is backward. -/
structure LokiParams where
  query : String
  limit : ℕ
  start : ℤ
  /-- `end`. -/
  stop : ℤ

/-- What is relied on of Loki. A query that is a stream selector is answered from the streams that
it selects. -/
structure Loki where
  /-- The characters that stand for themselves in a string. -/
  bare : Char → Bool
  /-- The match of a regular expression. -/
  regex : List UInt8 → List UInt8 → Bool
  /-- The newest entries of the streams, unless the request fails. -/
  newest : LokiParams → List LokiStream → Option (List LokiStream)
  /-- The answer to any other query. -/
  other : LokiParams → List LokiStream → Option (List LokiStream)
  bare_of_isAlphanum : ∀ c : Char, c.isAlphanum ∨ c = '-' → bare c = true
  newest_mem : ∀ params streams answer, newest params streams = some answer →
    ∀ stream ∈ answer, ∃ stored ∈ streams,
      (∀ key text, stored.labels.lookup key = some text → stream.labels.lookup key = some text) ∧
      ∀ value ∈ stream.values, value ∈ stored.values ∧
        params.start ≤ value.1 ∧ value.1 < params.stop
  newest_le : ∀ params streams answer, newest params streams = some answer →
    (answer.map fun stream => stream.values.length).sum ≤ params.limit

/-- The stored streams that match. -/
def Loki.select (loki : Loki) (store : List LokiStream) (matchers : List Matcher) :
    List LokiStream :=
  store.filter fun stream => matchers.all (·.matches loki.regex stream.labels)

/-- The answer to a query over the stored streams. -/
def Loki.answer (loki : Loki) (store : List LokiStream) (params : LokiParams) :
    Option (List LokiStream) :=
  match readSelector loki.bare params.query with
  | some matchers => loki.newest params (loki.select store matchers)
  | none => loki.other params store

/-! ## Plain texts -/

/-- Letters, digits and dashes, as in the text of a UUID. -/
def IsIdText (text : String) : Prop := text ≠ "" ∧ ∀ c ∈ text.toList, c.isAlphanum ∨ c = '-'

instance (text : String) : Decidable (IsIdText text) :=
  decidable_of_iff (text ≠ "" ∧ text.toList.all fun c => c.isAlphanum || c = '-')
    (by simp [IsIdText])

/-- A text that spells no UUID cannot be compared with the column `job_id`. -/
structure UuidColumn where
  /-- The UUID that a text spells, as its canonical text. -/
  read : String → Option JobId
  /-- Only hexadecimal digits and dashes are read. -/
  isIdText : ∀ text jobId, read text = some jobId → IsIdText text

/-! ## The two services -/

/-- `LogSource`. -/
inductive LogSource where
  | stdout
  | stderr
  | driver
  | executor
  | all
  deriving DecidableEq

/-- The text of a source. -/
def LogSource.value : LogSource → String
  | stdout => "stdout"
  | stderr => "stderr"
  | driver => "driver"
  | executor => "executor"
  | all => "all"

/-- `Query(500, ge=1, le=10000)`. -/
abbrev LogTail := { n : ℕ // 1 ≤ n ∧ n ≤ 10000 }

/-- What `get_job_logs` of the log service returns. -/
structure LogsPayload where
  jobId : String
  source : String
  logCount : ℕ
  entries : List LogEntry

/-- `JobLogsResponse`. -/
structure JobLogsResponse where
  jobId : String
  logCount : ℕ
  entries : List LogEntry

/-- The two services at the time of a request. -/
structure LogServices where
  loki : Loki
  uuids : UuidColumn
  isoTime : ℤ → String
  /-- The last 24 hours in nanoseconds, as `query_logs` computes them from the clock. -/
  start : ℤ
  stop : ℤ
  /-- `api_key` of the log service. -/
  apiKey : String
  /-- `log_service_api_key` of the job service. -/
  logServiceApiKey : String
  /-- Requests of the job service arrive. -/
  reachable : Bool

namespace LogServices

variable (services : LogServices) (store : List LokiStream)

/-- The `params` of `query_logs`. -/
def params (jobId source : String) (tail : LogTail) : LokiParams where
  query := lokiQuery jobId source
  limit := tail
  start := services.start
  stop := services.stop

/-- `get_job_logs` of the log service. -/
def logServiceGetJobLogs (jobId source : String) (tail : LogTail) : LogsPayload :=
  let logs := queryLogs services.isoTime jobId
    (services.loki.answer store (services.params jobId source tail))
  { jobId := jobId, source := source, logCount := logs.length, entries := logs }

/-- A request to the log service through its `require_api_key`; `none` if it fails. A plain path
arrives as it is sent. -/
def request (path : String) (xApiKey : Option String) (source : String) (tail : LogTail) :
    Option LogsPayload :=
  match services.reachable, requireToken xApiKey services.apiKey "Invalid API key",
      Api.dispatch .log .get path with
  | true, .ok (), some (.getJobLogs, [jobId]) =>
    some (services.logServiceGetJobLogs store jobId source tail)
  | _, _, _ => none

/-- `JobService.get_job_logs`. -/
def fetchJobLogs (jobId source : String) (tail : LogTail) : List LogEntry :=
  match services.request store ("/api/v1/logs/" ++ jobId) (some services.logServiceApiKey) source
      tail with
  | some payload => payload.entries
  | none => []

/-- `get_job_logs` of the job service; `text` is the `job_id` of the path. The driver raises for a
text that spells no UUID. -/
def getJobLogs (w : World) (text : String) (source : LogSource) (tail : LogTail) :
    Except (ℕ × String) JobLogsResponse :=
  match services.uuids.read text with
  | none => .error (500, "Internal Server Error")
  | some jobId =>
    match getJob w jobId with
    | none => .error (404, s!"Job {text} not found")
    | some _ =>
      let logEntries := services.fetchJobLogs store text source.value tail
      .ok { jobId := text, logCount := logEntries.length, entries := logEntries }

end LogServices

/-! ## The texts of a query -/

/-- An id is one segment of a path. -/
theorem IsIdText.isSegment {text : String} (h : IsIdText text) : Api.IsSegment text :=
  ⟨h.1, fun hslash => absurd (h.2 '/' hslash) (by decide)⟩

/-- An id needs no escape in a LogQL string. -/
theorem IsIdText.plain {text : String} (h : IsIdText text) (loki : Loki) :
    Plain loki.bare text.toList := by
  intro c hc
  have hid := h.2 c hc
  refine ⟨?_, ?_, loki.bare_of_isAlphanum c hid⟩ <;> rintro rfl <;> exact absurd hid (by decide)

/-- So do the values of the sources. -/
theorem LogSource.isIdText (source : LogSource) : IsIdText source.value := by
  cases source <;> decide

/-- Only the source `all` has the value `all`. -/
theorem LogSource.value_eq_all_iff {source : LogSource} : source.value = "all" ↔ source = .all := by
  cases source <;> decide

/-! ## One query -/

/-- A stream of the job, under this spelling of its id, and the source. -/
def OfJob (jobId : JobId) (source : LogSource) (stream : LokiStream) : Prop :=
  stream.labels.lookup "job_id" = some jobId ∧
    (source ≠ .all → stream.labels.lookup "source" = some source.value)

/-- The entry is a line of a stored stream of the job and the source, from the last 24 hours. -/
def LogServices.Shows (services : LogServices) (store : List LokiStream) (jobId : JobId)
    (source : LogSource) (entry : LogEntry) : Prop :=
  ∃ stream ∈ store, OfJob jobId source stream ∧ ∃ value ∈ stream.values,
    services.start ≤ value.1 ∧ value.1 < services.stop ∧
      entry.timestamp = services.isoTime value.1 ∧ entry.message = value.2 ∧
      entry.jobId = jobId ∧ (source ≠ .all → entry.source = source.value)

section Query

variable {services : LogServices} {store : List LokiStream} {jobId : JobId} {source : LogSource}
  {tail : LogTail}

/-- The query reads as the matchers that are meant. -/
theorem readSelector_lokiQuery (hid : IsIdText jobId) (loki : Loki) :
    readSelector loki.bare (lokiQuery jobId source.value) = some (scope jobId source.value) :=
  (query_scoped_iff loki.bare jobId source.value).mpr
    ⟨hid.plain loki, fun _ => source.isIdText.plain loki⟩

private theorem scope_matches_iff (hid : IsIdText jobId) {regex : List UInt8 → List UInt8 → Bool}
    {stream : LokiStream} :
    (scope jobId source.value).all (·.matches regex stream.labels) = true ↔
      OfJob jobId source stream := by
  by_cases hall : source = .all
  · simp [scope, OfJob, hall, LogSource.value, equals_matches_iff hid.1]
  · have hvalue : source.value ≠ "all" := mt LogSource.value_eq_all_iff.mp hall
    simp [scope, OfJob, hall, hvalue, equals_matches_iff hid.1,
      equals_matches_iff source.isIdText.1]

/-- Loki answers from the streams of the job. -/
theorem answer_params (hid : IsIdText jobId) :
    services.loki.answer store (services.params jobId source.value tail) =
      services.loki.newest (services.params jobId source.value tail)
        (services.loki.select store (scope jobId source.value)) := by
  rw [Loki.answer, LogServices.params, readSelector_lokiQuery hid]

/-- Every entry is one of a stream of the job. -/
theorem shows_of_mem_queryLogs (hid : IsIdText jobId) {entry : LogEntry}
    (hentry : entry ∈ queryLogs services.isoTime jobId
      (services.loki.answer store (services.params jobId source.value tail))) :
    services.Shows store jobId source entry := by
  rw [answer_params hid] at hentry
  cases hanswer : services.loki.newest (services.params jobId source.value tail)
      (services.loki.select store (scope jobId source.value)) with
  | none => simp [hanswer, queryLogs] at hentry
  | some answer =>
    rw [hanswer] at hentry
    obtain ⟨stream, hstream, hmem⟩ := List.mem_flatMap.mp hentry
    obtain ⟨value, hvalue, rfl⟩ := List.mem_map.mp hmem
    obtain ⟨stored, hstored, hlabels, hvalues⟩ :=
      services.loki.newest_mem _ _ _ hanswer stream hstream
    obtain ⟨hin, hmatches⟩ := List.mem_filter.mp hstored
    have hof : OfJob jobId source stored := (scope_matches_iff hid).mp hmatches
    obtain ⟨hline, hstart, hstop⟩ := hvalues value hvalue
    refine ⟨stored, hin, hof, value, hline, hstart, hstop, rfl, rfl, ?_, fun hsource => ?_⟩
    · show (stream.labels.lookup "job_id").getD jobId = jobId
      rw [hlabels _ _ hof.1, Option.getD_some]
    · show (stream.labels.lookup "source").getD "unknown" = source.value
      rw [hlabels _ _ (hof.2 hsource), Option.getD_some]

private theorem length_queryLogs_le (hid : IsIdText jobId) :
    (queryLogs services.isoTime jobId
      (services.loki.answer store (services.params jobId source.value tail))).length ≤ tail := by
  rw [answer_params hid]
  cases hanswer : services.loki.newest (services.params jobId source.value tail)
      (services.loki.select store (scope jobId source.value)) with
  | none => exact Nat.zero_le _
  | some answer =>
    have hle := services.loki.newest_le _ _ _ hanswer
    simpa [queryLogs, List.length_flatMap, LogServices.params] using hle

/-- The matchers select among the streams of the job. -/
theorem select_filter_job (hid : IsIdText jobId) (loki : Loki) (store : List LokiStream) :
    loki.select (store.filter fun stream => stream.labels.lookup "job_id" = some jobId)
        (scope jobId source.value) =
      loki.select store (scope jobId source.value) := by
  rw [Loki.select, List.filter_filter]
  refine List.filter_congr fun stream _ => ?_
  rw [Bool.eq_iff_iff, Bool.and_eq_true, decide_eq_true_eq]
  exact ⟨And.left, fun h => ⟨h, ((scope_matches_iff hid).mp h).1⟩⟩

/-- **Frame.** Streams of other jobs do not matter to the answer. -/
theorem answer_eq_of_filter_eq (hid : IsIdText jobId) {store' : List LokiStream}
    (hsame : (store.filter fun stream => stream.labels.lookup "job_id" = some jobId) =
      store'.filter fun stream => stream.labels.lookup "job_id" = some jobId) :
    services.loki.answer store (services.params jobId source.value tail) =
      services.loki.answer store' (services.params jobId source.value tail) := by
  rw [answer_params hid, answer_params hid, ← select_filter_job hid _ store, hsame,
    select_filter_job hid]

end Query

/-! ## Both services -/

section Services

variable {jobId : JobId}

/-- The log service is asked for the job that was asked for, or the request fails. -/
theorem fetchJobLogs_cases (services : LogServices) (hid : IsIdText jobId) (source : LogSource)
    (tail : LogTail) :
    (∀ store, services.fetchJobLogs store jobId source.value tail = []) ∨
      ∀ store, services.fetchJobLogs store jobId source.value tail =
        queryLogs services.isoTime jobId
          (services.loki.answer store (services.params jobId source.value tail)) := by
  have hdispatch := (Api.peer_paths hid.isSegment).2
  cases hreachable : services.reachable with
  | false => exact .inl fun store => by simp [LogServices.fetchJobLogs, LogServices.request,
      hreachable]
  | true =>
    cases htoken : requireToken (some services.logServiceApiKey) services.apiKey
        "Invalid API key" with
    | error refusal => exact .inl fun store => by simp [LogServices.fetchJobLogs,
        LogServices.request, hreachable, htoken]
    | ok => exact .inr fun store => by simp [LogServices.fetchJobLogs, LogServices.request,
        hreachable, htoken, hdispatch, LogServices.logServiceGetJobLogs]

variable {ι : Type*} [DecidableEq ι]

/-- A stored job was submitted. -/
theorem exists_submits_of_stored {lib : Libraries} {clock : Time} {steps : List (DeskStep ι)}
    (hstored : getJob (run (deskStep lib) (Desk.start clock) steps).world jobId ≠ none) :
    ∃ a ∈ steps, a.Submits jobId := by
  obtain ⟨before, a, after, rfl, hbefore, ha⟩ := exists_step_of_run
    (P := fun s : Desk ι => s.world.jobs.find? jobId ≠ none) (not_not.mpr rfl)
    (fun hnone => hstored (Option.map_eq_none_iff.mpr hnone))
  exact ⟨a, List.mem_append_right _ List.mem_cons_self,
    submits_of_stored (not_not.mp hbefore) ha⟩

/-- **Logs of one job.** However submissions, other requests and the ticks of the replicas
interleave, and whatever text stands in the URL: the job service fails if the text spells no UUID,
and answers 404 if it spells that of no stored job. Otherwise the job was submitted, and the answer
has at most as many entries as were asked for, each a recent line of a stream of that job and that
source, and what is stored for other jobs does not matter to it. -/
theorem job_logs_isolated (services : LogServices) (lib : Libraries) (clock : Time)
    (steps : List (DeskStep ι)) (text : String) (source : LogSource) (tail : LogTail)
    (store : List LokiStream) :
    let w := (run (deskStep lib) (Desk.start clock) steps).world
    (services.uuids.read text = none →
      services.getJobLogs store w text source tail = .error (500, "Internal Server Error")) ∧
    ∀ jobId, services.uuids.read text = some jobId →
      (getJob w jobId = none →
        services.getJobLogs store w text source tail =
          .error (404, s!"Job {text} not found")) ∧
      (getJob w jobId ≠ none → (∃ a ∈ steps, a.Submits jobId) ∧ ∃ entries,
        services.getJobLogs store w text source tail = .ok ⟨text, entries.length, entries⟩ ∧
          entries.length ≤ tail ∧ ∀ entry ∈ entries, services.Shows store text source entry) ∧
      ∀ store', (store.filter fun stream => stream.labels.lookup "job_id" = some text) =
          (store'.filter fun stream => stream.labels.lookup "job_id" = some text) →
        services.getJobLogs store w text source tail =
          services.getJobLogs store' w text source tail := by
  intro w
  refine ⟨fun hread => by simp [LogServices.getJobLogs, hread], fun jobId hread => ?_⟩
  have hid : IsIdText text := services.uuids.isIdText text jobId hread
  cases hjob : getJob w jobId with
  | none => simp [LogServices.getJobLogs, hread, hjob]
  | some job =>
    have hok : ∀ store, services.getJobLogs store w text source tail =
        .ok ⟨text, (services.fetchJobLogs store text source.value tail).length,
          services.fetchJobLogs store text source.value tail⟩ := by
      intro store
      simp [LogServices.getJobLogs, hread, hjob]
    have hsubmitted : ∃ a ∈ steps, a.Submits jobId :=
      exists_submits_of_stored (hjob.symm ▸ Option.some_ne_none job)
    refine ⟨nofun, fun _ => ⟨hsubmitted, _, hok store, ?_⟩, fun store' hsame => ?_⟩
    · rcases fetchJobLogs_cases services hid source tail with
        hfailed | hasked
      · rw [hfailed store]
        exact ⟨Nat.zero_le _, List.forall_mem_nil _⟩
      · rw [hasked store]
        exact ⟨length_queryLogs_le hid, fun entry => shows_of_mem_queryLogs hid⟩
    · rw [hok, hok]
      rcases fetchJobLogs_cases services hid source tail with
        hfailed | hasked
      · rw [hfailed store, hfailed store']
      · rw [hasked store, hasked store', answer_eq_of_filter_eq hid hsame]

/-- A Loki that keeps the lines of the time range, and fails if they exceed the limit. -/
def sampleLoki : Loki where
  bare := (· ≠ '\n')
  regex pattern value := pattern = value
  newest params streams :=
    let answer := streams.map fun stream =>
      { stream with values := stream.values.filter fun value =>
          params.start ≤ value.1 ∧ value.1 < params.stop }
    if (answer.map fun stream => stream.values.length).sum ≤ params.limit then some answer
    else none
  other _ _ := none
  bare_of_isAlphanum := by
    rintro c hc
    refine decide_eq_true ?_
    rintro rfl
    exact absurd hc (by decide)
  newest_mem := by
    intro params streams answer hanswer stream hstream
    obtain ⟨-, hkept⟩ := Option.ite_none_right_eq_some.mp hanswer
    obtain rfl := Option.some.inj hkept
    obtain ⟨stored, hstored, rfl⟩ := List.mem_map.mp hstream
    refine ⟨stored, hstored, fun _ _ hlabel => hlabel, fun value hvalue => ?_⟩
    obtain ⟨hline, hrange⟩ := List.mem_filter.mp hvalue
    exact ⟨hline, of_decide_eq_true hrange⟩
  newest_le := by
    intro params streams answer hanswer
    obtain ⟨hle, hkept⟩ := Option.ite_none_right_eq_some.mp hanswer
    obtain rfl := Option.some.inj hkept
    exact hle

/-- A hexadecimal digit. -/
def isHexDigit (c : Char) : Bool := c.isDigit || c.isAlpha && decide (c.toLower ≤ 'f')

/-- The text of a UUID with these digits. -/
def canonicalUuid (digits : List Char) : JobId :=
  let digits := digits.map Char.toLower
  let groups := [digits.take 8, (digits.drop 8).take 4, (digits.drop 12).take 4,
    (digits.drop 16).take 4, digits.drop 20]
  String.ofList (groups.intersperse ['-']).flatten

/-- A text of 32 digits is read with up to four dashes, wherever they stand. -/
def sampleUuids : UuidColumn where
  read text :=
    let digits := text.toList.filter (· ≠ '-')
    if digits.length = 32 ∧ text.length ≤ 36 ∧ digits.all isHexDigit then
      some (canonicalUuid digits)
    else none
  isIdText := by
    intro text jobId hread
    obtain ⟨⟨hlength, -, hdigits⟩, -⟩ := Option.ite_none_right_eq_some.mp hread
    refine ⟨?_, fun c hc => ?_⟩
    · rintro rfl
      exact absurd hlength (by decide)
    · by_cases hdash : c = '-'
      · exact .inr hdash
      · left
        have hhex := List.all_eq_true.mp hdigits c (List.mem_filter.mpr ⟨hc, by simpa⟩)
        simp only [isHexDigit, Bool.or_eq_true, Bool.and_eq_true] at hhex
        rw [Char.isAlphanum, Bool.or_eq_true]
        exact hhex.symm.imp_left And.left

/-- Services that reach one another, over the sample Loki and UUID column. -/
def sampleServices : LogServices where
  loki := sampleLoki
  uuids := sampleUuids
  isoTime := toString
  start := 0
  stop := 100
  apiKey := "key"
  logServiceApiKey := "key"
  reachable := true

/-- One line of a job. -/
def lineOf (jobId : JobId) : LokiStream :=
  ⟨[("job_id", jobId), ("source", "driver")], [(7, "started")]⟩

/-- The ids of two jobs. -/
def firstId : JobId := "7f3c0a1e-52d4-4b6f-9c8d-0e1f2a3b4c5d"

def secondId : JobId := "91b0c4d2-7e8f-4a1b-8c3d-5e6f7a8b9c0d"

-- Another spelling is the same UUID.
example : sampleUuids.read "7F3C0A1E52D44B6F9C8D0E1F2A3B4C5D" = some firstId := by
  decide +kernel

/-- Two jobs are submitted, and both write a line. -/
theorem job_logs_isolated_two_jobs :
    let w := (run (deskStep plainLibraries) (Desk.start 0 : Desk Bool)
      [.job (.create firstId 5 .delivered sampleRequest),
        .job (.create secondId 6 .delivered sampleRequest)]).world
    let answer := sampleServices.getJobLogs [lineOf secondId, lineOf firstId] w firstId .driver
      ⟨500, by decide⟩
    (∃ entries, answer = .ok ⟨firstId, entries.length, entries⟩ ∧ ∀ entry ∈ entries,
        sampleServices.Shows [lineOf secondId, lineOf firstId] firstId .driver entry) ∧
      answer = sampleServices.getJobLogs [lineOf firstId] w firstId .driver ⟨500, by decide⟩ := by
  intro w answer
  have hread : sampleUuids.read firstId = some firstId := by decide +kernel
  obtain ⟨-, hspelled⟩ := job_logs_isolated sampleServices plainLibraries 0
    ([.job (.create firstId 5 .delivered sampleRequest),
      .job (.create secondId 6 .delivered sampleRequest)] : List (DeskStep Bool)) firstId .driver
    ⟨500, by decide⟩ [lineOf secondId, lineOf firstId]
  obtain ⟨-, hknown, hframe⟩ := hspelled firstId hread
  obtain ⟨-, entries, hanswer, -, hshows⟩ := hknown (by decide +kernel)
  exact ⟨⟨entries, hanswer, hshows⟩, hframe [lineOf firstId] rfl⟩

-- The answer has the one line of the job.
example :
    sampleServices.fetchJobLogs [lineOf secondId, lineOf firstId] firstId "driver"
        ⟨500, by decide⟩ =
      [⟨"7", "started", "driver", "INFO", firstId⟩] := by decide +kernel

end Services

end DataHarbour.System
