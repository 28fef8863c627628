import DataHarbour.Machine.HighWaterMark
import Mathlib.Data.String.Basic

/-!
# Streaming of job logs

The endpoint polls Loki and forwards what is newer than the last entry that it forwarded. Loki
is asked for the newest entries first, and the entries of its streams stand one stream after
another. The conversion of times to text is a parameter.
-/

namespace DataHarbour.LogService

open Machine

/-- A stream of Loki's answer: labels, and pairs of a time in nanoseconds and a message. -/
structure LokiStream where
  labels : List (String × String)
  values : List (ℤ × String)

/-- A log entry as `query_logs` returns it. -/
structure LogEntry where
  timestamp : String
  message : String
  source : String
  level : String
  jobId : String
  deriving DecidableEq

/-- `labels.get(key, default)` -/
def label (labels : List (String × String)) (key fallback : String) : String :=
  (labels.lookup key).getD fallback

/-- What `query_logs` makes of Loki's answer; a failed request gives no entries. -/
def queryLogs (isoTime : ℤ → String) (jobId : String) : Option (List LokiStream) → List LogEntry
  | none => []
  | some results => results.flatMap fun stream => stream.values.map fun value =>
    { timestamp := isoTime value.1
      message := value.2
      source := label stream.labels "source" "unknown"
      level := label stream.labels "level" "INFO"
      jobId := label stream.labels "job_id" jobId }

/-- The loop over the entries of one poll: the last timestamp after it and the entries that it
forwards. -/
def forward : Option String → List LogEntry → Option String × List LogEntry
  | lastTimestamp, [] => (lastTimestamp, [])
  | lastTimestamp, log :: logs =>
    if lastTimestamp = none ∨ ∃ t ∈ lastTimestamp, t < log.timestamp then
      let (last, forwarded) := forward (some log.timestamp) logs
      (last, log :: forwarded)
    else forward lastTimestamp logs

/-- The entries that the generator yields over a series of polls. -/
def eventGenerator : Option String → List (List LogEntry) → List LogEntry
  | _, [] => []
  | lastTimestamp, logs :: polls =>
    let (last, forwarded) := forward lastTimestamp logs
    forwarded ++ eventGenerator last polls

/-- An event as the client receives it. -/
structure ServerEvent where
  event : String
  data : String

/-- The event of an entry. -/
def LogEntry.toEvent (log : LogEntry) : ServerEvent where
  event := "log"
  data := s!"[{log.timestamp}] [{log.source}] {log.message}"

/-- The events of a client that streams the logs of a job, given Loki's answers. -/
def streamJobLogs (isoTime : ℤ → String) (jobId : String)
    (answers : List (Option (List LokiStream))) : List ServerEvent :=
  (eventGenerator none (answers.map (queryLogs isoTime jobId))).map LogEntry.toEvent

/-- One poll is a scan with the last timestamp as its mark. -/
theorem forward_eq (lastTimestamp : Option String) (logs : List LogEntry) :
    forward lastTimestamp logs = (raised LogEntry.timestamp lastTimestamp logs,
      passed LogEntry.timestamp lastTimestamp logs) := by
  induction logs generalizing lastTimestamp with
  | nil => rfl
  | cons log logs ih =>
    have hiff : (lastTimestamp = none ∨ ∃ t ∈ lastTimestamp, t < log.timestamp) ↔
        Above lastTimestamp log.timestamp := by
      cases lastTimestamp with
      | none => simp
      | some t => simp
    by_cases hlog : Above lastTimestamp log.timestamp
    · rw [forward, if_pos (hiff.mpr hlog), ih, raised, if_pos hlog, passed, if_pos hlog]
    · rw [forward, if_neg (mt hiff.mp hlog), ih, raised, if_neg hlog, passed, if_neg hlog]

/-- The polls together are one scan. -/
theorem eventGenerator_eq (lastTimestamp : Option String) (polls : List (List LogEntry)) :
    eventGenerator lastTimestamp polls = passed LogEntry.timestamp lastTimestamp polls.flatten := by
  induction polls generalizing lastTimestamp with
  | nil => rfl
  | cons logs polls ih =>
    rw [eventGenerator, forward_eq, List.flatten_cons, passed_append]
    exact congrArg (passed LogEntry.timestamp lastTimestamp logs ++ ·) (ih _)

/-- No entry is yielded twice. -/
theorem count_eventGenerator_eq_one_iff {polls : List (List LogEntry)} {log : LogEntry} :
    (eventGenerator none polls).count log = 1 ↔ log ∈ eventGenerator none polls := by
  rw [eventGenerator_eq]
  constructor
  · intro hcount
    exact List.one_le_count_iff.mp hcount.ge
  · exact List.count_eq_one_of_mem (nodup_passed none polls.flatten)

/-- Every entry that is newer than all of the earlier polls is yielded exactly once if and only
if in each poll these entries stand in ascending order. -/
theorem new_entries_yielded_once_iff {isoTime : ℤ → String} {jobId : String}
    {answers : List (Option (List LokiStream))}
    (hdistinct : ∀ logs ∈ answers.map (queryLogs isoTime jobId), (logs.map (·.timestamp)).Nodup) :
    (∀ earlier logs later, answers.map (queryLogs isoTime jobId) = earlier ++ logs :: later →
      ∀ log ∈ logs, (∀ old ∈ earlier.flatten, old.timestamp < log.timestamp) →
        (eventGenerator none (answers.map (queryLogs isoTime jobId))).count log = 1) ↔
    ∀ earlier logs later, answers.map (queryLogs isoTime jobId) = earlier ++ logs :: later →
      (fresh LogEntry.timestamp earlier logs).Pairwise (·.timestamp < ·.timestamp) := by
  generalize answers.map (queryLogs isoTime jobId) = polls at hdistinct ⊢
  refine forall_congr' fun earlier => forall_congr' fun logs => forall_congr' fun later => ?_
  refine forall_congr' fun heq => ?_
  subst heq
  have hlogs : (logs.map LogEntry.timestamp).Nodup :=
    hdistinct logs (List.mem_append_right _ List.mem_cons_self)
  rw [← forall_fresh_mem_passed_iff later hlogs, ← eventGenerator_eq]
  constructor
  · intro h log hlog
    obtain ⟨hmem, hnew⟩ := mem_fresh.mp hlog
    exact count_eventGenerator_eq_one_iff.mp (h log hmem hnew)
  · intro h log hmem hnew
    exact count_eventGenerator_eq_one_iff.mpr (h log (mem_fresh.mpr ⟨hmem, hnew⟩))

/-- The text of two seconds. -/
def sampleIsoTime (ns : ℤ) : String :=
  if ns = 1778117025000000000 then "2026-05-07T01:23:45" else "2026-05-07T01:23:46"

/-- The answer with the entries of a stream. -/
def stdoutAnswer (values : List (ℤ × String)) : Option (List LokiStream) :=
  some [⟨[("source", "stdout"), ("job_id", "dhp-1")], values⟩]

/-- A log that has one more entry at the second poll. -/
def growingLog : List (Option (List LokiStream)) :=
  [stdoutAnswer [(1778117025000000000, "started")],
   stdoutAnswer [(1778117026000000000, "done"), (1778117025000000000, "started")]]

/-- The condition on the polls of a log that grows. -/
theorem new_entries_of_growing_log :
    (∀ earlier logs later,
      growingLog.map (queryLogs sampleIsoTime "dhp-1") = earlier ++ logs :: later →
        ∀ log ∈ logs, (∀ old ∈ earlier.flatten, old.timestamp < log.timestamp) →
          (eventGenerator none (growingLog.map (queryLogs sampleIsoTime "dhp-1"))).count log = 1) ↔
    ∀ earlier logs later,
      growingLog.map (queryLogs sampleIsoTime "dhp-1") = earlier ++ logs :: later →
        (fresh LogEntry.timestamp earlier logs).Pairwise (·.timestamp < ·.timestamp) :=
  new_entries_yielded_once_iff (by decide)

/-- Of two entries that one poll brings, newest first, the older one is lost. -/
theorem second_entry_of_poll_lost :
    ∃ older newer : LogEntry,
      [stdoutAnswer [(1778117026000000000, "done"), (1778117025000000000, "started")]].map
          (queryLogs sampleIsoTime "dhp-1") = [[newer, older]] ∧
        older.timestamp < newer.timestamp ∧
        (eventGenerator none ([stdoutAnswer [(1778117026000000000, "done"),
          (1778117025000000000, "started")]].map (queryLogs sampleIsoTime "dhp-1"))).count
            older = 0 := by
  refine ⟨_, _, rfl, ?_, ?_⟩
  · decide
  · decide

end DataHarbour.LogService
