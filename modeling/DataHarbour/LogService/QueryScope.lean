import DataHarbour.LogQL.Selectors

/-!
# The scope of a log query

`query_logs` puts the job id of the URL and the source of the query string between double quotes
as they are. The query selects the streams of the job exactly if both are plain texts.
-/

namespace DataHarbour.LogService

open LogQL Text

/-- The LogQL query of `query_logs`. -/
def lokiQuery (jobId source : String) : String :=
  if source = "all" then "\x7bjob_id=\"" ++ jobId ++ "\"\x7d"
  else "\x7bjob_id=\"" ++ jobId ++ "\", source=\"" ++ source ++ "\"\x7d"

/-- The matchers that the query for a job and a source is to have. -/
def scope (jobId source : String) : List Matcher :=
  if source = "all" then [equals "job_id" jobId]
  else [equals "job_id" jobId, equals "source" source]

private theorem isLabel_job_id : IsLabel "job_id" := ⟨by decide, by decide⟩

private theorem isLabel_source : IsLabel "source" := ⟨by decide, by decide⟩

/-- **Log queries stay scoped to their job.** The query is read as a stream selector with exactly
the matchers that are meant, and no pipeline, if and only if the job id and the source (unless
that is `all`) are plain: no double quote, no backslash, only characters that a literal may hold
as they are. -/
theorem query_scoped_iff (bare : Char → Bool) (jobId source : String) :
    readSelector bare (lokiQuery jobId source) = some (scope jobId source) ↔
      Plain bare jobId.toList ∧ (source ≠ "all" → Plain bare source.toList) := by
  by_cases hall : source = "all"
  · have hquery : (lokiQuery jobId source).toList =
        '{' :: matcherText "job_id" jobId (remaining []) := by
      simp [lokiQuery, hall, matcherText, remaining]
    rw [scope, if_pos hall]
    refine (readSelector_iff isLabel_job_id (List.forall_mem_nil _) hquery).trans ?_
    exact and_congr_right fun _ => iff_of_true (List.forall_mem_nil _) (absurd hall)
  · have hquery : (lokiQuery jobId source).toList =
        '{' :: matcherText "job_id" jobId (remaining [("source", source)]) := by
      simp [lokiQuery, hall, matcherText, remaining]
    rw [scope, if_neg hall]
    refine (readSelector_iff isLabel_job_id ?_ hquery).trans ?_
    · exact List.forall_mem_singleton.mpr isLabel_source
    · rw [List.forall_mem_singleton, imp_iff_right hall]

/-- A job id with a double quote reads the streams that belong to no job. -/
theorem query_leaves_job :
    readSelector (· ≠ '\n') (lokiQuery "\", source=~\".+" "all") =
        some [equals "job_id" "", ⟨"source", .regexMatch, utf8 ".+"⟩] ∧
      readSelector (· ≠ '\n') (lokiQuery "\", source=~\".+" "all") ≠
        some (scope "\", source=~\".+" "all") := by
  decide

end DataHarbour.LogService
