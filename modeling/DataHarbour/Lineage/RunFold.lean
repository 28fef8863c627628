import Mathlib.Data.List.Induction
import DataHarbour.Lineage.Convergence

/-!
# A run row as the fold of its events

The first event of a run goes through the insert path of `ingest` and every other one through
the update path. Both take a row that sums up the events so far to one that sums up one more;
events of other runs leave the row alone.
-/

namespace DataHarbour.Lineage

open Python Relational Machine

variable {platform : Platform} {event : OpenLineageEvent} {events : List OpenLineageEvent}

/-! ## What a row sums up -/

/-- The value of a facet in an event: a job facet comes before a run facet. -/
def OpenLineageEvent.facet? (event : OpenLineageEvent) (key : String) : Option Json :=
  (event.job.facets.get? key).or (event.run.facets.get? key)

/-- The id that an event gives for its job, if that is not empty. -/
def givenJobId (platform : Platform) (event : OpenLineageEvent) : Option String :=
  (extractDhpJobId platform event.mergedFacets).filter (· ≠ "")

/-- The time of the last event with a property. -/
def lastTime (p : OpenLineageEvent → Prop) [DecidablePred p] (events : List OpenLineageEvent) :
    Option Time :=
  (events.filter p).getLast?.map OpenLineageEvent.eventTime

/-- The column holds the first id that the events give, and no id if they give none. -/
structure JobIdOf (platform : Platform) (events : List OpenLineageEvent)
    (dhpJobId : Option String) : Prop where
  given : ∀ jobId, events.findSome? (givenJobId platform) = some jobId →
    ∃ stored, varchar 255 jobId = some stored ∧ dhpJobId = some stored
  missing : events.findSome? (givenJobId platform) = none → truthy dhpJobId = false

/-- Both are missing, or the second is what JSONB gives back for the first or compares equal to
it. -/
abbrev SameFacet (platform : Platform) : Option Json → Option Json → Prop :=
  Option.Rel fun v w => w = platform.jsonb v ∨ v.pyEq w = true

/-- The row is the fold of the events: its texts are those that the columns store, and its
facets are those of the events, as JSONB gives them back or as values that compare equal. -/
structure FoldOf (platform : Platform) (events : List OpenLineageEvent) (row : LineageRun) :
    Prop where
  job : ∃ first, events.head? = some first ∧
    varchar 255 first.job.nameSpace = some row.jobNamespace ∧
    varchar 255 first.job.name = some row.jobName
  state : ∃ last, events.getLast? = some last ∧
    varchar 32 (last.state platform) = some row.state
  startedAt : row.startedAt = lastTime (fun event => event.state platform = "START") events
  endedAt : row.endedAt = lastTime (OpenLineageEvent.isTerminal platform) events
  facets : ∀ key,
    SameFacet platform (events.filterMap (·.facet? key)).getLast? (row.facets.get? key)
  /-- The facets have been given back by JSONB. -/
  stored : row.facets.mapValues platform.jsonb = row.facets
  dhpJobId : JobIdOf platform events row.dhpJobId

private theorem lastTime_append (p : OpenLineageEvent → Prop) [DecidablePred p]
    (events : List OpenLineageEvent) (event : OpenLineageEvent) :
    lastTime p (events ++ [event]) =
      if p event then some event.eventTime else lastTime p events := by
  by_cases hp : p event <;> simp [lastTime, hp]

private theorem get?_mergedFacets (event : OpenLineageEvent) (key : String) :
    event.mergedFacets.get? key = event.facet? key :=
  Mapping.get?_merge ..

private theorem getLast?_facets_append (events : List OpenLineageEvent) (event : OpenLineageEvent)
    (key : String) : ((events ++ [event]).filterMap (·.facet? key)).getLast? =
      (event.facet? key).or (events.filterMap (·.facet? key)).getLast? := by
  cases hfacet : event.facet? key <;> simp [hfacet]

/-! ## The facets -/

/-- A facet that has just been written. -/
theorem sameFacet_jsonb (facet : Option Json) :
    SameFacet platform facet (facet.map platform.jsonb) := by
  cases facet with
  | none => exact .none
  | some v => exact .some (.inl rfl)

/-- Facets that compare equal to the merged ones hold equal values. -/
theorem exists_of_facetsKept {existing : LineageRun} (h : facetsKept existing event = true)
    {key : String} {v : Json} (hv : event.facet? key = some v) :
    ∃ w, existing.facets.get? key = some w ∧ v.pyEq w = true := by
  rw [facetsKept, Json.pyEq, Bool.and_eq_true, Json.pyEqEntries_iff] at h
  refine h.2 key List.not_mem_nil v ?_
  have hmerged : (existing.facets.merge event.mergedFacets).get? key = some v := by
    rw [Mapping.get?_merge, get?_mergedFacets, hv, Option.some_or]
  exact hmerged

private theorem sameFacet_updatedFacets {existing : LineageRun} {facets : Facets} {key : String}
    {last : Option Json} (hbefore : SameFacet platform last (existing.facets.get? key))
    (hstored : existing.facets.mapValues platform.jsonb = existing.facets)
    (h : updatedFacets platform existing event = some facets) :
    SameFacet platform ((event.facet? key).or last) (facets.get? key) := by
  unfold updatedFacets at h
  split at h
  · next hkept =>
    obtain rfl := Option.some.inj h
    cases hfacet : event.facet? key with
    | none => exact hbefore
    | some v =>
      obtain ⟨w, hw, heq⟩ := exists_of_facetsKept hkept hfacet
      rw [hw]
      exact .some (.inr heq)
  · obtain ⟨-, rfl⟩ := storedFacets_eq_some.mp h
    rw [Mapping.mapValues_merge, hstored, Mapping.get?_merge, Mapping.get?_mapValues,
      get?_mergedFacets]
    cases hfacet : event.facet? key with
    | none => exact hbefore
    | some v => exact sameFacet_jsonb (some v)

/-- The facets of a row stay as JSONB gives them back. -/
theorem stored_updatedFacets {existing : LineageRun} {facets : Facets}
    (hstored : existing.facets.mapValues platform.jsonb = existing.facets)
    (h : updatedFacets platform existing event = some facets) :
    facets.mapValues platform.jsonb = facets := by
  unfold updatedFacets at h
  split at h
  · obtain rfl := Option.some.inj h
    exact hstored
  · obtain ⟨-, rfl⟩ := storedFacets_eq_some.mp h
    exact Mapping.mapValues_mapValues platform.jsonb_jsonb _

/-! ## The job id -/

private theorem givenJobId_eq_some {jobId : String} : givenJobId platform event = some jobId ↔
    extractDhpJobId platform event.mergedFacets = some jobId ∧ jobId ≠ "" := by
  simp [givenJobId]

/-- An id that the column stores is empty only if it was. -/
theorem truthy_varchar {jobId stored : String} (h : varchar 255 jobId = some stored) :
    truthy (some stored) = true ↔ jobId ≠ "" := by
  rcases varchar_eq_some h with rfl | ⟨hlong, hcut⟩
  · simp [truthy]
  · have hstored : stored ≠ "" := by
      rintro rfl
      cases hcut
    have hjobId : jobId ≠ "" := by
      rintro rfl
      cases hlong
    simp [truthy, hstored, hjobId]

/-- The first id given is the one stored, as far as it fits the column. -/
theorem JobIdOf.of_given {jobId stored : String}
    (hgiven : events.findSome? (givenJobId platform) = some jobId)
    (hstored : varchar 255 jobId = some stored) : JobIdOf platform events (some stored) where
  given jobId' hjobId' := by
    obtain rfl := Option.some.inj (hgiven.symm.trans hjobId')
    exact ⟨stored, hstored, rfl⟩
  missing hnone := by
    rw [hgiven] at hnone
    cases hnone

/-- Without an id given the job id stays empty. -/
theorem JobIdOf.of_missing {dhpJobId : Option String}
    (hnone : events.findSome? (givenJobId platform) = none) (hfalsy : truthy dhpJobId = false) :
    JobIdOf platform events dhpJobId where
  given jobId hgiven := by
    rw [hnone] at hgiven
    cases hgiven
  missing _ := hfalsy

/-- An inserted run has the job id of its event. -/
theorem JobIdOf.inserted {dhpJobId : Option String}
    (h : insertedJobId platform event = some dhpJobId) : JobIdOf platform [event] dhpJobId := by
  rw [insertedJobId] at h
  cases hextract : extractDhpJobId platform event.mergedFacets with
  | none =>
    rw [hextract] at h
    obtain rfl := Option.some.inj h
    exact .of_missing (by simp [givenJobId, hextract]) rfl
  | some jobId =>
    rw [hextract] at h
    obtain ⟨stored, hstored, rfl⟩ := Option.map_eq_some_iff.mp h
    by_cases hempty : jobId = ""
    · have hfalsy := (truthy_varchar hstored).not.mpr (not_not.mpr hempty)
      exact .of_missing (by simp [givenJobId, hextract, hempty]) (by simpa using hfalsy)
    · have hgiven := givenJobId_eq_some.mpr ⟨hextract, hempty⟩
      exact .of_given (by simp [hgiven]) hstored

/-! What the update does, by the id that the event gives and the one that is stored. -/

private theorem updatedJobId_of_truthy {existing : LineageRun}
    (h : truthy existing.dhpJobId = true) :
    updatedJobId platform existing event = some existing.dhpJobId := by
  unfold updatedJobId
  split
  · simp [h]
  · rfl

private theorem updatedJobId_of_none {existing : LineageRun}
    (h : givenJobId platform event = none) :
    updatedJobId platform existing event = some existing.dhpJobId := by
  unfold updatedJobId
  split
  · next jobId hextract =>
    refine if_neg fun hset => ?_
    rw [givenJobId_eq_some.mpr ⟨hextract, hset.1⟩] at h
    cases h
  · rfl

private theorem updatedJobId_of_given {existing : LineageRun} {jobId : String}
    (h : givenJobId platform event = some jobId) (hfalsy : truthy existing.dhpJobId = false) :
    updatedJobId platform existing event = (varchar 255 jobId).map some := by
  obtain ⟨hextract, hnonempty⟩ := givenJobId_eq_some.mp h
  simp only [updatedJobId, hextract]
  exact if_pos ⟨hnonempty, hfalsy⟩

/-- An id that is stored stays; the first one given is stored. -/
theorem JobIdOf.updated {existing : LineageRun} {dhpJobId : Option String}
    (hbefore : JobIdOf platform events existing.dhpJobId)
    (h : updatedJobId platform existing event = some dhpJobId) :
    JobIdOf platform (events ++ [event]) dhpJobId := by
  have hfirst : (events ++ [event]).findSome? (givenJobId platform) =
      (events.findSome? (givenJobId platform)).or (givenJobId platform event) := by
    simp [List.findSome?_append]
  cases hgiven : events.findSome? (givenJobId platform) with
  | some jobId =>
    obtain ⟨stored, hstored, hexisting⟩ := hbefore.given jobId hgiven
    have hnonempty : jobId ≠ "" := by
      obtain ⟨_, -, hjobId⟩ := List.exists_of_findSome?_eq_some hgiven
      exact (givenJobId_eq_some.mp hjobId).2
    rw [updatedJobId_of_truthy (hexisting ▸ (truthy_varchar hstored).mpr hnonempty),
      hexisting] at h
    obtain rfl := Option.some.inj h
    exact .of_given (by rw [hfirst, hgiven, Option.some_or]) hstored
  | none =>
    have hfalsy := hbefore.missing hgiven
    rw [hgiven, Option.none_or] at hfirst
    cases hnew : givenJobId platform event with
    | some jobId =>
      rw [updatedJobId_of_given hnew hfalsy] at h
      obtain ⟨stored, hstored, rfl⟩ := Option.map_eq_some_iff.mp h
      exact .of_given (hfirst.trans hnew) hstored
    | none =>
      rw [updatedJobId_of_none hnew] at h
      obtain rfl := Option.some.inj h
      exact .of_missing (hfirst.trans hnew) hfalsy

/-! ## The insert path -/

/-- An inserted run is the fold of its event. -/
theorem FoldOf.inserted {run : LineageRun} (h : insertedRun platform event = some run) :
    FoldOf platform [event] run := by
  simp only [insertedRun, Option.bind_eq_bind, Option.bind_eq_some_iff] at h
  obtain ⟨jobNamespace, hnamespace, jobName, hname, dhpJobId, hjobId, state, hstate, facets,
    hfacets, hrun⟩ := h
  obtain rfl := Option.some.inj hrun
  obtain ⟨-, rfl⟩ := storedFacets_eq_some.mp hfacets
  refine ⟨⟨event, rfl, hnamespace, hname⟩, ⟨event, rfl, hstate⟩, ?_, ?_, ?_,
    Mapping.mapValues_mapValues platform.jsonb_jsonb _, .inserted hjobId⟩
  · exact (lastTime_append (fun event => event.state platform = "START") [] event).symm
  · exact (lastTime_append (OpenLineageEvent.isTerminal platform) [] event).symm
  · intro key
    have hlast := getLast?_facets_append [] event key
    rw [List.nil_append, List.filterMap_nil, List.getLast?_nil, Option.or_none] at hlast
    rw [hlast, Mapping.get?_mapValues, get?_mergedFacets]
    exact sameFacet_jsonb _

/-! ## The update path -/

/-- An updated run is the fold of the events so far and of the new one. -/
theorem FoldOf.updated {existing run : LineageRun} (hbefore : FoldOf platform events existing)
    (h : updatedRun platform existing event = some run) :
    FoldOf platform (events ++ [event]) run := by
  simp only [updatedRun, Option.bind_eq_bind, Option.bind_eq_some_iff] at h
  obtain ⟨state, hstate, dhpJobId, hjobId, facets, hfacets, hrun⟩ := h
  obtain rfl := Option.some.inj hrun
  obtain ⟨first, hfirst, hjob⟩ := hbefore.job
  have hstored : varchar 32 (event.state platform) = some state := by
    rcases updatedState_eq_some hstate with ⟨hsame, rfl⟩ | hstored
    · obtain ⟨last, -, hlast⟩ := hbefore.state
      rw [hsame]
      exact varchar_stored hlast
    · exact hstored
  refine ⟨⟨first, ?_, hjob⟩, ⟨event, List.getLast?_concat, hstored⟩, ?_, ?_, ?_,
    stored_updatedFacets hbefore.stored hfacets, hbefore.dhpJobId.updated hjobId⟩
  · rw [List.head?_append, hfirst, Option.some_or]
  · rw [lastTime_append, hbefore.startedAt]
  · rw [lastTime_append, hbefore.endedAt]
  · intro key
    rw [getLast?_facets_append]
    exact sameFacet_updatedFacets (hbefore.facets key) hbefore.stored hfacets

/-! ## One request -/

/-- The events sum up to the row of the run; a run without events is not stored. -/
def Folded (platform : Platform) (runId : Uuid) (runs : Table LineageRun.runId)
    (events : List OpenLineageEvent) : Prop :=
  match runs.find? runId with
  | some row => FoldOf platform events row
  | none => events = []

/-- An event is added to the fold of its run. -/
theorem Folded.upserted {runs runs' : Table LineageRun.runId}
    (hbefore : Folded platform event.run.runId runs events)
    (h : RunUpserted platform event runs runs') :
    Folded platform event.run.runId runs' (events ++ [event]) := by
  rw [Folded] at hbefore ⊢
  cases h with
  | @inserted run hrun hfresh =>
    have hid := (records_insertedRun hrun).runId
    rw [hid] at hfresh
    rw [hfresh] at hbefore
    rw [Table.find?_insert, if_pos hid, hbefore]
    exact .inserted hrun
  | @updated existing run hexisting hrun =>
    have hid := (records_updatedRun (Table.key_of_find? hexisting) hrun).runId
    rw [hexisting] at hbefore
    rw [Table.find?_set, if_pos hid, hexisting]
    exact hbefore.updated hrun

/-! ## Sequences of requests -/

/-- The ingested events of one run, in their order. -/
def eventsOf (platform : Platform) (runId : Uuid) (arrivals : List Arrival) :
    List OpenLineageEvent :=
  (ingested platform arrivals).filter fun event => event.run.runId = runId

private theorem eventsOf_append (runId : Uuid) (arrivals : List Arrival) (arrival : Arrival) :
    eventsOf platform runId (arrivals ++ [arrival]) = eventsOf platform runId arrivals ++
      if accepted platform (run (handle platform) {} arrivals) arrival = true ∧
        arrival.event.run.runId = runId then [arrival.event] else [] := by
  simp only [eventsOf, ingested, taken_append, List.map_append, List.filter_append]
  congr 1
  by_cases haccepted : accepted platform (run (handle platform) {} arrivals) arrival = true
  · by_cases hid : arrival.event.run.runId = runId <;> simp [taken, haccepted, hid]
  · simp [taken, haccepted]

/-- In every run each stored run is the fold of its accepted events. -/
theorem folded (platform : Platform) (runId : Uuid) (arrivals : List Arrival) :
    Folded platform runId (run (handle platform) {} arrivals).runs
      (eventsOf platform runId arrivals) := by
  induction arrivals using List.reverseRecOn with
  | nil => exact rfl
  | append_singleton arrivals arrival ih =>
    rw [run_append, run_cons, run_nil, eventsOf_append]
    generalize run (handle platform) {} arrivals = db at ih ⊢
    rcases handle_cases platform db arrival with ⟨hrejected, hsame⟩ | ⟨haccepted, hingest⟩
    · rw [hsame, if_neg (by simp [hrejected]), List.append_nil]
      exact ih
    · obtain ⟨runs, refs, hruns, -, hdb⟩ := ingest_cases hingest
      have hrows : (handle platform db arrival).runs = runs := by rw [hdb, runs_foldl_put]
      rw [hrows]
      by_cases hid : arrival.event.run.runId = runId
      · rw [if_pos ⟨haccepted, hid⟩]
        subst hid
        exact ih.upserted hruns
      · rw [if_neg fun h => hid h.2, List.append_nil, Folded, hruns.find?_of_ne hid]
        exact ih

/-- **A run row is the fold of its events.** After any sequence of requests to an empty
database, every run of which an event was ingested is stored, with the job of its first event,
the state of its last one, the times of its last `START` and its last terminal event, the last
value of each facet as JSONB gives it back or an equal one, and the first id given for its job. -/
theorem run_row_is_fold (platform : Platform) (arrivals : List Arrival) (runId : Uuid)
    (h : ∃ event ∈ ingested platform arrivals, event.run.runId = runId) :
    ∃ row, (run (handle platform) {} arrivals).runs.find? runId = some row ∧
      FoldOf platform
        ((ingested platform arrivals).filter fun event => event.run.runId = runId) row := by
  have hfolded := folded platform runId arrivals
  rw [Folded] at hfolded
  cases hfind : (run (handle platform) {} arrivals).runs.find? runId with
  | some row =>
    rw [hfind] at hfolded
    exact ⟨row, rfl, hfolded⟩
  | none =>
    rw [hfind] at hfolded
    obtain ⟨event, hevent, hid⟩ := h
    have hmem : event ∈ eventsOf platform runId arrivals :=
      List.mem_filter.mpr ⟨hevent, by simpa using hid⟩
    rw [hfolded] at hmem
    cases hmem

/-- A `START` event and a later `COMPLETE` event that gives an id and datasets. -/
theorem run_row_of_started_run :
    ∃ row, (run (handle samplePlatform) {}
        [runEvent "START" 10, jobEvent 1 "COMPLETE" 20]).runs.find? 1 = some row ∧
      FoldOf samplePlatform ((ingested samplePlatform
        [runEvent "START" 10, jobEvent 1 "COMPLETE" 20]).filter fun event => event.run.runId = 1)
        row :=
  run_row_is_fold samplePlatform _ 1 ⟨(runEvent "START" 10).event, List.mem_cons_self, rfl⟩

/-! ## What a row does not take up -/

/-- A text that fills a column, and a space. -/
def padded (n : ℕ) : String := String.ofList (List.replicate n 'X' ++ [' '])

/-- The text without the space. -/
def filled (n : ℕ) : String := String.ofList (List.replicate n 'X')

private theorem varchar_padded (n : ℕ) : varchar n (padded n) = some (filled n) := by
  simp [varchar, padded, filled]

private theorem filled_ne_padded (n : ℕ) : filled n ≠ padded n := by
  intro heq
  have hlength := congrArg String.length heq
  simp [filled, padded] at hlength

private theorem upper_padded (n : ℕ) : samplePlatform.upper (padded n) = padded n := by
  simp [samplePlatform, padded]

/-- An event whose texts are stored without their last character. -/
def paddedEvent : Arrival :=
  ⟨{ eventType := padded 32, eventTime := 20
     run := { runId := 1, facets := ⟨[("spark.applicationId", .str (padded 255))], by decide⟩ }
     job := { nameSpace := padded 255, name := padded 255 } }, countingUuids⟩

/-- The row of the event. -/
def cutRun : LineageRun where
  runId := 1
  jobNamespace := filled 255
  jobName := filled 255
  dhpJobId := some (filled 255)
  state := filled 32
  startedAt := if paddedEvent.event.state samplePlatform = "START" then some 20 else none
  endedAt := if paddedEvent.event.isTerminal samplePlatform then some 20 else none
  facets := paddedEvent.event.mergedFacets

private theorem insertedRun_paddedEvent :
    insertedRun samplePlatform paddedEvent.event = some cutRun := by
  have hupper : paddedEvent.event.state samplePlatform = padded 32 := upper_padded 32
  have hstate : varchar 32 (paddedEvent.event.state samplePlatform) = some (filled 32) := by
    rw [hupper, varchar_padded]
  have hextract : extractDhpJobId samplePlatform paddedEvent.event.mergedFacets =
      some (padded 255) := rfl
  have hjobId : insertedJobId samplePlatform paddedEvent.event = some (some (filled 255)) := by
    simp only [insertedJobId, hextract, varchar_padded, Option.map_some]
  have hnamespace : varchar 255 paddedEvent.event.job.nameSpace = some (filled 255) :=
    varchar_padded 255
  have hname : varchar 255 paddedEvent.event.job.name = some (filled 255) := varchar_padded 255
  simp only [insertedRun, hstate, hjobId, hnamespace, hname]
  rfl

private theorem ingest_paddedEvent : ingest samplePlatform paddedEvent.uuids paddedEvent.event {} =
    some { runs := ⟨[cutRun], List.nodup_singleton _⟩ } := by
  rw [ingest_eq, upsertRun, Table.find?_empty, insertedRun_paddedEvent]
  rfl

/-- An event that brings one facet. -/
def facetEvent (value : Json) : Arrival :=
  ⟨{ eventType := "RUNNING", eventTime := 10
     run := { runId := 1, facets := ⟨[("retried", value)], List.nodup_singleton _⟩ }
     job := { nameSpace := "spark", name := "etl" } }, countingUuids⟩

/-- A row has neither the job nor the state nor the id of its only event. Another one has not the
facet of its last event: `True` compares equal to `1`, so the flush does not write it. A third has
a facet that does not compare equal to that of its event: JSONB gives a float back as an integer. -/
theorem row_differs_from_its_events :
    (ingested samplePlatform [paddedEvent] = [paddedEvent.event] ∧
      ∃ row, (run (handle samplePlatform) {} [paddedEvent]).runs.find? 1 = some row ∧
        row.jobNamespace ≠ paddedEvent.event.job.nameSpace ∧
        row.jobName ≠ paddedEvent.event.job.name ∧
        row.state ≠ paddedEvent.event.state samplePlatform ∧
        row.dhpJobId ≠ extractDhpJobId samplePlatform paddedEvent.event.mergedFacets) ∧
    (ingested samplePlatform [facetEvent (.int 1), facetEvent (.bool true)] =
        [(facetEvent (.int 1)).event, (facetEvent (.bool true)).event] ∧
      ∃ row, (run (handle samplePlatform) {}
          [facetEvent (.int 1), facetEvent (.bool true)]).runs.find? 1 = some row ∧
        row.facets.get? "retried" = some (.int 1)) ∧
    ingested samplePlatform [facetEvent (.float largeFloat)] =
        [(facetEvent (.float largeFloat)).event] ∧
      ∃ row, (run (handle samplePlatform) {}
          [facetEvent (.float largeFloat)]).runs.find? 1 = some row ∧
        row.facets.get? "retried" = some (.int largeInt) ∧
        (Json.int largeInt).pyEq (.float largeFloat) = false := by
  refine ⟨⟨?_, cutRun, ?_, filled_ne_padded 255, filled_ne_padded 255, ?_, ?_⟩,
    ⟨rfl, _, rfl, rfl⟩, rfl, _, rfl, rfl, by decide⟩
  · simp [ingested, taken, accepted, ingest_paddedEvent]
  · rw [run_cons, run_nil, handle, ingest_paddedEvent]
    rfl
  · exact fun h => filled_ne_padded 32 (h.trans (upper_padded 32))
  · exact fun h => filled_ne_padded 255 (Option.some.inj h)

end DataHarbour.Lineage
