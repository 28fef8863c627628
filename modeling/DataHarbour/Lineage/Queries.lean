import DataHarbour.Lineage.Graph
import DataHarbour.Lineage.RunFold

/-!
# What the lineage queries answer

The runs of a job and the datasets around a dataset, after any requests to an empty database. The
first are told by the order in which runs were first seen and by the ids that their events give,
the second by the set of the ingested events alone.
-/

namespace DataHarbour.Lineage

open Relational Machine Database

/-! ## The runs of a job -/

/-- `runs_for_dhp_job`. New rows are put in front, so that the rows stand in the order that
`created_at DESC` asks for, as long as requests are handled one at a time. -/
def runsForDhpJob (db : Database) (dhpJobId : String) : List LineageRun :=
  db.runs.rows.filter (·.dhpJobId = some dhpJobId)

variable {platform : Platform}

/-- The first id that the events of a run give for its job, as the column stores it. -/
def firstJobId (platform : Platform) (events : List OpenLineageEvent) : Option String :=
  (events.findSome? (givenJobId platform)).bind (varchar 255)

/-- A run is seen with its first event; the latest run comes first. -/
theorem runIds_run (platform : Platform) (arrivals : List Arrival) :
    (run (handle platform) {} arrivals).runIds =
      ((ingested platform arrivals).map (·.run.runId)).reverse.dedup := by
  induction arrivals using List.reverseRecOn with
  | nil => rfl
  | append_singleton arrivals arrival ih =>
    rw [run_append, run_cons, run_nil]
    have hids : (ingested platform (arrivals ++ [arrival])).map (·.run.runId) =
        (ingested platform arrivals).map (·.run.runId) ++
          if accepted platform (run (handle platform) {} arrivals) arrival then
            [arrival.event.run.runId] else [] := by
      simp only [ingested, taken_append, List.map_append, taken]
      split <;> rfl
    rw [hids, List.reverse_append]
    generalize run (handle platform) {} arrivals = db at ih ⊢
    generalize (ingested platform arrivals).map (·.run.runId) = seen at ih ⊢
    rcases handle_cases platform db arrival with ⟨hrejected, hsame⟩ | ⟨haccepted, hingest⟩
    · rw [hsame, if_neg (by simp [hrejected])]
      exact ih
    · obtain ⟨runs, refs, hruns, -, hdb⟩ := ingest_cases hingest
      rw [if_pos haccepted, hdb, runIds, runs_foldl_put, List.reverse_singleton,
        List.singleton_append]
      have hmem : ∀ id, id ∈ db.runIds ↔ id ∈ seen.reverse := fun id => by
        rw [ih, List.mem_dedup]
      cases hruns with
      | @inserted row hrow hfresh =>
        have hid := (records_insertedRun hrow).runId
        have hnew : arrival.event.run.runId ∉ seen.reverse := by
          rw [← hmem, ← hid]
          exact Table.find?_eq_none_iff.mp hfresh
        rw [List.dedup_cons_of_notMem hnew, ← ih, ← hid]
        rfl
      | @updated existing row hexisting hrow =>
        have hold : arrival.event.run.runId ∈ seen.reverse :=
          (hmem _).mp (List.mem_map.mpr
            ⟨existing, Table.mem_of_find? hexisting, Table.key_of_find? hexisting⟩)
        rw [List.dedup_cons_of_mem hold, ← ih]
        exact Table.keys_set ..

/-- A stored run has the first id that its events give. -/
theorem dhpJobId_eq_iff {events : List OpenLineageEvent} {row : LineageRun} {dhpJobId : String}
    (h : FoldOf platform events row) (hnonempty : dhpJobId ≠ "") :
    row.dhpJobId = some dhpJobId ↔ firstJobId platform events = some dhpJobId := by
  rw [firstJobId]
  cases hgiven : events.findSome? (givenJobId platform) with
  | some jobId =>
    obtain ⟨stored, hstored, hrow⟩ := h.dhpJobId.given jobId hgiven
    rw [hrow, Option.bind_some, hstored]
  | none =>
    have hfalsy := h.dhpJobId.missing hgiven
    refine iff_of_false (fun hrow => ?_) (by simp)
    rw [hrow] at hfalsy
    simp [truthy, hnonempty] at hfalsy

/-- **The runs of a job.** After any requests to an empty database, `runs_for_dhp_job` answers
each run once whose events give the id of the job first, the run that was seen last in front. -/
theorem runs_of_job (platform : Platform) (arrivals : List Arrival) {dhpJobId : String}
    (hnonempty : dhpJobId ≠ "") :
    (runsForDhpJob (run (handle platform) {} arrivals) dhpJobId).map LineageRun.runId =
      ((ingested platform arrivals).map (·.run.runId)).reverse.dedup.filter fun runId =>
        firstJobId platform (eventsOf platform runId arrivals) = some dhpJobId := by
  rw [← runIds_run, runIds, runsForDhpJob, List.filter_map]
  congr 1
  refine List.filter_congr fun row hrow => ?_
  have hfolded := folded platform row.runId arrivals
  rw [Folded, Table.find?_of_mem hrow] at hfolded
  simp only [Function.comp_apply, dhpJobId_eq_iff hfolded hnonempty]

/-- A run whose second event gives the id of its job, and a later run of the job. -/
theorem runs_of_job_started :
    (runsForDhpJob (run (handle samplePlatform) {}
      [runEvent "START" 10, jobEvent 1 "COMPLETE" 20, jobEvent 2 "START" 30]) "job-1").map
        LineageRun.runId = [2, 1] :=
  (runs_of_job samplePlatform _ (by decide)).trans rfl

/-! ## The datasets around a dataset -/

section Graphs

variable {κ : Type} [LinearOrder κ] (collate : String → κ)

/-- `LineageGraphResponse`, without the facets of the root. -/
structure LineageGraphResponse where
  root : DatasetKey
  direction : Traversal
  nodes : List LineageNode

/-- `_graph`: the status and the detail of an error, or the graph; the depth bounds the rounds of
the recursive query. -/
def graphResponse (db : Database) (key : DatasetKey) (direction : Traversal) (maxDepth : ℕ) :
    Except (ℕ × String) LineageGraphResponse :=
  match db.datasets.find? key with
  | none => .error (404, "Dataset not found")
  | some root => .ok {
      root := root.key
      direction := direction
      nodes := (graph collate db key.1 key.2 direction maxDepth (maxDepth + 1)).getD [] }

variable {collate}

/-- Equal edges give equal answers. -/
theorem graph_congr {db db' : Database} {direction : Traversal} {maxDepth fuel : ℕ}
    (hcollate : Function.Injective collate) (hfuel : maxDepth < fuel) (key : DatasetKey)
    (hedges : ∀ key key', db.Edge direction key key' ↔ db'.Edge direction key key') :
    graph collate db key.1 key.2 direction maxDepth fuel =
      graph collate db' key.1 key.2 direction maxDepth fuel := by
  obtain ⟨nodes, hnodes, hmem, hnodup, hsorted⟩ :=
    graph_shortest_paths collate db key.1 key.2 direction hfuel
  obtain ⟨nodes', hnodes', hmem', hnodup', hsorted'⟩ :=
    graph_shortest_paths collate db' key.1 key.2 direction hfuel
  have hsame : db.Edge direction = db'.Edge direction :=
    funext fun key => funext fun key' => propext (hedges key key')
  rw [hnodes, hnodes', Option.some.injEq]
  refine List.Perm.eq_of_pairwise ?_ hsorted hsorted'
    ((List.perm_ext_iff_of_nodup hnodup.of_map hnodup'.of_map).mpr fun node => ?_)
  · -- the sort key tells nodes apart
    intro node node' _ _ hle hle'
    have hkey := le_antisymm hle hle'
    obtain ⟨hdepth, htexts⟩ := Prod.mk.inj (toLex.injective hkey)
    obtain ⟨hns, hname⟩ := Prod.mk.inj (toLex.injective htexts)
    cases node
    cases node'
    simp only at hdepth hns hname
    rw [hdepth, hcollate hns, hcollate hname]
  · rw [hmem, hmem', hsame]

/-- Databases with the same lineage have the same edges between datasets. -/
theorem SameLineage.edge_iff {db db' : Database} (h : SameLineage db db') (hdb : db.Consistent)
    (hdb' : db'.Consistent) (direction : Traversal) (key key' : DatasetKey) :
    db.Edge direction key key' ↔ db'.Edge direction key key' := by
  have hedge : ∀ runId key side, db.HasEdge runId key side ↔ db'.HasEdge runId key side := by
    intro runId key side
    rw [← mem_edges hdb, ← mem_edges hdb', h.edges]
  cases direction <;> simp only [Database.Edge, hedge]

/-- **The graph is that of the ingested events.** If the same events are ingested in two sequences
of requests, in whatever order and however often, then `_graph` finds the same datasets, in the
same order and at the same depths, from every root in every direction, or no root in both. -/
theorem graph_of_ingested (hcollate : Function.Injective collate) (platform : Platform)
    {arrivals arrivals' : List Arrival}
    (hsame : ∀ event, event ∈ ingested platform arrivals ↔ event ∈ ingested platform arrivals')
    (key : DatasetKey) (direction : Traversal) (maxDepth : ℕ) :
    graphResponse collate (run (handle platform) {} arrivals) key direction maxDepth =
      graphResponse collate (run (handle platform) {} arrivals') key direction maxDepth := by
  have hlineage : SameLineage (run (handle platform) {} arrivals)
      (run (handle platform) {} arrivals') := by
    have hevents : ∀ P : OpenLineageEvent → Prop, (∃ event ∈ ingested platform arrivals, P event) ↔
        ∃ event ∈ ingested platform arrivals', P event := by
      intro P
      simp only [hsame]
    refine ⟨fun id => ?_, fun key => ?_, fun side edge => ?_⟩
    · rw [mem_runIds_run, mem_runIds_run, hevents]
    · rw [mem_datasetKeys_run, mem_datasetKeys_run, hevents]
    · rw [mem_edges_run, mem_edges_run, hevents]
  have hgraph := graph_congr hcollate (Nat.lt_succ_self maxDepth) key
    (hlineage.edge_iff ((consistent_handle platform).run consistent_empty arrivals)
      ((consistent_handle platform).run consistent_empty arrivals') direction)
  have hroot := hlineage.datasetKeys key
  rw [datasetKeys, datasetKeys] at hroot
  simp only [graphResponse, hgraph]
  cases hfind : (run (handle platform) {} arrivals).datasets.find? key with
  | none =>
    rw [Table.find?_eq_none_iff.mpr (mt hroot.mpr (Table.find?_eq_none_iff.mp hfind))]
  | some root =>
    have hkey := Table.key_of_find? hfind
    have hstored := hroot.mp (hkey ▸ List.mem_map_of_mem (Table.mem_of_find? hfind))
    obtain ⟨root', hroot', hkey'⟩ := List.mem_map.mp hstored
    have hfind' : (run (handle platform) {} arrivals').datasets.find? key = some root' :=
      hkey' ▸ Table.find?_of_mem hroot'
    simp only [hfind', hkey, hkey']

/-- The same events in another order, one of them twice, answer the same graph. -/
theorem graph_of_ingested_reordered :
    graphResponse id (run (handle samplePlatform) {}
        [refreshingRun, runEvent "START" 10]) ("dhp", "raw") .downstream 5 =
      graphResponse id (run (handle samplePlatform) {}
        [runEvent "START" 10, refreshingRun, refreshingRun]) ("dhp", "raw") .downstream 5 := by
  refine graph_of_ingested Function.injective_id samplePlatform (fun event => ?_) _ _ _
  have hfirst : ingested samplePlatform [refreshingRun, runEvent "START" 10] =
      [refreshingRun.event, (runEvent "START" 10).event] := rfl
  have hsecond : ingested samplePlatform
      [runEvent "START" 10, refreshingRun, refreshingRun] =
      [(runEvent "START" 10).event, refreshingRun.event, refreshingRun.event] := rfl
  rw [hfirst, hsecond]
  simp only [List.mem_cons, List.not_mem_nil, or_false]
  tauto

end Graphs

end DataHarbour.Lineage
