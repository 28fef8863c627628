import DataHarbour.Lineage.Reingestion
import DataHarbour.Lineage.RunStates

/-!
# Convergence of the lineage

Every event that is accepted adds its run, its datasets and its edges; nothing takes them away
again. What is stored in the end depends on which events were accepted, and neither on their
order nor on their number. Which events are accepted can depend on the order: the job name of an
event is stored, and checked, only when the event is the first of its run.
-/

namespace DataHarbour.Lineage

open Python Relational Machine Database

variable {platform : Platform} {db : Database}

/-! ## What is compared -/

namespace Database

/-- The ids of the stored runs. -/
def runIds (db : Database) : List Uuid := db.runs.rows.map LineageRun.runId

/-- The keys of the stored datasets. -/
def datasetKeys (db : Database) : List DatasetKey := db.datasets.rows.map LineageDataset.key

/-- The stored edges of one direction, from the run to the key of the dataset. -/
def edges (db : Database) (direction : Direction) : List (Uuid × DatasetKey) :=
  (db.links direction).rows.filterMap fun l =>
    (db.datasets.rows.find? (·.datasetId = l.datasetId)).map fun row => (l.runId, row.key)

end Database

/-- Two databases hold the same runs, datasets and edges. -/
structure SameLineage (db db' : Database) : Prop where
  runIds : ∀ id, id ∈ db.runIds ↔ id ∈ db'.runIds
  datasetKeys : ∀ key, key ∈ db.datasetKeys ↔ key ∈ db'.datasetKeys
  edges : ∀ direction edge, edge ∈ db.edges direction ↔ edge ∈ db'.edges direction

/-- No run, dataset or edge is stored twice. -/
structure StoredOnce (db : Database) : Prop where
  runIds : db.runIds.Nodup
  datasetKeys : db.datasetKeys.Nodup
  edges : ∀ direction, (db.edges direction).Nodup

/-- The events of a sequence that are accepted, from an empty database on. -/
def ingested (platform : Platform) (arrivals : List Arrival) : List OpenLineageEvent :=
  (taken (handle platform) (accepted platform) {} arrivals).map Arrival.event

/-! ## Reading edges back -/

private theorem mem_datasetKeys {key : DatasetKey} :
    key ∈ db.datasetKeys ↔ ∃ id, db.HasDataset key id := by
  simp [datasetKeys, HasDataset]

/-- The edges of the graph are those that the association tables list. -/
theorem mem_edges {runId : Uuid} {key : DatasetKey} {direction : Direction}
    (h : db.Consistent) : (runId, key) ∈ db.edges direction ↔ db.HasEdge runId key direction := by
  simp only [edges, List.mem_filterMap, Option.map_eq_some_iff, Prod.mk.injEq]
  constructor
  · rintro ⟨l, hl, row, hrow, rfl, rfl⟩
    have hid : row.datasetId = l.datasetId := by simpa using List.find?_some hrow
    exact ⟨l.datasetId, ⟨row, List.mem_of_find?_eq_some hrow, rfl, hid⟩, hl⟩
  · rintro ⟨id, hdataset, hl⟩
    refine ⟨_, hl, ?_⟩
    cases hfind : db.datasets.rows.find? (·.datasetId = id) with
    | none =>
      obtain ⟨row, hrow, -, hid⟩ := hdataset
      exact absurd hid (by simpa using List.find?_eq_none.mp hfind row hrow)
    | some row =>
      have hid : row.datasetId = id := by simpa using List.find?_some hfind
      have hrow : db.HasDataset row.key id := ⟨row, List.mem_of_find?_eq_some hfind, rfl, hid⟩
      exact ⟨row, rfl, rfl, h.key_unique hrow hdataset⟩

private theorem nodup_edges (db : Database) (direction : Direction) :
    (db.edges direction).Nodup := by
  have hlinks : (db.links direction).rows.Nodup := by
    simpa using (db.links direction).nodup
  refine hlinks.filterMap ?_
  intro l l' edge hl hl'
  obtain ⟨row, hrow, rfl⟩ := Option.map_eq_some_iff.mp hl
  obtain ⟨row', hrow', heq⟩ := Option.map_eq_some_iff.mp hl'
  obtain ⟨hrun, hkey⟩ := Prod.mk.inj heq
  have hid : row.datasetId = l.datasetId := by simpa using List.find?_some hrow
  have hid' : row'.datasetId = l'.datasetId := by simpa using List.find?_some hrow'
  have hsame := Table.eq_of_key_eq (List.mem_of_find?_eq_some hrow')
    (List.mem_of_find?_eq_some hrow) hkey
  cases l
  cases l'
  simp_all

private theorem storedOnce (db : Database) : StoredOnce db where
  runIds := db.runs.nodup
  datasetKeys := db.datasets.nodup
  edges := nodup_edges db

/-! ## What one request adds -/

/-- The event names a dataset with the key. -/
def NamesDataset (platform : Platform) (key : DatasetKey) (event : OpenLineageEvent) : Prop :=
  ∃ refs, storedRefs platform event = some refs ∧ ∃ ref ∈ refs, key = ref.2.key

/-- The event names the dataset on the given side of the run. -/
def NamesEdge (platform : Platform) (runId : Uuid) (key : DatasetKey) (direction : Direction)
    (event : OpenLineageEvent) : Prop :=
  ∃ refs, storedRefs platform event = some refs ∧
    ∃ ref ∈ refs, runId = event.run.runId ∧ key = ref.2.key ∧ direction = ref.1

private theorem hasDataset_foldl_put (uuids : UuidSource) (runId : Uuid) (key : DatasetKey)
    (refs : List (Direction × DatasetRef)) (db : Database) :
    (∃ id, (refs.foldl (put uuids runId) db).HasDataset key id) ↔
      (∃ id, db.HasDataset key id) ∨ ∃ ref ∈ refs, key = ref.2.key := by
  have hinv : Invariant (put uuids runId) fun _ => True := fun _ _ _ => trivial
  have hstep : ∀ db ref, True → ((∃ id, (put uuids runId db ref).HasDataset key id) ↔
      (∃ id, db.HasDataset key id) ∨ true = true ∧ key = ref.2.key) := by
    intro db ref _
    simp only [hasDataset_put, exists_or, exists_and_left, exists_eq, and_true, true_and]
  have hrun := holds_run_iff (fun _ _ => true) (fun db => ∃ id, db.HasDataset key id)
    (fun ref => key = ref.2.key) hinv hstep (s := db) trivial refs
  rwa [taken_true] at hrun

private theorem hasEdge_foldl_put_iff (uuids : UuidSource) (runId : Uuid) (h : db.Consistent)
    (runId' : Uuid) (key : DatasetKey) (direction : Direction)
    (refs : List (Direction × DatasetRef)) :
    (refs.foldl (put uuids runId) db).HasEdge runId' key direction ↔
      db.HasEdge runId' key direction ∨
        ∃ ref ∈ refs, runId' = runId ∧ key = ref.2.key ∧ direction = ref.1 := by
  have hinv : Invariant (put uuids runId) Consistent := fun _ _ h => h.put
  have hstep : ∀ db ref, db.Consistent → ((put uuids runId db ref).HasEdge runId' key direction ↔
      db.HasEdge runId' key direction ∨
        true = true ∧ runId' = runId ∧ key = ref.2.key ∧ direction = ref.1) := by
    intro db ref hdb
    rw [hasEdge_put_iff hdb, and_iff_right rfl]
  have hrun := holds_run_iff (fun _ _ => true) (fun db => db.HasEdge runId' key direction)
    (fun ref => runId' = runId ∧ key = ref.2.key ∧ direction = ref.1) hinv hstep h refs
  rwa [taken_true] at hrun

/-- The database stays consistent in every run. -/
theorem consistent_handle (platform : Platform) : Invariant (handle platform) Consistent := by
  intro db arrival h
  rcases handle_cases platform db arrival with ⟨-, hsame⟩ | ⟨-, hingest⟩
  · rw [hsame]
    exact h
  · obtain ⟨runs, refs, -, -, hdb⟩ := ingest_cases hingest
    rw [hdb]
    have hinv : Invariant (put arrival.uuids arrival.event.run.runId) Consistent :=
      fun _ _ h => h.put
    exact hinv.run h.runs refs

private theorem mem_runIds_upserted {event : OpenLineageEvent} {runs runs' : Table LineageRun.runId}
    (h : RunUpserted platform event runs runs') {id : Uuid} :
    id ∈ runs'.rows.map LineageRun.runId ↔
      id ∈ runs.rows.map LineageRun.runId ∨ id = event.run.runId := by
  cases h with
  | @inserted run hrun hfresh =>
    have hid := (records_insertedRun hrun).runId
    simp only [Table.insert, List.map_cons, List.mem_cons, hid, or_comm]
  | @updated existing run hexisting hrun =>
    have hid := (records_updatedRun (Table.key_of_find? hexisting) hrun).runId
    have hstored : event.run.runId ∈ runs.rows.map LineageRun.runId :=
      List.mem_map.mpr ⟨existing, Table.mem_of_find? hexisting, Table.key_of_find? hexisting⟩
    rw [Table.keys_set]
    exact ⟨.inl, fun h => h.elim (fun h => h) fun heq => heq ▸ hstored⟩

/-- A request adds what its event names, if it is accepted. -/
structure Adds (platform : Platform) (db : Database) (arrival : Arrival) (db' : Database) :
    Prop where
  runIds : ∀ id, id ∈ db'.runIds ↔
    id ∈ db.runIds ∨ accepted platform db arrival = true ∧ id = arrival.event.run.runId
  datasets : ∀ key, (∃ id, db'.HasDataset key id) ↔ (∃ id, db.HasDataset key id) ∨
    accepted platform db arrival = true ∧ NamesDataset platform key arrival.event
  edges : ∀ runId key direction, db'.HasEdge runId key direction ↔
    db.HasEdge runId key direction ∨
      accepted platform db arrival = true ∧ NamesEdge platform runId key direction arrival.event

private theorem adds_handle (h : db.Consistent) (arrival : Arrival) :
    Adds platform db arrival (handle platform db arrival) := by
  rcases handle_cases platform db arrival with ⟨hrejected, hsame⟩ | ⟨haccepted, hingest⟩
  · rw [hsame]
    constructor <;> simp [hrejected]
  · obtain ⟨runs, refs, hruns, hrefs, hdb⟩ := ingest_cases hingest
    have hnames : ∀ P : List (Direction × DatasetRef) → Prop,
        (∃ refs', storedRefs platform arrival.event = some refs' ∧ P refs') ↔ P refs := by
      intro P
      simp [hrefs]
    refine ⟨fun id => ?_, fun key => ?_, fun runId key direction => ?_⟩
    · rw [hdb, runIds, runs_foldl_put, mem_runIds_upserted hruns, haccepted, and_iff_right rfl]
      rfl
    · rw [hdb, hasDataset_foldl_put, haccepted, and_iff_right rfl, NamesDataset, hnames]
      rfl
    · rw [hdb, hasEdge_foldl_put_iff _ _ h.runs, haccepted, and_iff_right rfl,
        hasEdge_runs, NamesEdge, hnames]

/-! ## What a sequence of requests leaves -/

private theorem exists_taken_iff (P : OpenLineageEvent → Prop) (arrivals : List Arrival) :
    (∃ arrival ∈ taken (handle platform) (accepted platform) {} arrivals, P arrival.event) ↔
      ∃ event ∈ ingested platform arrivals, P event := by
  simp [ingested]

/-- The stored runs are those of the accepted events. -/
theorem mem_runIds_run (arrivals : List Arrival) (id : Uuid) :
    id ∈ (run (handle platform) {} arrivals).runIds ↔
      ∃ event ∈ ingested platform arrivals, id = event.run.runId := by
  rw [holds_run_iff (accepted platform) (fun db => id ∈ db.runIds)
    (fun arrival => id = arrival.event.run.runId) (consistent_handle platform)
    (fun _ arrival h => (adds_handle h arrival).runIds id) consistent_empty arrivals,
    exists_taken_iff fun event => id = event.run.runId]
  exact or_iff_right List.not_mem_nil

/-- The stored datasets are those that accepted events name. -/
theorem mem_datasetKeys_run (arrivals : List Arrival) (key : DatasetKey) :
    key ∈ (run (handle platform) {} arrivals).datasetKeys ↔
      ∃ event ∈ ingested platform arrivals, NamesDataset platform key event := by
  rw [mem_datasetKeys, holds_run_iff (accepted platform) (fun db => ∃ id, db.HasDataset key id)
    (fun arrival => NamesDataset platform key arrival.event) (consistent_handle platform)
    (fun _ arrival h => (adds_handle h arrival).datasets key) consistent_empty arrivals,
    exists_taken_iff (NamesDataset platform key), ← mem_datasetKeys]
  exact or_iff_right List.not_mem_nil

/-- The stored edges are those that accepted events name. -/
theorem mem_edges_run (arrivals : List Arrival) (runId : Uuid) (key : DatasetKey)
    (direction : Direction) : (runId, key) ∈ (run (handle platform) {} arrivals).edges direction ↔
      ∃ event ∈ ingested platform arrivals, NamesEdge platform runId key direction event := by
  have hconsistent := (consistent_handle platform).run consistent_empty arrivals
  rw [mem_edges hconsistent, holds_run_iff (accepted platform)
    (fun db => db.HasEdge runId key direction)
    (fun arrival => NamesEdge platform runId key direction arrival.event)
    (consistent_handle platform)
    (fun _ arrival h => (adds_handle h arrival).edges runId key direction) consistent_empty
    arrivals, exists_taken_iff (NamesEdge platform runId key direction),
    ← mem_edges consistent_empty]
  refine or_iff_right ?_
  cases direction <;> exact List.not_mem_nil

/-- **Lineage ingestion converges.** A repeated event changes nothing; two sequences of which
the same events are accepted, in whatever order and however often, lead to the same runs,
datasets and edges, each stored once. -/
theorem lineage_converges (platform : Platform) :
    (∀ (db : Database) (first second : Arrival), second.event = first.event →
      handle platform (handle platform db first) second = handle platform db first) ∧
    ∀ arrivals arrivals' : List Arrival,
      (∀ event, event ∈ ingested platform arrivals ↔ event ∈ ingested platform arrivals') →
      SameLineage (run (handle platform) {} arrivals) (run (handle platform) {} arrivals') ∧
        StoredOnce (run (handle platform) {} arrivals) ∧
        StoredOnce (run (handle platform) {} arrivals') := by
  refine ⟨fun db => handle_handle_self, fun arrivals arrivals' h => ?_⟩
  have hsame : ∀ P : OpenLineageEvent → Prop, (∃ event ∈ ingested platform arrivals, P event) ↔
      ∃ event ∈ ingested platform arrivals', P event := by
    intro P
    simp only [h]
  refine ⟨⟨fun id => ?_, fun key => ?_, fun direction edge => ?_⟩, storedOnce _, storedOnce _⟩
  · rw [mem_runIds_run, mem_runIds_run, hsame]
  · rw [mem_datasetKeys_run, mem_datasetKeys_run, hsame]
  · rw [mem_edges_run, mem_edges_run, hsame]

/-- Two events of one run, the second with datasets, in one order and in the other, with a
repetition. -/
theorem lineage_converges_reordered : SameLineage
    (run (handle samplePlatform) {} [runEvent "START" 10, jobEvent 1 "COMPLETE" 20])
    (run (handle samplePlatform) {}
      [jobEvent 1 "COMPLETE" 20, runEvent "START" 10, jobEvent 1 "COMPLETE" 20]) := by
  refine ((lineage_converges samplePlatform).2 _ _ fun event => ?_).1
  have hfirst : ingested samplePlatform [runEvent "START" 10, jobEvent 1 "COMPLETE" 20] =
      [(runEvent "START" 10).event, (jobEvent 1 "COMPLETE" 20).event] := rfl
  have hsecond : ingested samplePlatform
      [jobEvent 1 "COMPLETE" 20, runEvent "START" 10, jobEvent 1 "COMPLETE" 20] =
      [(jobEvent 1 "COMPLETE" 20).event, (runEvent "START" 10).event,
        (jobEvent 1 "COMPLETE" 20).event] := rfl
  rw [hfirst, hsecond]
  simp only [List.mem_cons, List.not_mem_nil, or_false]
  tauto

/-! ## A job name that does not fit -/

/-- An event whose job name is one character too long for its column. -/
def overlongEvent : Arrival :=
  ⟨{ eventType := "COMPLETE", eventTime := 20, run := { runId := 1 }
     job := { nameSpace := "spark", name := String.ofList (List.replicate 256 'x') }
     inputs := [{ nameSpace := "s3", name := "orders" }] }, countingUuids⟩

private theorem varchar_replicate {n m : ℕ} (h : n < m) :
    varchar n (String.ofList (List.replicate m 'x')) = none := by
  have hlength : ¬ m ≤ n := by omega
  have hrest : m - n ≠ 0 := by omega
  simp [varchar, hlength, hrest]

/-- The event is refused while its run is not stored. -/
theorem handle_overlongEvent : handle samplePlatform {} overlongEvent = {} := by
  have hname : varchar 255 overlongEvent.event.job.name = none := varchar_replicate (by decide)
  have hrow : insertedRun samplePlatform overlongEvent.event = none := by
    simp only [insertedRun, hname]
    rfl
  have hingest : ingest samplePlatform overlongEvent.uuids overlongEvent.event {} = none := by
    rw [ingest_eq, upsertRun, Table.find?_empty, hrow]
    rfl
  rw [handle, hingest]
  rfl

/-- The same two events lead to an edge in one order and to none in the other. -/
theorem refused_event_breaks_convergence :
    (∀ event, event ∈ [runEvent "START" 10, overlongEvent].map Arrival.event ↔
      event ∈ [overlongEvent, runEvent "START" 10].map Arrival.event) ∧
    ¬ SameLineage (run (handle samplePlatform) {} [runEvent "START" 10, overlongEvent])
      (run (handle samplePlatform) {} [overlongEvent, runEvent "START" 10]) := by
  refine ⟨fun event => ?_, fun h => ?_⟩
  · simp only [List.map_cons, List.map_nil, List.mem_cons, List.not_mem_nil, or_false]
    exact or_comm
  · have hedge := (h.edges .input (1, ("s3", "orders"))).mp List.mem_cons_self
    rw [run_cons, handle_overlongEvent] at hedge
    exact absurd hedge List.not_mem_nil

end DataHarbour.Lineage
