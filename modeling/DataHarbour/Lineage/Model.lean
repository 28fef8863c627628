import Mathlib.Data.List.Nodup
import DataHarbour.Python.Dicts
import DataHarbour.Relational.Columns
import DataHarbour.Relational.Table
import DataHarbour.Machine.Runs

/-!
# The lineage service

`LineageService.ingest` stores an OpenLineage event: the run row, the datasets the event names
and the links between them. The statements of one ingest form a transaction, so an event whose
values do not fit their columns leaves nothing behind.
-/

namespace DataHarbour.Lineage

open Python Relational Machine

/-- Instants. -/
abbrev Time := ℕ

/-- A value drawn by `uuid4` or chosen by an emitter. -/
abbrev Uuid := ℕ

/-- Facets, as a `dict` and as a JSONB column. -/
abbrev Facets := Mapping

/-! ## Events -/

/-- `DatasetRef`. -/
structure DatasetRef where
  nameSpace : String
  name : String
  facets : Facets := Mapping.empty

/-- The natural key of a dataset. -/
abbrev DatasetKey := String × String

/-- The columns of `uq_lineage_dataset_ns_name`. -/
def DatasetRef.key (ds : DatasetRef) : DatasetKey := (ds.nameSpace, ds.name)

/-- `JobRef`. -/
structure JobRef where
  nameSpace : String
  name : String
  facets : Facets := Mapping.empty

/-- `RunRef`. -/
structure RunRef where
  runId : Uuid
  facets : Facets := Mapping.empty

/-- `OpenLineageEvent`; `producer` and the extra fields are not stored. -/
structure OpenLineageEvent where
  eventType : String
  eventTime : Time
  run : RunRef
  job : JobRef
  inputs : List DatasetRef := []
  outputs : List DatasetRef := []

/-! ## Tables -/

/-- A row of `lineage_runs`. -/
structure LineageRun where
  runId : Uuid
  jobNamespace : String
  jobName : String
  dhpJobId : Option String
  state : String
  startedAt : Option Time
  endedAt : Option Time
  facets : Facets

/-- A row of `lineage_datasets`. -/
structure LineageDataset where
  datasetId : Uuid
  nameSpace : String
  name : String
  facets : Facets

/-- The columns of `uq_lineage_dataset_ns_name`. -/
def LineageDataset.key (row : LineageDataset) : DatasetKey := (row.nameSpace, row.name)

/-- A row of `lineage_run_inputs` or `lineage_run_outputs`: the columns of its unique
constraint. -/
structure LineageLink where
  runId : Uuid
  datasetId : Uuid
  deriving DecidableEq

/-- The side of a run that a dataset stands on. -/
inductive Direction where
  | input
  | output
  deriving DecidableEq

/-- The tables of the service. -/
structure Database where
  runs : Table LineageRun.runId := Table.empty
  datasets : Table LineageDataset.key := Table.empty
  inputs : Table (id : LineageLink → LineageLink) := Table.empty
  outputs : Table (id : LineageLink → LineageLink) := Table.empty

namespace Database

/-- `LineageRunInput if direction == "input" else LineageRunOutput`. -/
def links (db : Database) : Direction → Table (id : LineageLink → LineageLink)
  | .input => db.inputs
  | .output => db.outputs

/-- The ids of the stored datasets. -/
def datasetIds (db : Database) : List Uuid := db.datasets.rows.map LineageDataset.datasetId

end Database

/-! ## Ingestion -/

/-- Python and Postgres, as far as the service sees them. -/
structure Platform where
  /-- `str.upper`. -/
  upper : String → String
  /-- `str(...)` of a JSON value. -/
  str : Json → String
  /-- The value as a JSONB column gives it back. Numbers are stored as decimals, so that `1e23`
  comes back as the integer `100000000000000000000000`. -/
  jsonb : Json → Json
  /-- What has been stored is given back as it is. -/
  jsonb_jsonb : ∀ v, jsonb (jsonb v) = jsonb v
  /-- Whether JSONB can hold the document; it refuses a null character in a text. -/
  acceptsJson : Facets → Bool
  /-- This depends only on what is stored. -/
  acceptsJson_jsonb : ∀ facets, acceptsJson (facets.mapValues jsonb) = acceptsJson facets
  /-- Whether a dataset with the key and the facets can be stored; an index entry must not be
  too large. -/
  acceptsDataset : DatasetRef → Bool

/-- The draws of `uuid4`, which never yield a stored id. -/
structure UuidSource where
  /-- The id drawn while these are stored. -/
  draw : List Uuid → Uuid
  /-- It is none of them. -/
  fresh : ∀ stored, draw stored ∉ stored

/-- `_TERMINAL_STATES`. -/
def terminalStates : List String := ["COMPLETE", "FAIL", "ABORT"]

section Ingest

variable (platform : Platform)

/-- The loop body of `_extract_dhp_job_id`: `v["job_id"]` of a facet that is a `dict`. -/
def facetJobId (facets : Facets) (key : String) : Option String :=
  match facets.get? key with
  | some (.obj entries) => (Dict.get? entries "job_id").map platform.str
  | _ => none

/-- `_extract_dhp_job_id`. -/
def extractDhpJobId (facets : Facets) : Option String :=
  match ["dhp", "spark.applicationId", "parent"].findSome? (facetJobId platform facets) with
  | some jobId => some jobId
  | none =>
    match facets.get? "spark.applicationId" with
    | some (.str appId) => some appId
    | _ => none

/-- `event.eventType.upper()`. -/
def OpenLineageEvent.state (event : OpenLineageEvent) : String := platform.upper event.eventType

/-- `is_terminal`. -/
def OpenLineageEvent.isTerminal (event : OpenLineageEvent) : Prop :=
  event.state platform ∈ terminalStates

instance (event : OpenLineageEvent) : Decidable (event.isTerminal platform) :=
  inferInstanceAs (Decidable (_ ∈ terminalStates))

/-- `merged_facets`. -/
def OpenLineageEvent.mergedFacets (event : OpenLineageEvent) : Facets :=
  event.run.facets.merge event.job.facets

/-- The `dhp_job_id` column of a new row. -/
def insertedJobId (event : OpenLineageEvent) : Option (Option String) :=
  match extractDhpJobId platform event.mergedFacets with
  | some jobId => (varchar 255 jobId).map some
  | none => some none

/-- A document as a JSONB column gives it back, `none` if it refuses it. -/
def storedFacets (facets : Facets) : Option Facets :=
  if platform.acceptsJson facets then some (facets.mapValues platform.jsonb) else none

/-- The row inserted for a run that is not stored. -/
def insertedRun (event : OpenLineageEvent) : Option LineageRun := do
  let jobNamespace ← varchar 255 event.job.nameSpace
  let jobName ← varchar 255 event.job.name
  let dhpJobId ← insertedJobId platform event
  let state ← varchar 32 (event.state platform)
  let facets ← storedFacets platform event.mergedFacets
  some {
    runId := event.run.runId, jobNamespace, jobName, dhpJobId, state, facets
    startedAt := if event.state platform = "START" then some event.eventTime else none
    endedAt := if event.isTerminal platform then some event.eventTime else none }

/-- `if x`: neither `None` nor the empty string. -/
def truthy (x : Option String) : Bool := x.any (· ≠ "")

/-- `if dhp_job_id and not existing.dhp_job_id`. -/
def updatedJobId (existing : LineageRun) (event : OpenLineageEvent) : Option (Option String) :=
  match extractDhpJobId platform event.mergedFacets with
  | some jobId =>
    if jobId ≠ "" ∧ truthy existing.dhpJobId = false then (varchar 255 jobId).map some
    else some existing.dhpJobId
  | none => some existing.dhpJobId

/-- The `state` column after `existing.state = event.eventType.upper()` and the flush, which
writes a column only if its value compares different from the loaded one. -/
def updatedState (existing : LineageRun) (event : OpenLineageEvent) : Option String :=
  if event.state platform = existing.state then some existing.state
  else varchar 32 (event.state platform)

/-- `{**existing.facets, **merged_facets}` compares equal to `existing.facets`. -/
def facetsKept (existing : LineageRun) (event : OpenLineageEvent) : Bool :=
  (Json.obj (existing.facets.merge event.mergedFacets).entries).pyEq (.obj existing.facets.entries)

/-- The `facets` column after `existing.facets = {**existing.facets, **merged_facets}` and the
flush. -/
def updatedFacets (existing : LineageRun) (event : OpenLineageEvent) : Option Facets :=
  if facetsKept existing event then some existing.facets
  else storedFacets platform (existing.facets.merge event.mergedFacets)

/-- The row of a stored run after the event. -/
def updatedRun (existing : LineageRun) (event : OpenLineageEvent) : Option LineageRun := do
  let state ← updatedState platform existing event
  let dhpJobId ← updatedJobId platform existing event
  let facets ← updatedFacets platform existing event
  some { existing with
    state, dhpJobId, facets
    startedAt :=
      if event.state platform = "START" then some event.eventTime else existing.startedAt
    endedAt := if event.isTerminal platform then some event.eventTime else existing.endedAt }

/-- The first part of `ingest`: the run row. -/
def upsertRun (event : OpenLineageEvent) (db : Database) : Option Database :=
  match db.runs.find? event.run.runId with
  | some existing => (updatedRun platform existing event).map fun run =>
      { db with runs := db.runs.set run }
  | none => do
    let run ← insertedRun platform event
    let runs ← db.runs.insert? run
    some { db with runs }

/-- The values of the `INSERT` into `lineage_datasets`, as its columns take them. -/
def storedRef (ds : DatasetRef) : Option DatasetRef := do
  let nameSpace ← varchar 512 ds.nameSpace
  let name ← varchar 1024 ds.name
  guard (platform.acceptsDataset ds)
  some { nameSpace, name, facets := ds.facets.mapValues platform.jsonb }

/-- The statement of `_upsert_dataset`, with the id that it returns. -/
def putDataset (uuids : UuidSource) (ds : DatasetRef) (db : Database) : Uuid × Database :=
  let row : LineageDataset :=
    ⟨uuids.draw db.datasetIds, ds.nameSpace, ds.name, ds.facets⟩
  let datasets := db.datasets.upsert row fun old =>
    { old with facets := old.facets.merge ds.facets }
  (((db.datasets.find? ds.key).getD row).datasetId, { db with datasets })

/-- `_upsert_dataset`. -/
def upsertDataset (uuids : UuidSource) (ds : DatasetRef) (db : Database) :
    Option (Uuid × Database) :=
  (storedRef platform ds).map fun ds => putDataset uuids ds db

/-- `_link`. -/
def link (runId datasetId : Uuid) (direction : Direction) (db : Database) : Database :=
  match direction with
  | .input => { db with inputs := db.inputs.insertIfNew ⟨runId, datasetId⟩ }
  | .output => { db with outputs := db.outputs.insertIfNew ⟨runId, datasetId⟩ }

/-- The loop body over `event.inputs` and `event.outputs`. -/
def ingestDataset (uuids : UuidSource) (runId : Uuid) (direction : Direction) (db : Database)
    (ds : DatasetRef) : Option Database :=
  (upsertDataset platform uuids ds db).map fun (datasetId, db) =>
    link runId datasetId direction db

/-- `ingest`: the database after the transaction, `none` if a statement fails. -/
def ingest (uuids : UuidSource) (event : OpenLineageEvent) (db : Database) :
    Option Database := do
  let db ← upsertRun platform event db
  let db ← event.inputs.foldlM (ingestDataset platform uuids event.run.runId .input) db
  event.outputs.foldlM (ingestDataset platform uuids event.run.runId .output) db

/-- An event posted to the service, with the ids that its transaction draws. -/
structure Arrival where
  event : OpenLineageEvent
  uuids : UuidSource

/-- The request handler: `get_db` commits the transaction or rolls it back. -/
def handle (db : Database) (arrival : Arrival) : Database :=
  (ingest platform arrival.uuids arrival.event db).getD db

/-- The request succeeds. -/
def accepted (db : Database) (arrival : Arrival) : Bool :=
  (ingest platform arrival.uuids arrival.event db).isSome

end Ingest

end DataHarbour.Lineage
