import DataHarbour.Lineage.Convergence
import DataHarbour.Machine.LockedPairs

/-!
# Concurrent ingests

The transactions of two requests under READ COMMITTED. The run row is selected without a lock,
then inserted or updated; the datasets are upserted in the order of the event. An inserted key
and an updated row stay locked until the end of the transaction, and what a transaction has
written becomes visible with its commit.

A link needs no lock of its own: its transaction holds the lock of the dataset.
-/

namespace DataHarbour.Lineage

open Python Relational Machine Database Locking

variable {platform : Platform} {event : OpenLineageEvent} {existing : LineageRun}
  {db : Database}

/-! ## The statements of an ingest -/

/-- `existing.dhp_job_id` is assigned. -/
def setsJobId (platform : Platform) (existing : LineageRun) (event : OpenLineageEvent) : Bool :=
  match extractDhpJobId platform event.mergedFacets with
  | some jobId => jobId ≠ "" ∧ truthy existing.dhpJobId = false
  | none => false

/-- The flush finds a column whose value compares different from the loaded one. -/
def RunChanged (platform : Platform) (existing : LineageRun) (event : OpenLineageEvent) : Prop :=
  event.state platform ≠ existing.state ∨
  (event.state platform = "START" ∧ existing.startedAt ≠ some event.eventTime) ∨
  (event.isTerminal platform ∧ existing.endedAt ≠ some event.eventTime) ∨
  facetsKept existing event = false ∨ setsJobId platform existing event = true

instance (platform : Platform) (existing : LineageRun) (event : OpenLineageEvent) :
    Decidable (RunChanged platform existing event) :=
  inferInstanceAs (Decidable (_ ∨ _ ∨ _ ∨ _ ∨ _))

/-- The statements that follow the `SELECT` of the run row. -/
inductive IngestStatement where
  | insertRun
  | updateRun
  | upsertDataset (ds : DatasetRef)
  | link (direction : Direction) (ds : DatasetRef)

/-- The datasets of an event with their sides, in the order in which `ingest` handles them. -/
def OpenLineageEvent.datasets (event : OpenLineageEvent) : List (Direction × DatasetRef) :=
  event.inputs.map (Prod.mk .input) ++ event.outputs.map (Prod.mk .output)

/-- The statement of the run row: an `INSERT`, or an `UPDATE` if there is something to write. -/
def runStatements (platform : Platform) (event : OpenLineageEvent) :
    Option LineageRun → List IngestStatement
  | none => [.insertRun]
  | some existing => if RunChanged platform existing event then [.updateRun] else []

/-- The statements of a transaction that has read the run row. -/
def ingestStatements (platform : Platform) (event : OpenLineageEvent)
    (read : Option LineageRun) : List IngestStatement :=
  runStatements platform event read ++
    event.datasets.flatMap fun ref => [.upsertDataset ref.2, .link ref.1 ref.2]

/-- What a statement locks until the end of its transaction. -/
inductive RowLock where
  | run (runId : Uuid)
  | dataset (key : DatasetKey)
  deriving DecidableEq

/-- The row that a statement locks. -/
def statementLock (platform : Platform) (event : OpenLineageEvent) :
    IngestStatement → Option RowLock
  | .insertRun | .updateRun => some (.run event.run.runId)
  | .upsertDataset ds => (storedRef platform ds).map fun ds => .dataset ds.key
  | .link _ _ => none

/-- The row of the run after the event, if its values fit the columns. -/
def runAfter (platform : Platform) (event : OpenLineageEvent) :
    Option LineageRun → Option LineageRun
  | none => insertedRun platform event
  | some existing => updatedRun platform existing event

/-- The statement succeeds, given that it does not have to wait. An `INSERT` of a run fails on
a row that another transaction has committed since the `SELECT`. -/
def statementSucceeds (platform : Platform) (event : OpenLineageEvent) (read : Option LineageRun)
    (db : Database) : IngestStatement → Bool
  | .insertRun => (runAfter platform event read).isSome && (db.runs.find? event.run.runId).isNone
  | .updateRun => (runAfter platform event read).isSome
  | .upsertDataset ds => (storedRef platform ds).isSome
  | .link _ _ => true

/-- The columns that an `UPDATE` leaves or writes in the current row. -/
def flushed (platform : Platform) (event : OpenLineageEvent) (existing new current : LineageRun) :
    LineageRun :=
  { current with
    state := if event.state platform = existing.state then current.state else new.state
    dhpJobId := if setsJobId platform existing event then new.dhpJobId else current.dhpJobId
    startedAt := if new.startedAt = existing.startedAt then current.startedAt else new.startedAt
    endedAt := if new.endedAt = existing.endedAt then current.endedAt else new.endedAt
    facets := if facetsKept existing event then current.facets else new.facets }

/-- The runs after the statement of the run row. -/
def flushedRuns (platform : Platform) (event : OpenLineageEvent) (read : Option LineageRun)
    (runs : Table LineageRun.runId) : Table LineageRun.runId :=
  match runAfter platform event read with
  | none => runs
  | some new =>
    match read with
    | none => runs.insertIfNew new
    | some existing =>
      match runs.find? event.run.runId with
      | none => runs
      | some current => runs.set (flushed platform event existing new current)

/-- The transaction of a request. -/
def ingestTransaction (platform : Platform) (arrival : Arrival) :
    Locking.Transaction Database (Option LineageRun) IngestStatement RowLock where
  read db := db.runs.find? arrival.event.run.runId
  statements := ingestStatements platform arrival.event
  lock := statementLock platform arrival.event
  succeeds := statementSucceeds platform arrival.event
  commit read db :=
    match storedRefs platform arrival.event with
    | some refs => refs.foldl (put arrival.uuids arrival.event.run.runId)
        { db with runs := flushedRuns platform arrival.event read db.runs }
    | none => db

/-! ## The run row -/

private theorem setsJobId_iff : setsJobId platform existing event = true ↔
    ∃ jobId, extractDhpJobId platform event.mergedFacets = some jobId ∧ jobId ≠ "" ∧
      truthy existing.dhpJobId = false := by
  unfold setsJobId
  cases extractDhpJobId platform event.mergedFacets <;> simp

private theorem updatedJobId_of_kept (h : setsJobId platform existing event = false) :
    updatedJobId platform existing event = some existing.dhpJobId := by
  rw [Bool.eq_false_iff, ne_eq, setsJobId_iff] at h
  unfold updatedJobId
  split
  · next jobId hextract => exact if_neg fun hset => h ⟨jobId, hextract, hset⟩
  · rfl

/-- An event that changes no column needs no `UPDATE`. -/
theorem updatedRun_of_unchanged (h : ¬ RunChanged platform existing event) :
    updatedRun platform existing event = some existing := by
  simp only [RunChanged, not_or, not_and, not_not, Bool.not_eq_true, Bool.not_eq_false] at h
  obtain ⟨hstate, hstarted, hended, hfacets, hjobId⟩ := h
  exact updatedRun_eq_self (if_pos hstate) (updatedJobId_of_kept hjobId) (if_pos hfacets)
    hstarted hended

/-- An `UPDATE` of the row that was read writes the row of the event. -/
theorem flushed_self {new : LineageRun} (h : updatedRun platform existing event = some new) :
    flushed platform event existing new existing = new := by
  simp only [updatedRun, Option.bind_eq_bind, Option.bind_eq_some_iff] at h
  obtain ⟨state, hstate, dhpJobId, hjobId, facets, hfacets, hnew⟩ := h
  obtain rfl := Option.some.inj hnew
  have hstate' : (if event.state platform = existing.state then existing.state else state) =
      state := by
    unfold updatedState at hstate
    split at hstate
    · next hsame => rw [if_pos hsame, Option.some.inj hstate]
    · next hne => rw [if_neg hne]
  have hjobId' : (if setsJobId platform existing event then dhpJobId else existing.dhpJobId) =
      dhpJobId := by
    cases hset : setsJobId platform existing event with
    | true => rfl
    | false => exact Option.some.inj ((updatedJobId_of_kept hset).symm.trans hjobId)
  have hfacets' : (if facetsKept existing event then existing.facets else facets) = facets := by
    unfold updatedFacets at hfacets
    split at hfacets
    · next hkept => rw [if_pos hkept, Option.some.inj hfacets]
    · next hne => rw [if_neg hne]
  have htime (loaded written : Option Time) :
      (if written = loaded then loaded else written) = written := by
    split
    · next heq => exact heq.symm
    · rfl
  simp only [flushed, hstate', hjobId', hfacets', htime]

private theorem runId_runAfter {read : Option LineageRun} {new : LineageRun}
    (hread : ∀ existing, read = some existing → existing.runId = event.run.runId)
    (h : runAfter platform event read = some new) : new.runId = event.run.runId := by
  cases read with
  | none => exact (records_insertedRun h).runId
  | some existing => exact (records_updatedRun (hread existing rfl) h).runId

/-- A transaction that runs alone writes the run row as `ingest` does. -/
theorem upsertRun_eq {new : LineageRun}
    (h : runAfter platform event (db.runs.find? event.run.runId) = some new) :
    upsertRun platform event db = some { db with
      runs := flushedRuns platform event (db.runs.find? event.run.runId) db.runs } := by
  cases hread : db.runs.find? event.run.runId with
  | none =>
    rw [hread] at h
    have hid := runId_runAfter (fun _ hread => by cases hread) h
    have hfresh : db.runs.find? new.runId = none := hid ▸ hread
    have hnew : insertedRun platform event = some new := h
    have hruns : flushedRuns platform event none db.runs = db.runs.insert new hfresh := by
      simp only [flushedRuns, h, Table.insertIfNew_of_fresh hfresh]
    simp only [upsertRun, hread, hruns, hnew, Option.bind_eq_bind, Option.bind_some,
      Table.insert?_of_fresh hfresh]
  | some existing =>
    rw [hread] at h
    have hnew : updatedRun platform existing event = some new := h
    have hruns : flushedRuns platform event (some existing) db.runs = db.runs.set new := by
      simp only [flushedRuns, h, hread, flushed_self hnew]
    simp only [upsertRun, hread, hruns, hnew, Option.map_some]

/-- The values of the event fit their columns, for a transaction that has read the run row. -/
structure Storable (platform : Platform) (read : Option LineageRun) (event : OpenLineageEvent) :
    Prop where
  run : (runAfter platform event read).isSome = true
  datasets : ∀ ref ∈ event.datasets, (storedRef platform ref.2).isSome = true

private theorem mapM_storedRef_isSome (refs : List DatasetRef) :
    (refs.mapM (storedRef platform)).isSome = true ↔
      ∀ ds ∈ refs, (storedRef platform ds).isSome = true := by
  induction refs with
  | nil => simp
  | cons ds refs ih =>
    rw [List.mapM_cons]
    simp only [List.forall_mem_cons, ← ih]
    cases storedRef platform ds <;> cases refs.mapM (storedRef platform) <;> simp

private theorem storedRefs_isSome : (storedRefs platform event).isSome = true ↔
    ∀ ref ∈ event.datasets, (storedRef platform ref.2).isSome = true := by
  have hdatasets : (∀ ref ∈ event.datasets, (storedRef platform ref.2).isSome = true) ↔
      (event.inputs.mapM (storedRef platform)).isSome = true ∧
        (event.outputs.mapM (storedRef platform)).isSome = true := by
    rw [mapM_storedRef_isSome, mapM_storedRef_isSome, OpenLineageEvent.datasets,
      List.forall_mem_append, List.forall_mem_map, List.forall_mem_map]
  rw [hdatasets, storedRefs]
  cases event.inputs.mapM (storedRef platform) <;>
    cases event.outputs.mapM (storedRef platform) <;> simp

/-- The row of the run of a request. -/
def runOf (db : Database) (arrival : Arrival) : Option LineageRun :=
  db.runs.find? arrival.event.run.runId

/-- A transaction that runs alone does what `ingest` does. -/
theorem ingest_eq_commit {arrival : Arrival}
    (h : Storable platform (runOf db arrival) arrival.event) :
    ingest platform arrival.uuids arrival.event db =
      some ((ingestTransaction platform arrival).commit (runOf db arrival) db) := by
  obtain ⟨new, hnew⟩ := Option.isSome_iff_exists.mp h.run
  obtain ⟨refs, hrefs⟩ := Option.isSome_iff_exists.mp (storedRefs_isSome.mpr h.datasets)
  rw [ingest_eq, upsertRun_eq hnew, Option.bind_some, hrefs, Option.map_some, ingestTransaction,
    hrefs]
  rfl

private theorem find?_flushedRuns {runs : Table LineageRun.runId} {new : LineageRun}
    (h : runAfter platform event (runs.find? event.run.runId) = some new) (runId : Uuid) :
    (flushedRuns platform event (runs.find? event.run.runId) runs).find? runId =
      if event.run.runId = runId then some new else runs.find? runId := by
  cases hread : runs.find? event.run.runId with
  | none =>
    rw [hread] at h
    have hid := runId_runAfter (fun _ hread => by cases hread) h
    have hfresh : runs.find? new.runId = none := hid ▸ hread
    simp only [flushedRuns, h, Table.insertIfNew_of_fresh hfresh, Table.find?_insert, hid]
  | some existing =>
    rw [hread] at h
    have hid := runId_runAfter (fun existing hread' => by
      rw [← Option.some.inj hread']
      exact Table.key_of_find? hread) h
    simp only [flushedRuns, h, hread, flushed_self h, Table.find?_set, hid]
    split
    · next heq => rw [← heq, hread, Option.map_some]
    · rfl

/-! ## Which statements succeed -/

private theorem runStatements_succeed_iff {read : Option LineageRun} :
    (∀ st ∈ runStatements platform event read,
      statementSucceeds platform event read db st = true) ↔
    (runAfter platform event read).isSome = true ∧
      (read = none → db.runs.find? event.run.runId = none) := by
  cases read with
  | none => simp [runStatements, statementSucceeds]
  | some existing =>
    rw [runStatements]
    split
    · simp [statementSucceeds]
    · next hunchanged =>
      simp [runAfter, updatedRun_of_unchanged hunchanged]

private theorem datasetStatements_succeed_iff {read : Option LineageRun} :
    (∀ st ∈ event.datasets.flatMap fun ref =>
        [IngestStatement.upsertDataset ref.2, .link ref.1 ref.2],
      statementSucceeds platform event read db st = true) ↔
    ∀ ref ∈ event.datasets, (storedRef platform ref.2).isSome = true := by
  rw [List.forall_mem_flatMap]
  refine forall₂_congr fun ref _ => ?_
  simp [statementSucceeds]

private theorem statements_succeed_iff {read : Option LineageRun} :
    (∀ st ∈ ingestStatements platform event read,
      statementSucceeds platform event read db st = true) ↔
    Storable platform read event ∧ (read = none → db.runs.find? event.run.runId = none) := by
  rw [ingestStatements, List.forall_mem_append, runStatements_succeed_iff,
    datasetStatements_succeed_iff]
  constructor
  · rintro ⟨⟨hrun, hfresh⟩, hdatasets⟩
    exact ⟨⟨hrun, hdatasets⟩, hfresh⟩
  · rintro ⟨⟨hrun, hdatasets⟩, hfresh⟩
    exact ⟨⟨hrun, hfresh⟩, hdatasets⟩

/-! ## Two requests at once -/

section Pair

variable {arrivals : Side → Arrival} {side : Side}

/-- The transactions of two requests. -/
def ingestPair (platform : Platform) (arrivals : Side → Arrival) (side : Side) :
    Locking.Transaction Database (Option LineageRun) IngestStatement RowLock :=
  ingestTransaction platform (arrivals side)

/-- The state after an interleaving of two requests. -/
def interleave (platform : Platform) (db : Database) (arrivals : Side → Arrival)
    (actions : List Action) : Locking.State Database (Option LineageRun) IngestStatement :=
  run (step (ingestPair platform arrivals)) (.initial db) actions

/-- What a request locks, in this order. -/
def ingestLocks (platform : Platform) (db : Database) (arrival : Arrival) : List RowLock :=
  (ingestStatements platform arrival.event (runOf db arrival)).filterMap
    (statementLock platform arrival.event)

/-- Both requests are for one run. -/
def SameRun (arrivals : Side → Arrival) : Prop :=
  (arrivals .left).event.run.runId = (arrivals .right).event.run.runId

/-- The two requests do not get into each other's way. -/
structure Compatible (platform : Platform) (db : Database) (arrivals : Side → Arrival) :
    Prop where
  /-- The values of each event fit their columns. -/
  storable : ∀ side, Storable platform (runOf db (arrivals side)) (arrivals side).event
  /-- They also fit the row that the other event leaves. -/
  storableAfter : SameRun arrivals → ∀ side,
    Storable platform (runAfter platform (arrivals side.other).event
      (runOf db (arrivals side.other))) (arrivals side).event
  /-- A run that both events are of is stored already. -/
  stored : SameRun arrivals → (runOf db (arrivals .left)).isSome = true
  /-- Of the rows that both lock, both lock the same one first. -/
  order : firstShared (ingestLocks platform db (arrivals .left))
      (ingestLocks platform db (arrivals .right)) =
    firstShared (ingestLocks platform db (arrivals .right))
      (ingestLocks platform db (arrivals .left))

private theorem allSucceed_ingestPair_iff {read : Option LineageRun} :
    AllSucceed (ingestPair platform arrivals) side read db ↔
      Storable platform read (arrivals side).event ∧
        (read = none → runOf db (arrivals side) = none) :=
  statements_succeed_iff

private theorem sameRun_iff (side : Side) : SameRun arrivals ↔
    (arrivals side.other).event.run.runId = (arrivals side).event.run.runId := by
  cases side with
  | left => exact eq_comm
  | right => exact Iff.rfl

/-- The run row that a request finds after the other one. -/
theorem runOf_after (side : Side) (h : Storable platform (runOf db (arrivals side.other))
    (arrivals side.other).event) :
    runOf (after (ingestPair platform arrivals) db side.other) (arrivals side) =
      if (arrivals side.other).event.run.runId = (arrivals side).event.run.runId then
        runAfter platform (arrivals side.other).event (runOf db (arrivals side.other))
      else runOf db (arrivals side) := by
  obtain ⟨new, hnew⟩ := Option.isSome_iff_exists.mp h.run
  obtain ⟨refs, hrefs⟩ := Option.isSome_iff_exists.mp (storedRefs_isSome.mpr h.datasets)
  have hruns : (after (ingestPair platform arrivals) db side.other).runs =
      flushedRuns platform (arrivals side.other).event (runOf db (arrivals side.other))
        db.runs := by
    simp only [after, ingestPair, ingestTransaction, hrefs, runs_foldl_put]
    rfl
  rw [runOf, hruns, hnew]
  exact find?_flushedRuns hnew _

private theorem runOf_of_sameRun (h : SameRun arrivals) (side : Side) :
    runOf db (arrivals side) = runOf db (arrivals .left) := by
  cases side with
  | left => rfl
  | right => exact congrArg db.runs.find? h.symm

private theorem harmless_of_compatible (h : Compatible platform db arrivals) :
    Harmless (ingestPair platform arrivals) db where
  fresh side := allSucceed_ingestPair_iff.mpr ⟨h.storable side, fun hread => hread⟩
  stale side := by
    refine allSucceed_ingestPair_iff.mpr ⟨h.storable side, fun hread => ?_⟩
    have hother : ¬ SameRun arrivals := by
      intro hsame
      have hstored := h.stored hsame
      rw [← runOf_of_sameRun hsame side] at hstored
      have hmissing : runOf db (arrivals side) = none := hread
      rw [hmissing] at hstored
      cases hstored
    rw [runOf_after side (h.storable side.other), if_neg (mt (sameRun_iff side).mpr hother)]
    exact hread
  later side := by
    refine allSucceed_ingestPair_iff.mpr ⟨?_, fun hread => hread⟩
    have hafter := runOf_after side (h.storable side.other)
    have hread : (ingestPair platform arrivals side).read
        (after (ingestPair platform arrivals) db side.other) =
      runOf (after (ingestPair platform arrivals) db side.other) (arrivals side) := rfl
    rw [hread, hafter]
    split
    · next hsame => exact h.storableAfter ((sameRun_iff side).mpr hsame) side
    · exact h.storable side
  order := h.order

private theorem compatible_of_harmless (h : Harmless (ingestPair platform arrivals) db) :
    Compatible platform db arrivals := by
  have hstorable (side : Side) :
      Storable platform (runOf db (arrivals side)) (arrivals side).event :=
    (allSucceed_ingestPair_iff.mp (h.fresh side)).1
  have hafter (hsame : SameRun arrivals) (side : Side) :
      runOf (after (ingestPair platform arrivals) db side.other) (arrivals side) =
        runAfter platform (arrivals side.other).event (runOf db (arrivals side.other)) :=
    (runOf_after side (hstorable side.other)).trans (if_pos ((sameRun_iff side).mp hsame))
  refine ⟨hstorable, fun hsame side => ?_, fun hsame => ?_, h.order⟩
  · rw [← hafter hsame side]
    exact (allSucceed_ingestPair_iff.mp (h.later side)).1
  · -- an event that has missed the row finds it stored by the other one
    by_contra hmissing
    have hnone : runOf db (arrivals .left) = none := by simpa using hmissing
    have hstale := (allSucceed_ingestPair_iff.mp (h.stale .left)).2 hnone
    rw [hafter hsame .left] at hstale
    have hrun := (hstorable .right).run
    have hwritten : runAfter platform (arrivals .right).event (runOf db (arrivals .right)) = none :=
      hstale
    rw [hwritten] at hrun
    cases hrun

/-- A commit adds the edges of its event. -/
theorem hasEdge_commit_self {arrival : Arrival} {read : Option LineageRun} {key : DatasetKey}
    {direction : Direction}
    (h : NamesEdge platform arrival.event.run.runId key direction arrival.event) :
    ((ingestTransaction platform arrival).commit read db).HasEdge arrival.event.run.runId key
      direction := by
  obtain ⟨refs, hrefs, ref, href, -, rfl, rfl⟩ := h
  simp only [ingestTransaction, hrefs]
  exact hasEdge_foldl_put href

/-- A commit takes no edge away. -/
theorem hasEdge_commit_of_hasEdge {arrival : Arrival} {read : Option LineageRun} {runId : Uuid}
    {key : DatasetKey} {direction : Direction} (h : db.HasEdge runId key direction) :
    ((ingestTransaction platform arrival).commit read db).HasEdge runId key direction := by
  simp only [ingestTransaction]
  cases storedRefs platform arrival.event with
  | none => exact h
  | some refs =>
    have hkeeps : Invariant (put arrival.uuids arrival.event.run.runId)
        (·.HasEdge runId key direction) := fun _ _ => hasEdge_put_of_hasEdge
    exact hkeeps.run (hasEdge_runs.mpr h) refs

/-- **When concurrent ingests lose no event.** In every complete interleaving of the statements
of two requests both commit and the edges of both events are stored, if and only if the two
requests are compatible. -/
theorem concurrent_ingests_lose_nothing_iff (platform : Platform) (db : Database)
    (arrivals : Side → Arrival) :
    (∀ actions, Complete (interleave platform db arrivals actions) → ∀ side,
      (interleave platform db arrivals actions).phase side = .committed ∧
      ∀ key direction,
        NamesEdge platform (arrivals side).event.run.runId key direction (arrivals side).event →
        (interleave platform db arrivals actions).db.HasEdge (arrivals side).event.run.runId key
          direction) ↔
    Compatible platform db arrivals := by
  constructor
  · intro h
    exact compatible_of_harmless ((all_commit_iff _ db).mp fun actions hcomplete side =>
      (h actions hcomplete side).1)
  · intro h actions hcomplete side
    have hcommitted :=
      (all_commit_iff _ db).mpr (harmless_of_compatible h) actions hcomplete side
    refine ⟨hcommitted, ?_⟩
    refine holds_of_committed (P := fun side db => ∀ key direction,
      NamesEdge platform (arrivals side).event.run.runId key direction (arrivals side).event →
        db.HasEdge (arrivals side).event.run.runId key direction) ?_ ?_ actions hcommitted
    · exact fun side read db key direction hnames => hasEdge_commit_self hnames
    · exact fun side side' read db hedges key direction hnames =>
        hasEdge_commit_of_hasEdge (hedges key direction hnames)

end Pair

/-- The first event of a run that reads two datasets. -/
def readingEvent (runId : Uuid) (first second : String) : Arrival :=
  ⟨{ eventType := "START", eventTime := 10, run := { runId }
     job := { nameSpace := "spark", name := "etl" }
     inputs := [{ nameSpace := "s3", name := first }, { nameSpace := "s3", name := second }] },
    countingUuids⟩

/-- Two events whose runs read the same datasets in different orders. -/
def crossedArrivals : Side → Arrival
  | .left => readingEvent 1 "orders" "users"
  | .right => readingEvent 2 "users" "orders"

/-- Their transactions can come to wait for each other. -/
example : ¬ Compatible samplePlatform {} crossedArrivals :=
  fun h => absurd h.order (by decide)

/-! ## Two events of a new run -/

/-- The first two events of a run. -/
def newRunArrivals : Side → Arrival
  | .left => runEvent "START" 10
  | .right =>
    ⟨{ eventType := "COMPLETE", eventTime := 20, run := { runId := 1 }
       job := { nameSpace := "spark", name := "etl" }
       outputs := [{ nameSpace := "s3", name := "orders" }] }, countingUuids⟩

/-- Both transactions look for the run before either inserts it. -/
def bothLookFirst : List Action :=
  [.advance .left, .advance .right, .advance .left, .advance .left, .advance .right]

/-- The second `INSERT` of the run fails, and the edge of its event is lost. -/
theorem second_event_of_new_run_lost :
    Complete (interleave samplePlatform {} newRunArrivals bothLookFirst) ∧
    (interleave samplePlatform {} newRunArrivals bothLookFirst).phase .right = .failed ∧
    NamesEdge samplePlatform 1 ("s3", "orders") .output (newRunArrivals .right).event ∧
    ¬ (interleave samplePlatform {} newRunArrivals bothLookFirst).db.HasEdge 1 ("s3", "orders")
      .output := by
  refine ⟨fun side => ?_, rfl, ⟨_, rfl, _, List.mem_cons_self, rfl, rfl, rfl⟩, ?_⟩
  · cases side with
    | left => exact .inl rfl
    | right => exact .inr rfl
  · rintro ⟨id, -, hlink⟩
    cases hlink

end DataHarbour.Lineage
