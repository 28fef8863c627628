import Mathlib.Data.Option.Basic
import DataHarbour.Lineage.Model
import DataHarbour.Python.Loops

/-!
# What an ingest does

An ingest either fails, or it writes the run row and then handles the datasets, whose stored
values depend on the event alone. The datasets leave the runs as they are.
-/

namespace DataHarbour.Lineage

open Python Relational Machine

variable {platform : Platform} {uuids : UuidSource} {event : OpenLineageEvent}
  {db db' : Database}

/-! ## The run row -/

/-- Cutting a text to the column's width neither makes nor breaks a terminal state. -/
theorem terminal_of_varchar {text stored : String} (h : varchar 32 text = some stored) :
    stored ∈ terminalStates ↔ text ∈ terminalStates := by
  have hshort : ∀ s ∈ terminalStates, s.length < 32 := by decide
  rcases varchar_eq_some h with rfl | ⟨hlong, hcut⟩
  · exact Iff.rfl
  · constructor
    · intro hs
      have hlt := hshort stored hs
      omega
    · intro ht
      have hlt := hshort text ht
      omega

/-- The columns of a run that say whether it is finished, after an event that found the run
with the given `ended_at`. -/
structure Records (platform : Platform) (event : OpenLineageEvent) (endedAt : Option Time)
    (run : LineageRun) : Prop where
  runId : run.runId = event.run.runId
  state : run.state ∈ terminalStates ↔ event.isTerminal platform
  endedAt : run.endedAt = if event.isTerminal platform then some event.eventTime else endedAt

/-- An inserted run records its event. -/
theorem records_insertedRun {run : LineageRun} (h : insertedRun platform event = some run) :
    Records platform event none run := by
  simp only [insertedRun, Option.bind_eq_bind, Option.bind_eq_some_iff] at h
  obtain ⟨_, -, _, -, _, -, state, hstate, _, -, hrun⟩ := h
  obtain rfl := Option.some.inj hrun
  exact ⟨rfl, terminal_of_varchar hstate, rfl⟩

/-- An update that is stored leaves the state or fits the column. -/
theorem updatedState_eq_some {existing : LineageRun} {state : String}
    (h : updatedState platform existing event = some state) :
    event.state platform = existing.state ∧ state = existing.state ∨
      varchar 32 (event.state platform) = some state := by
  unfold updatedState at h
  split at h
  · next hsame => exact .inl ⟨hsame, (Option.some.inj h).symm⟩
  · exact .inr h

/-- An updated run records its event. -/
theorem records_updatedRun {existing run : LineageRun}
    (hid : existing.runId = event.run.runId)
    (h : updatedRun platform existing event = some run) :
    Records platform event existing.endedAt run := by
  simp only [updatedRun, Option.bind_eq_bind, Option.bind_eq_some_iff] at h
  obtain ⟨state, hstate, _, -, _, -, hrun⟩ := h
  obtain rfl := Option.some.inj hrun
  refine ⟨hid, ?_, rfl⟩
  rcases updatedState_eq_some hstate with ⟨hsame, rfl⟩ | hstored
  · exact iff_of_eq (congrArg (· ∈ terminalStates) hsame.symm)
  · exact terminal_of_varchar hstored

/-- What the run part of an ingest does to the table of runs. -/
inductive RunUpserted (platform : Platform) (event : OpenLineageEvent)
    (runs : Table LineageRun.runId) : Table LineageRun.runId → Prop
  | inserted {run : LineageRun} (hrun : insertedRun platform event = some run)
    (hfresh : runs.find? run.runId = none) :
    RunUpserted platform event runs (runs.insert run hfresh)
  | updated {existing run : LineageRun} (hexisting : runs.find? event.run.runId = some existing)
    (hrun : updatedRun platform existing event = some run) :
    RunUpserted platform event runs (runs.set run)

private theorem upsertRun_cases (h : upsertRun platform event db = some db') :
    ∃ runs, RunUpserted platform event db.runs runs ∧ db' = { db with runs } := by
  unfold upsertRun at h
  split at h
  · next existing hexisting =>
    obtain ⟨run, hrun, rfl⟩ := Option.map_eq_some_iff.mp h
    exact ⟨_, .updated hexisting hrun, rfl⟩
  · simp only [Option.bind_eq_bind, Option.bind_eq_some_iff] at h
    obtain ⟨run, hrun, runs, hruns, hdb⟩ := h
    obtain ⟨hfresh, rfl⟩ := Table.insert?_eq_some hruns
    exact ⟨_, .inserted hrun hfresh, (Option.some.inj hdb).symm⟩

/-- An event leaves the rows of other runs alone. -/
theorem RunUpserted.find?_of_ne {runs runs' : Table LineageRun.runId} {runId : Uuid}
    (h : RunUpserted platform event runs runs') (hne : event.run.runId ≠ runId) :
    runs'.find? runId = runs.find? runId := by
  cases h with
  | @inserted run hrun hfresh =>
    rw [Table.find?_insert, (records_insertedRun hrun).runId, if_neg hne]
  | @updated existing run hexisting hrun =>
    have hid := (records_updatedRun (Table.key_of_find? hexisting) hrun).runId
    rw [Table.find?_set, hid, if_neg hne]

/-! ## The datasets -/

/-- The datasets of an event as their columns take them, with their sides. -/
def storedRefs (platform : Platform) (event : OpenLineageEvent) :
    Option (List (Direction × DatasetRef)) := do
  let inputs ← event.inputs.mapM (storedRef platform)
  let outputs ← event.outputs.mapM (storedRef platform)
  some (inputs.map (Prod.mk .input) ++ outputs.map (Prod.mk .output))

/-- Store a dataset and link it to the run. -/
def put (uuids : UuidSource) (runId : Uuid) (db : Database) (ref : Direction × DatasetRef) :
    Database :=
  link runId (putDataset uuids ref.2 db).1 ref.1 (putDataset uuids ref.2 db).2

private theorem foldlM_ingestDataset (runId : Uuid) (direction : Direction) (refs : List DatasetRef)
    (db : Database) :
    refs.foldlM (ingestDataset platform uuids runId direction) db =
      (refs.mapM (storedRef platform)).map fun stored =>
        (stored.map (Prod.mk direction)).foldl (put uuids runId) db := by
  have hbody : ingestDataset platform uuids runId direction = fun db ds =>
      (storedRef platform ds).map fun stored => put uuids runId db (direction, stored) := by
    funext db ds
    rw [ingestDataset, upsertDataset, Option.map_map]
    rfl
  rw [hbody, foldlM_map_eq]
  simp only [List.foldl_map]

/-- An ingest fails in its run row or in the values of its datasets, or not at all. -/
theorem ingest_eq : ingest platform uuids event db =
    (upsertRun platform event db).bind fun db =>
      (storedRefs platform event).map fun refs =>
        refs.foldl (put uuids event.run.runId) db := by
  simp only [ingest, foldlM_ingestDataset, storedRefs, Option.bind_eq_bind]
  cases upsertRun platform event db with
  | none => rfl
  | some db =>
    cases event.inputs.mapM (storedRef platform) with
    | none => rfl
    | some inputs =>
      cases event.outputs.mapM (storedRef platform) with
      | none => rfl
      | some outputs => simp

/-- Putting a dataset leaves the runs. -/
@[simp] theorem runs_put (runId : Uuid) (ref : Direction × DatasetRef) :
    (put uuids runId db ref).runs = db.runs := by
  obtain ⟨direction, ds⟩ := ref
  cases direction <;> rfl

/-- Putting every dataset of an event leaves the runs. -/
@[simp] theorem runs_foldl_put (runId : Uuid) (refs : List (Direction × DatasetRef)) :
    (refs.foldl (put uuids runId) db).runs = db.runs := by
  induction refs generalizing db with
  | nil => rfl
  | cons ref refs ih => rw [List.foldl_cons, ih, runs_put]

/-- The run row, then the datasets. -/
theorem ingest_cases (h : ingest platform uuids event db = some db') :
    ∃ runs refs, RunUpserted platform event db.runs runs ∧
      storedRefs platform event = some refs ∧
      db' = refs.foldl (put uuids event.run.runId) { db with runs } := by
  rw [ingest_eq, Option.bind_eq_some_iff] at h
  obtain ⟨db₁, hrun, hrest⟩ := h
  obtain ⟨refs, hrefs, rfl⟩ := Option.map_eq_some_iff.mp hrest
  obtain ⟨runs, hruns, rfl⟩ := upsertRun_cases hrun
  exact ⟨runs, refs, hruns, hrefs, rfl⟩

end DataHarbour.Lineage
