import DataHarbour.Lineage.Ingest

/-!
# Stored datasets and edges

Ids join a run to its datasets. Storing a dataset adds its key and one edge, and changes no
other key or edge: an id belongs to one dataset, and every link leads to a stored one.
-/

namespace DataHarbour.Lineage

open Python Relational Machine

variable {uuids : UuidSource} {db : Database} {runId : Uuid} {ref : Direction × DatasetRef}

namespace Database

/-- A dataset is stored under the key, with the id. -/
def HasDataset (db : Database) (key : DatasetKey) (id : Uuid) : Prop :=
  ∃ row ∈ db.datasets.rows, row.key = key ∧ row.datasetId = id

/-- An edge between a run and the dataset with the key. -/
def HasEdge (db : Database) (runId : Uuid) (key : DatasetKey) (direction : Direction) : Prop :=
  ∃ id, db.HasDataset key id ∧ ⟨runId, id⟩ ∈ (db.links direction).rows

/-- What the primary key of the datasets and the foreign keys of the links guarantee. -/
structure Consistent (db : Database) : Prop where
  key_unique : ∀ {key key' id}, db.HasDataset key id → db.HasDataset key' id → key = key'
  linked : ∀ {direction} {l : LineageLink}, l ∈ (db.links direction).rows →
    ∃ key, db.HasDataset key l.datasetId

/-- A stored dataset is found under its key. -/
theorem HasDataset.find? {key : DatasetKey} {id : Uuid} (h : db.HasDataset key id) :
    ∃ row, db.datasets.find? key = some row ∧ row.datasetId = id := by
  obtain ⟨row, hrow, rfl, hid⟩ := h
  exact ⟨row, Table.find?_of_mem hrow, hid⟩

/-! The runs play no part in this. -/

private theorem links_runs (runs : Table LineageRun.runId) (direction : Direction) :
    links { db with runs } direction = db.links direction := by
  cases direction <;> rfl

/-- The edges do not depend on the table of runs. -/
theorem hasEdge_runs {runs : Table LineageRun.runId} {runId : Uuid} {key : DatasetKey}
    {direction : Direction} :
    HasEdge { db with runs } runId key direction ↔ db.HasEdge runId key direction := by
  rw [HasEdge, links_runs]
  rfl

/-- Consistency does not depend on the table of runs. -/
theorem Consistent.runs {runs : Table LineageRun.runId} (h : db.Consistent) :
    Consistent { db with runs } where
  key_unique := h.key_unique
  linked := by
    intro direction l hl
    rw [links_runs] at hl
    exact h.linked hl

/-- The empty database is consistent. -/
theorem consistent_empty : Consistent {} where
  key_unique := by
    rintro _ _ _ ⟨row, hrow, -⟩
    cases hrow
  linked := by
    intro direction l hl
    cases direction <;> cases hl

end Database

open Database

/-! ## Storing a dataset -/

/-- What the statement of `_upsert_dataset` does: the dataset is stored and keeps its id, or it
gets one that no dataset has. -/
inductive DatasetPut (uuids : UuidSource) (ds : DatasetRef) (db : Database) :
    Uuid × Database → Prop
  | stored {old row : LineageDataset} (hold : db.datasets.find? ds.key = some old)
    (hrow : row = { old with facets := old.facets.merge ds.facets }) :
    DatasetPut uuids ds db (row.datasetId, { db with datasets := db.datasets.set row })
  | fresh {row : LineageDataset} (hnew : db.datasets.find? row.key = none)
    (hkey : row.key = ds.key) (hfacets : row.facets = ds.facets)
    (hid : row.datasetId ∉ db.datasetIds) :
    DatasetPut uuids ds db (row.datasetId, { db with datasets := db.datasets.insert row hnew })

/-- `DatasetPut` says all that putting a dataset does. -/
theorem datasetPut_putDataset (uuids : UuidSource) (ds : DatasetRef) (db : Database) :
    DatasetPut uuids ds db (putDataset uuids ds db) := by
  let row : LineageDataset := ⟨uuids.draw db.datasetIds, ds.nameSpace, ds.name, ds.facets⟩
  let update (old : LineageDataset) : LineageDataset :=
    { old with facets := old.facets.merge ds.facets }
  have hput : putDataset uuids ds db = (((db.datasets.find? ds.key).getD row).datasetId,
    { db with datasets := db.datasets.upsert row update }) := rfl
  cases h : db.datasets.find? ds.key with
  | some old =>
    have hupsert : db.datasets.upsert row update = _ := Table.upsert_of_stored h update
    rw [hput, h, hupsert]
    exact DatasetPut.stored h rfl
  | none =>
    have hupsert : db.datasets.upsert row update = _ := Table.upsert_of_fresh h update
    rw [hput, h, hupsert]
    exact .fresh h rfl rfl (uuids.fresh _)

/-- The dataset is stored under the id that the statement returns; nothing else is new. -/
theorem hasDataset_putDataset {ds : DatasetRef} {key : DatasetKey} {id : Uuid} :
    (putDataset uuids ds db).2.HasDataset key id ↔
      db.HasDataset key id ∨ key = ds.key ∧ id = (putDataset uuids ds db).1 := by
  have hput := datasetPut_putDataset uuids ds db
  generalize putDataset uuids ds db = result at hput ⊢
  cases hput with
  | @stored old row hold hrow =>
    have hmem := Table.mem_of_find? hold
    have hsame : row.key = old.key := hrow ▸ rfl
    have hid : row.datasetId = old.datasetId := hrow ▸ rfl
    have hkey := hsame.trans (Table.key_of_find? hold)
    have hset : ∀ row', row' ∈ (db.datasets.set row).rows ↔
        row' = row ∨ row' ∈ db.datasets.rows ∧ row' ≠ old := fun row' =>
      Table.mem_set_iff hmem hsame
    constructor
    · rintro ⟨row', hrow', rfl, rfl⟩
      rcases (hset row').mp hrow' with rfl | ⟨hrow', -⟩
      · exact .inr ⟨hkey, rfl⟩
      · exact .inl ⟨row', hrow', rfl, rfl⟩
    · rintro (⟨row', hrow', rfl, rfl⟩ | ⟨rfl, rfl⟩)
      · by_cases heq : row' = old
        · exact ⟨row, (hset row).mpr (.inl rfl), heq ▸ hsame, heq ▸ hid⟩
        · exact ⟨row', (hset row').mpr (.inr ⟨hrow', heq⟩), rfl, rfl⟩
      · exact ⟨row, (hset row).mpr (.inl rfl), hkey, rfl⟩
  | @fresh row hnew hkey hfacets hid =>
    constructor
    · rintro ⟨row', hrow', rfl, rfl⟩
      rcases (Table.mem_insert hnew).mp hrow' with rfl | hrow'
      · exact .inr ⟨hkey, rfl⟩
      · exact .inl ⟨row', hrow', rfl, rfl⟩
    · rintro (⟨row', hrow', rfl, rfl⟩ | ⟨rfl, rfl⟩)
      · exact ⟨row', (Table.mem_insert hnew).mpr (.inr hrow'), rfl, rfl⟩
      · exact ⟨row, (Table.mem_insert hnew).mpr (.inl rfl), hkey, rfl⟩

/-- The returned id is the dataset's own. -/
theorem eq_key_of_hasDataset {ds : DatasetRef} {key : DatasetKey} (h : db.Consistent)
    (hkey : db.HasDataset key (putDataset uuids ds db).1) : key = ds.key := by
  have hput := datasetPut_putDataset uuids ds db
  generalize putDataset uuids ds db = result at hput hkey
  cases hput with
  | @stored old row hold hrow =>
    have hid : row.datasetId = old.datasetId := hrow ▸ rfl
    exact h.key_unique hkey ⟨old, Table.mem_of_find? hold, Table.key_of_find? hold, hid.symm⟩
  | fresh _ _ _ hid =>
    obtain ⟨row, hrow, -, heq⟩ := hkey
    exact absurd (List.mem_map.mpr ⟨row, hrow, heq⟩) hid

/-! ## Linking it to the run -/

private theorem mem_links_link {datasetId : Uuid} {direction direction' : Direction}
    {l : LineageLink} :
    l ∈ ((link runId datasetId direction db).links direction').rows ↔
      l ∈ (db.links direction').rows ∨ direction' = direction ∧ l = ⟨runId, datasetId⟩ := by
  cases direction <;> cases direction' <;> simp [link, links, Table.mem_insertIfNew]

/-- A link that is stored is not stored again. -/
theorem link_of_mem {datasetId : Uuid} {direction : Direction}
    (h : ⟨runId, datasetId⟩ ∈ (db.links direction).rows) :
    link runId datasetId direction db = db := by
  have hsame := Table.insertIfNew_of_stored (Table.find?_of_mem h)
  cases direction with
  | input => exact congrArg (fun inputs => { db with inputs }) hsame
  | output => exact congrArg (fun outputs => { db with outputs }) hsame

private theorem links_putDataset (ds : DatasetRef) (direction : Direction) :
    (putDataset uuids ds db).2.links direction = db.links direction := by
  cases direction <;> rfl

/-- Linking a run leaves the datasets. -/
theorem datasets_link (datasetId : Uuid) (direction : Direction) :
    (link runId datasetId direction db).datasets = db.datasets := by
  cases direction <;> rfl

/-- Putting a reference adds its own dataset and no other. -/
theorem hasDataset_put {key : DatasetKey} {id : Uuid} :
    (put uuids runId db ref).HasDataset key id ↔
      db.HasDataset key id ∨ key = ref.2.key ∧ id = (putDataset uuids ref.2 db).1 := by
  rw [← hasDataset_putDataset]
  simp only [HasDataset, put, datasets_link]

private theorem mem_links_put {direction : Direction} {l : LineageLink} :
    l ∈ ((put uuids runId db ref).links direction).rows ↔
      l ∈ (db.links direction).rows ∨
        direction = ref.1 ∧ l = ⟨runId, (putDataset uuids ref.2 db).1⟩ := by
  rw [put, mem_links_link, links_putDataset]

private theorem hasEdge_put_self : (put uuids runId db ref).HasEdge runId ref.2.key ref.1 :=
  ⟨_, hasDataset_put.mpr (.inr ⟨rfl, rfl⟩), mem_links_put.mpr (.inr ⟨rfl, rfl⟩)⟩

/-- Putting a reference keeps the edges. -/
theorem hasEdge_put_of_hasEdge {runId' : Uuid} {key : DatasetKey} {direction : Direction}
    (h : db.HasEdge runId' key direction) :
    (put uuids runId db ref).HasEdge runId' key direction := by
  obtain ⟨id, hdataset, hlink⟩ := h
  exact ⟨id, hasDataset_put.mpr (.inl hdataset), mem_links_put.mpr (.inl hlink)⟩

/-- After the datasets are handled, each of them is linked to the run. -/
theorem hasEdge_foldl_put {refs : List (Direction × DatasetRef)} (h : ref ∈ refs) :
    (refs.foldl (put uuids runId) db).HasEdge runId ref.2.key ref.1 := by
  have hkeeps : Invariant (put uuids runId) (·.HasEdge runId ref.2.key ref.1) :=
    fun _ _ => hasEdge_put_of_hasEdge
  obtain ⟨before, after, rfl⟩ := List.append_of_mem h
  rw [List.foldl_append, List.foldl_cons]
  exact hkeeps.run hasEdge_put_self after

/-- Putting a reference keeps the database consistent. -/
theorem Database.Consistent.put (h : db.Consistent) :
    (put uuids runId db ref).Consistent where
  key_unique := by
    intro key key' id hkey hkey'
    rcases hasDataset_put.mp hkey with hold | ⟨rfl, rfl⟩ <;>
      rcases hasDataset_put.mp hkey' with hold' | ⟨rfl, hid⟩
    · exact h.key_unique hold hold'
    · exact eq_key_of_hasDataset h (hid ▸ hold)
    · exact (eq_key_of_hasDataset h hold').symm
    · rfl
  linked := by
    intro direction l hl
    rcases mem_links_put.mp hl with hold | ⟨-, rfl⟩
    · obtain ⟨key, hkey⟩ := h.linked hold
      exact ⟨key, hasDataset_put.mpr (.inl hkey)⟩
    · exact ⟨ref.2.key, hasDataset_put.mpr (.inr ⟨rfl, rfl⟩)⟩

/-- Exactly one edge is added. -/
theorem hasEdge_put_iff (h : db.Consistent) {runId' : Uuid} {key : DatasetKey}
    {direction : Direction} : (put uuids runId db ref).HasEdge runId' key direction ↔
      db.HasEdge runId' key direction ∨
        runId' = runId ∧ key = ref.2.key ∧ direction = ref.1 := by
  constructor
  · rintro ⟨id, hdataset, hlink⟩
    rcases mem_links_put.mp hlink with hold | ⟨hdirection, hl⟩
    · -- a link that was there leads to a dataset that was there
      obtain ⟨key', hkey'⟩ := h.linked hold
      have hsame := h.put.key_unique (hasDataset_put.mpr (.inl hkey')) hdataset
      exact .inl ⟨id, hsame ▸ hkey', hold⟩
    · obtain ⟨rfl, rfl⟩ := LineageLink.mk.inj hl
      refine .inr ⟨rfl, ?_, hdirection⟩
      exact h.put.key_unique hdataset (hasDataset_put.mpr (.inr ⟨rfl, rfl⟩))
  · rintro (hold | ⟨rfl, rfl, rfl⟩)
    · exact hasEdge_put_of_hasEdge hold
    · exact hasEdge_put_self

end DataHarbour.Lineage
