import DataHarbour.Metadata.Operations

/-!
# The schema history

`create_table` records version 1 and every `update_table` that changes something the version
after the latest. The rows of a dropped table go with it, so the versions of every table count
up from 1.
-/

namespace DataHarbour.Metadata

open Python Relational Machine

/-- The versions in the history of a table, oldest first. -/
def Catalog.versions (c : Catalog) (tableId : TableId) : List ℕ :=
  (c.history.filter (·.tableId = tableId)).map SchemaHistory.version

/-- The versions of a table count up from 1. -/
def Catalog.Numbered (c : Catalog) (tableId : TableId) : Prop :=
  ∃ n, c.versions tableId = List.range' 1 n

variable {c c' : Catalog} {tableId : TableId}

/-! ## New rows -/

private theorem versions_append {rows : List SchemaHistory}
    (hhistory : c'.history = c.history ++ rows) :
    c'.versions tableId = c.versions tableId ++
      (rows.filter (·.tableId = tableId)).map SchemaHistory.version := by
  rw [Catalog.versions, hhistory, List.filter_append, List.map_append]
  rfl

/-- The rows of other tables do not matter. -/
theorem versions_append_of_ne {rows : List SchemaHistory}
    (hhistory : c'.history = c.history ++ rows) (hrows : ∀ row ∈ rows, row.tableId ≠ tableId) :
    c'.versions tableId = c.versions tableId := by
  have hnone : rows.filter (·.tableId = tableId) = [] := by
    simpa [List.filter_eq_nil_iff] using hrows
  rw [versions_append hhistory, hnone, List.map_nil, List.append_nil]

/-- A row of the history is about the updated table. -/
theorem tableId_of_mem_historyRow {now : Time} {row : CatalogTable} {request : TableUpdateRequest}
    {schema : Json} {changes : List String} {h : SchemaHistory}
    (hmem : h ∈ historyRow now c row request schema changes) : h.tableId = row.tableId := by
  unfold historyRow at hmem
  split at hmem
  · cases hmem
  · rw [List.mem_singleton.mp hmem]

private theorem foldl_max_range' (n : ℕ) : (List.range' 1 n).foldl max 0 = n := by
  induction n with
  | zero => rfl
  | succ n ih =>
    rw [List.range'_1_concat, List.foldl_append, ih]
    simp only [List.foldl_cons, List.foldl_nil]
    omega

/-- A history row takes the version after the latest one. -/
theorem numbered_append_historyRow {now : Time} {row : CatalogTable}
    {request : TableUpdateRequest} {schema : Json} {changes : List String}
    (h : c.Numbered row.tableId)
    (hhistory : c'.history = c.history ++ historyRow now c row request schema changes) :
    c'.Numbered row.tableId := by
  obtain ⟨n, hn⟩ := h
  have hlatest : c.latestVersion row.tableId = n := by
    change (c.versions row.tableId).foldl max 0 = n
    rw [hn, foldl_max_range']
  rw [Catalog.Numbered, versions_append hhistory, hn]
  by_cases hchanges : changes = []
  · refine ⟨n, ?_⟩
    rw [historyRow, if_pos hchanges]
    simp
  · refine ⟨n + 1, ?_⟩
    rw [historyRow, if_neg hchanges, List.range'_1_concat, hlatest]
    simp [Nat.add_comm]

/-! ## Deleted rows -/

/-- A cascade that spares the rows of a table leaves its versions. -/
theorem versions_filter {p : SchemaHistory → Bool} (hhistory : c'.history = c.history.filter p)
    (hspared : ∀ row ∈ c.history, row.tableId = tableId → p row = true) :
    c'.versions tableId = c.versions tableId := by
  rw [Catalog.versions, hhistory, List.filter_filter]
  congr 1
  refine List.filter_congr fun row hrow => ?_
  by_cases hid : row.tableId = tableId
  · simp [hid, hspared row hrow hid]
  · simp [hid]

/-! ## The invariant -/

/-- What the keys of the history guarantee, and that every table's versions count up from 1. -/
structure Versioned (c : Catalog) : Prop where
  tableIds : ∀ t ∈ c.tables.rows, ∀ t' ∈ c.tables.rows, t.tableId = t'.tableId → t = t'
  owned : ∀ h ∈ c.history, ∃ t ∈ c.tables.rows, t.tableId = h.tableId
  numbered : ∀ t ∈ c.tables.rows, c.Numbered t.tableId

/-- The empty catalog is versioned. -/
theorem versioned_empty : Versioned .empty where
  tableIds _ ht := absurd ht List.not_mem_nil
  owned _ hh := absurd hh List.not_mem_nil
  numbered _ ht := absurd ht List.not_mem_nil

/-- Tables are dropped together with their history. -/
theorem Versioned.drop (h : Versioned c) (tables : Table CatalogTable.key)
    (p : SchemaHistory → Bool) (htables : ∀ t ∈ tables.rows, t ∈ c.tables.rows)
    (hp : ∀ t ∈ c.tables.rows, ∀ row ∈ c.history, row.tableId = t.tableId →
      (p row = true ↔ t ∈ tables.rows)) :
    Versioned { c with tables := tables, history := c.history.filter p } where
  tableIds t ht t' ht' := h.tableIds t (htables t ht) t' (htables t' ht')
  owned := by
    intro row hrow
    obtain ⟨hmem, hkept⟩ := List.mem_filter.mp hrow
    obtain ⟨t, ht, hid⟩ := h.owned row hmem
    exact ⟨t, (hp t ht row hmem hid.symm).mp hkept, hid⟩
  numbered := by
    intro t ht
    obtain ⟨n, hn⟩ := h.numbered t (htables t ht)
    refine ⟨n, (versions_filter rfl fun row hrow hid => ?_).trans hn⟩
    exact (hp t (htables t ht) row hrow hid).mpr ht

/-- A new table starts with one row. -/
theorem Versioned.create (h : Versioned c) (now : Time) {record : CatalogTable}
    (hfresh : c.tables.find? record.key = none)
    (hid : ∀ t ∈ c.tables.rows, t.tableId ≠ record.tableId) :
    Versioned { c with
      tables := c.tables.insert record hfresh
      history := c.history ++ [initialHistory now record] } := by
  refine ⟨fun t ht t' ht' heq => ?_, fun row hrow => ?_, fun t ht => ?_⟩
  · rcases (Table.mem_insert hfresh).mp ht with rfl | hold <;>
      rcases (Table.mem_insert hfresh).mp ht' with rfl | hold'
    · rfl
    · exact absurd heq.symm (hid t' hold')
    · exact absurd heq (hid t hold)
    · exact h.tableIds t hold t' hold' heq
  · rcases List.mem_append.mp hrow with hold | hnew
    · obtain ⟨t, ht, hid'⟩ := h.owned row hold
      exact ⟨t, List.mem_cons_of_mem _ ht, hid'⟩
    · rw [List.mem_singleton.mp hnew]
      exact ⟨_, List.mem_cons_self, rfl⟩
  · rcases (Table.mem_insert hfresh).mp ht with rfl | hold
    · -- no table has had the id, and so no row of the history
      have hnone : c.versions t.tableId = [] := by
        rw [Catalog.versions, List.map_eq_nil_iff, List.filter_eq_nil_iff]
        intro row hrow heq
        obtain ⟨owner, howner, hid'⟩ := h.owned row hrow
        exact hid owner howner (hid'.trans (by simpa using heq))
      refine ⟨1, (versions_append rfl).trans ?_⟩
      simp [initialHistory, hnone]
    · obtain ⟨n, hn⟩ := h.numbered t hold
      refine ⟨n, (versions_append_of_ne rfl fun row hrow => ?_).trans hn⟩
      rw [List.mem_singleton.mp hrow]
      exact (hid t hold).symm

/-- A new version of a row stays under the old id, and so does its history. -/
theorem Versioned.update (h : Versioned c) {row row' : CatalogTable} {now : Time}
    {request : TableUpdateRequest} {schema : Json} {changes : List String}
    (hmem : row ∈ c.tables.rows) (hkey : row'.key = row.key)
    (hid : row'.tableId = row.tableId) :
    Versioned { c with
      tables := c.tables.set row'
      history := c.history ++ historyRow now c row request schema changes } := by
  have hset : ∀ t, t ∈ (c.tables.set row').rows ↔
      t = row' ∨ t ∈ c.tables.rows ∧ t ≠ row := fun t =>
    Table.mem_set_iff hmem hkey
  have hother : ∀ t ∈ c.tables.rows, t ≠ row → t.tableId ≠ row.tableId :=
    fun t ht hne heq => hne (h.tableIds t ht row hmem heq)
  refine ⟨fun t ht t' ht' heq => ?_, fun entry hentry => ?_, fun t ht => ?_⟩
  · rcases (hset t).mp ht with rfl | ⟨hold, hne⟩ <;>
      rcases (hset t').mp ht' with rfl | ⟨hold', hne'⟩
    · rfl
    · exact absurd (heq.symm.trans hid) (hother t' hold' hne')
    · exact absurd (heq.trans hid) (hother t hold hne)
    · exact h.tableIds t hold t' hold' heq
  · have hnew : ∃ t ∈ (c.tables.set row').rows, t.tableId = row.tableId :=
      ⟨row', (hset row').mpr (.inl rfl), hid⟩
    rcases List.mem_append.mp hentry with hold | hadded
    · obtain ⟨t, ht, hid'⟩ := h.owned entry hold
      by_cases heq : t = row
      · rwa [← hid', heq]
      · exact ⟨t, (hset t).mpr (.inr ⟨ht, heq⟩), hid'⟩
    · rwa [tableId_of_mem_historyRow hadded]
  · rcases (hset t).mp ht with rfl | ⟨hold, hne⟩
    · rw [hid]
      exact numbered_append_historyRow (h.numbered row hmem) rfl
    · obtain ⟨n, hn⟩ := h.numbered t hold
      refine ⟨n, (versions_append_of_ne rfl fun entry hentry => ?_).trans hn⟩
      rw [tableId_of_mem_historyRow hentry]
      exact (hother t hold hne).symm

/-- Every handled request keeps the catalog versioned. -/
theorem versioned_handled {settings : Settings} {s s' : MetadataService}
    {request : CatalogRequest} (h : Versioned s.catalog)
    (hhandled : Handled settings s request s') : Versioned s'.catalog := by
  cases hhandled with
  | rejected _ => exact h
  | createDatabase _ _ _ => exact ⟨h.tableIds, h.owned, h.numbered⟩
  | @dropDatabase dbName db hdb =>
    have hgone : ∀ t ∈ s.catalog.tables.rows, ∀ row ∈ s.catalog.history,
        row.tableId = t.tableId → ((s.catalog.tables.rows.any fun t =>
          t.dbId = db.dbId && t.tableId = row.tableId) = true ↔ t.dbId = db.dbId) := by
      intro t ht row _ hid
      simp only [List.any_eq_true, Bool.and_eq_true, decide_eq_true_eq]
      constructor
      · rintro ⟨t', ht', hdbId, hid'⟩
        rwa [h.tableIds t' ht' t ht (hid'.trans hid)] at hdbId
      · exact fun hdbId => ⟨t, ht, hdbId, hid.symm⟩
    have hdropped := h.drop (s.catalog.tables.delete (·.dbId = db.dbId)) _
      (fun t ht => (Table.mem_delete.mp ht).1) fun t ht row hrow hid => by
        rw [Bool.not_eq_true', ← Bool.not_eq_true, hgone t ht row hrow hid, Table.mem_delete,
          and_iff_right ht, decide_eq_false_iff_not]
    exact ⟨hdropped.tableIds, hdropped.owned, hdropped.numbered⟩
  | createTable now _ hfresh hid => exact h.create now hfresh hid
  | updateTable _ hrow hkey hid _ =>
    obtain ⟨-, -, hmem, -⟩ := findTable_eq_some hrow
    exact h.update hmem hkey hid
  | @dropTable dbName tableName record hrecord =>
    obtain ⟨-, -, hmem, -⟩ := findTable_eq_some hrecord
    refine h.drop (s.catalog.tables.erase record.key) (·.tableId ≠ record.tableId) ?_ ?_
    · exact fun t ht => (Table.mem_erase.mp ht).1
    · intro t ht row hrow hid
      rw [decide_eq_true_eq, Table.mem_erase, and_iff_right ht, hid]
      constructor
      · intro hne hkey
        rw [Table.eq_of_key_eq ht hmem hkey] at hne
        exact hne rfl
      · intro hne heq
        rw [h.tableIds t ht record hmem heq] at hne
        exact hne rfl

/-- A catalog that requests lead to from an empty one. -/
def Catalog.Reachable (c : Catalog) : Prop :=
  ∃ settings requests, (run (handle settings) emptyService requests).catalog = c

/-- In every reachable catalog the versions of every table count up from 1. -/
theorem Catalog.Reachable.versioned (h : c.Reachable) : Versioned c := by
  obtain ⟨settings, requests, rfl⟩ := h
  have hinvariant : Invariant (handle settings) fun s => Versioned s.catalog :=
    fun s request h => versioned_handled h (handled_handle settings s request.1 request.2)
  exact hinvariant.run versioned_empty requests

end DataHarbour.Metadata
