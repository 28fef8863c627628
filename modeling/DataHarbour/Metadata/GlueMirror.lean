import Mathlib.Data.Set.Insert
import DataHarbour.Metadata.Operations

/-!
# The Glue mirror

`create_table` and `drop_table` write through to Glue. `drop_database` does not: the entries of
the tables that go with the database stay. Glue is taken to keep names as they are sent.
-/

namespace DataHarbour.Metadata

open Relational Machine

/-- A table of the catalog and the name of its Glue entry. -/
def Catalog.Lists (c : Catalog) (t : CatalogTable) (name : String) : Prop :=
  t ∈ c.tables.rows ∧ ∃ db ∈ c.databases.rows, db.dbId = t.dbId ∧
    glueName db.dbName t.tableName = name

/-- The Glue names of the tables in the catalog. -/
def Catalog.glueNames (c : Catalog) : Set String := {name | ∃ t, c.Lists t name}

/-- The names of the Glue entries. -/
def Glue.names (glue : Glue) : Set String := {name | ∃ entry ∈ glue.rows, entry.name = name}

/-- The Glue entries are those of the tables in the catalog. -/
def Mirrored (s : MetadataService) : Prop := Glue.names s.glue = s.catalog.glueNames

/-- No two tables share a Glue name. -/
def GlueNamesDistinct (s : MetadataService) : Prop :=
  ∀ t t' name, s.catalog.Lists t name → s.catalog.Lists t' name → t = t'

/-! ## Glue calls -/

variable {settings : Settings}

/-- A registered table adds its name to Glue. -/
theorem names_registerTable (henabled : settings.glueCatalogDatabase ≠ "") (glue : Glue)
    (tableName location : String) :
    Glue.names (registerTable settings glue tableName location) =
      insert tableName (Glue.names glue) := by
  ext name
  rw [registerTable, if_neg henabled, Set.mem_insert_iff]
  cases hinsert : glue.insert? ⟨tableName, slashTerminated location⟩ with
  | some glue' =>
    obtain ⟨hfresh, rfl⟩ := Table.insert?_eq_some hinsert
    simp [Glue.names, eq_comm]
  | none =>
    -- the entry exists already
    have hstored : tableName ∈ Glue.names glue := by
      by_contra hmissing
      have hfresh : glue.find? tableName = none := by
        rw [Table.find?_eq_none_iff]
        simpa [Glue.names] using hmissing
      rw [Table.insert?_of_fresh hfresh] at hinsert
      cases hinsert
    rw [Option.getD_none]
    constructor
    · exact .inr
    · rintro (rfl | hmem)
      · exact hstored
      · exact hmem

private theorem names_unregisterTable (henabled : settings.glueCatalogDatabase ≠ "") (glue : Glue)
    (tableName : String) :
    Glue.names (unregisterTable settings glue tableName) = Glue.names glue \ {tableName} := by
  ext name
  rw [unregisterTable, if_neg henabled]
  constructor
  · rintro ⟨entry, hentry, rfl⟩
    obtain ⟨hmem, hne⟩ := Table.mem_erase.mp hentry
    exact ⟨⟨entry, hmem, rfl⟩, hne⟩
  · rintro ⟨⟨entry, hmem, rfl⟩, hne⟩
    exact ⟨entry, Table.mem_erase.mpr ⟨hmem, hne⟩, rfl⟩

/-! ## The names of the catalog -/

section Names

variable {c : Catalog}

/-- A table is listed under one name. -/
theorem lists_iff_of_owner (h : c.Consistent) {t : CatalogTable} {db : CatalogDatabase}
    (ht : t ∈ c.tables.rows) (hdb : db ∈ c.databases.rows) (hid : db.dbId = t.dbId)
    (name : String) : c.Lists t name ↔ glueName db.dbName t.tableName = name := by
  constructor
  · rintro ⟨-, owner, howner, hownerId, rfl⟩
    rw [h.ids owner howner db hdb (hownerId.trans hid.symm)]
  · intro hname
    exact ⟨ht, db, hdb, hid, hname⟩

/-- A new database lists nothing. -/
theorem glueNames_insert_database (h : c.Consistent) {record : CatalogDatabase}
    (hfresh : c.databases.find? record.dbName = none)
    (hid : ∀ db ∈ c.databases.rows, db.dbId ≠ record.dbId) :
    ({ c with databases := c.databases.insert record hfresh } : Catalog).glueNames =
      c.glueNames := by
  ext name
  constructor
  · rintro ⟨t, ht, db, hdb, howner, hname⟩
    rcases (Table.mem_insert hfresh).mp hdb with rfl | hold
    · -- the tables belong to older databases
      obtain ⟨db', hdb', howner'⟩ := h.owner t ht
      exact absurd (howner'.trans howner.symm) (hid db' hdb')
    · exact ⟨t, ht, db, hold, howner, hname⟩
  · rintro ⟨t, ht, db, hdb, howner, hname⟩
    exact ⟨t, ht, db, List.mem_cons_of_mem _ hdb, howner, hname⟩

/-- Dropping a database takes its own tables from the catalog. -/
theorem lists_dropDatabase_iff {db : CatalogDatabase} (hdb : db ∈ c.databases.rows)
    (t : CatalogTable) (name : String) :
    (c.dropDatabase db).Lists t name ↔ c.Lists t name ∧ t.dbId ≠ db.dbId := by
  constructor
  · rintro ⟨ht, owner, howner, hid, hname⟩
    obtain ⟨hmem, hother⟩ := Table.mem_delete.mp ht
    exact ⟨⟨hmem, owner, (Table.mem_erase.mp howner).1, hid, hname⟩, by simpa using hother⟩
  · rintro ⟨⟨ht, owner, howner, hid, hname⟩, hother⟩
    have hne : owner.dbName ≠ db.dbName := by
      intro hsame
      rw [Table.eq_of_key_eq howner hdb hsame] at hid
      exact hother hid.symm
    exact ⟨Table.mem_delete.mpr ⟨ht, by simpa using hother⟩, owner,
      Table.mem_erase.mpr ⟨howner, hne⟩, hid, hname⟩

private theorem glueNames_insert_table (h : c.Consistent) {record : CatalogTable}
    {db : CatalogDatabase}
    (hfresh : c.tables.find? record.key = none) (hdb : db ∈ c.databases.rows)
    (hid : db.dbId = record.dbId) (history : List SchemaHistory) :
    ({ c with tables := c.tables.insert record hfresh, history := history } :
      Catalog).glueNames = insert (glueName db.dbName record.tableName) c.glueNames := by
  ext name
  rw [Set.mem_insert_iff]
  constructor
  · rintro ⟨t, ht, owner, howner, hownerId, hname⟩
    rcases (Table.mem_insert hfresh).mp ht with rfl | hold
    · left
      rw [← hname, h.ids owner howner db hdb (hownerId.trans hid.symm)]
    · exact .inr ⟨t, hold, owner, howner, hownerId, hname⟩
  · rintro (rfl | ⟨t, ht, owner, howner, hownerId, hname⟩)
    · exact ⟨record, List.mem_cons_self, db, hdb, hid, rfl⟩
    · exact ⟨t, List.mem_cons_of_mem _ ht, owner, howner, hownerId, hname⟩

/-- A new version of a row has the name of the old one. -/
theorem glueNames_set {row row' : CatalogTable} (hrow : row ∈ c.tables.rows)
    (hkey : row'.key = row.key) (history : List SchemaHistory) :
    ({ c with tables := c.tables.set row', history := history } : Catalog).glueNames =
      c.glueNames := by
  obtain ⟨hdbId, htableName⟩ := Prod.mk.inj hkey
  ext name
  constructor
  · rintro ⟨t, ht, owner, howner, hid, hname⟩
    rcases (Table.mem_set_iff hrow hkey).mp ht with rfl | ⟨hold, -⟩
    · exact ⟨row, hrow, owner, howner, hid.trans hdbId, htableName ▸ hname⟩
    · exact ⟨t, hold, owner, howner, hid, hname⟩
  · rintro ⟨t, ht, owner, howner, hid, hname⟩
    by_cases heq : t = row
    · subst heq
      exact ⟨row', (Table.mem_set_iff hrow hkey).mpr (.inl rfl), owner, howner,
        hid.trans hdbId.symm, htableName ▸ hname⟩
    · exact ⟨t, (Table.mem_set_iff hrow hkey).mpr (.inr ⟨ht, heq⟩), owner, howner, hid, hname⟩

private theorem glueNames_erase (h : c.Consistent)
    (hdistinct : ∀ t t' name, c.Lists t name → c.Lists t' name → t = t')
    {record : CatalogTable} {db : CatalogDatabase} (hrecord : record ∈ c.tables.rows)
    (hdb : db ∈ c.databases.rows) (hid : db.dbId = record.dbId) (history : List SchemaHistory) :
    ({ c with tables := c.tables.erase record.key, history := history } : Catalog).glueNames =
      c.glueNames \ {glueName db.dbName record.tableName} := by
  have hlisted := (lists_iff_of_owner h hrecord hdb hid _).mpr rfl
  ext name
  constructor
  · rintro ⟨t, ht, owner, howner, hownerId, hname⟩
    obtain ⟨hmem, hne⟩ := Table.mem_erase.mp ht
    have hlists : c.Lists t name := ⟨hmem, owner, howner, hownerId, hname⟩
    refine ⟨⟨t, hlists⟩, ?_⟩
    rintro rfl
    exact hne (congrArg CatalogTable.key (hdistinct _ _ _ hlists hlisted))
  · rintro ⟨⟨t, ht, owner, howner, hownerId, hname⟩, hother⟩
    refine ⟨t, Table.mem_erase.mpr ⟨ht, fun hkey => hother ?_⟩, owner, howner, hownerId, hname⟩
    obtain rfl := Table.eq_of_key_eq ht hrecord hkey
    have hlists : c.Lists t name := ⟨ht, owner, howner, hownerId, hname⟩
    exact ((lists_iff_of_owner h hrecord hdb hid name).mp hlists).symm

end Names

/-! ## Requests -/

/-- A request keeps the mirror exactly if it drops no table by cascade. -/
theorem mirrored_handle_iff (henabled : settings.glueCatalogDatabase ≠ "") {s : MetadataService}
    (hsound : s.catalog.Consistent) (hdistinct : GlueNamesDistinct s) (h : Mirrored s)
    (request : Time × CatalogRequest) :
    Mirrored (handle settings s request) ↔ DropsEmpty s request := by
  obtain ⟨now, request⟩ := request
  have hhandled := handled_handle settings s now request
  generalize handle settings s (now, request) = s' at hhandled ⊢
  cases hhandled with
  | rejected hdrop => exact iff_of_true h (dropsEmpty_of_rejected hdrop now)
  | createDatabase _ hfresh hid =>
    refine iff_of_true ?_ trivial
    exact h.trans (glueNames_insert_database hsound hfresh hid).symm
  | @dropDatabase dbName db hdb =>
    have hmem := Table.mem_of_find? hdb
    constructor
    · intro hafter db' hdb' t ht heq
      obtain rfl := Option.some.inj (hdb.symm.trans hdb')
      -- the entry of the table is still there, and no remaining table has its name
      have hlisted := (lists_iff_of_owner hsound ht hmem heq.symm _).mpr rfl
      have hentry : glueName db.dbName t.tableName ∈ (s.catalog.dropDatabase db).glueNames :=
        hafter ▸ h ▸ ⟨t, hlisted⟩
      obtain ⟨t', ht'⟩ := hentry
      obtain ⟨hold, hother⟩ := (lists_dropDatabase_iff hmem t' _).mp ht'
      exact hother (hdistinct t' t _ hold hlisted ▸ heq)
    · intro hempty
      refine h.trans ?_
      ext name
      constructor
      · rintro ⟨t, ht⟩
        exact ⟨t, (lists_dropDatabase_iff hmem t name).mpr ⟨ht, hempty db hdb t ht.1⟩⟩
      · rintro ⟨t, ht⟩
        exact ⟨t, ((lists_dropDatabase_iff hmem t name).mp ht).1⟩
  | @createTable dbName request tableId created db hdb hfresh _ =>
    refine iff_of_true ?_ trivial
    have hname : db.dbName = dbName := Table.key_of_find? hdb
    have hafter := glueNames_insert_table hsound hfresh (Table.mem_of_find? hdb) rfl
      (s.catalog.history ++ [initialHistory created (newTable created db request tableId)])
    rw [Mirrored, names_registerTable henabled, h, ← hname]
    exact hafter.symm
  | updateTable _ hrow hkey _ _ =>
    obtain ⟨-, -, hmem, -⟩ := findTable_eq_some hrow
    refine iff_of_true ?_ trivial
    exact h.trans (glueNames_set hmem hkey _).symm
  | @dropTable dbName tableName record hrecord =>
    obtain ⟨db, hdb, hmem, hkey⟩ := findTable_eq_some hrecord
    obtain ⟨hid, htableName⟩ := Prod.mk.inj hkey
    have hname : db.dbName = dbName := Table.key_of_find? hdb
    refine iff_of_true ?_ trivial
    have hafter := glueNames_erase hsound hdistinct hmem (Table.mem_of_find? hdb) hid.symm
      (s.catalog.history.filter (·.tableId ≠ record.tableId))
    rw [hname, htableName] at hafter
    rw [Mirrored, names_unregisterTable henabled, h]
    exact hafter.symm

/-- **When Glue mirrors the catalog.** As long as no two tables share a Glue name, Glue has
exactly the entries of the catalog after every request if and only if no database is dropped
while it has tables. -/
theorem mirrored_iff (henabled : settings.glueCatalogDatabase ≠ "")
    {requests : List (Time × CatalogRequest)}
    (hdistinct : Always (handle settings) GlueNamesDistinct emptyService requests) :
    Always (handle settings) Mirrored emptyService requests ↔
      Along (handle settings) DropsEmpty emptyService requests := by
  refine always_iff_along (I := fun s rest => s.catalog.Consistent ∧
    Always (handle settings) GlueNamesDistinct s rest) ?_ ?_ ⟨consistent_empty, hdistinct⟩ ?_
  · rintro s request rest ⟨hsound, hdistinct⟩
    exact ⟨consistent_handled hsound (handled_handle settings s request.1 request.2),
      (always_cons.mp hdistinct).2⟩
  · rintro s request rest ⟨hsound, hdistinct⟩ h
    exact mirrored_handle_iff henabled hsound hdistinct.start h request
  · ext name
    constructor
    · rintro ⟨entry, hentry, -⟩
      exact absurd hentry List.not_mem_nil
    · rintro ⟨t, ht, -⟩
      exact absurd ht List.not_mem_nil

/-- With at most one table there is nothing to share. -/
theorem glueNamesDistinct_of_length_le_one {s : MetadataService}
    (h : s.catalog.tables.rows.length ≤ 1) : GlueNamesDistinct s := by
  rintro t t' name ⟨ht, -⟩ ⟨ht', -⟩
  obtain ⟨n, hn, rfl⟩ := List.mem_iff_getElem.mp ht
  obtain ⟨n', hn', rfl⟩ := List.mem_iff_getElem.mp ht'
  have hsame : n = n' := by omega
  simp only [hsame]

private theorem glueNamesDistinct_dropWithTable : Always (handle { glueCatalogDatabase := "dhp" })
    GlueNamesDistinct emptyService dropWithTable :=
  always_iff.mpr ⟨glueNamesDistinct_of_length_le_one (by decide),
    glueNamesDistinct_of_length_le_one (by decide), glueNamesDistinct_of_length_le_one (by decide),
    glueNamesDistinct_of_length_le_one (by decide), trivial⟩

/-- `mirrored_iff` at a database that is dropped with its table. -/
theorem mirrored_iff_dropWithTable :
    Always (handle { glueCatalogDatabase := "dhp" }) Mirrored emptyService dropWithTable ↔
      Along (handle { glueCatalogDatabase := "dhp" }) DropsEmpty emptyService dropWithTable :=
  mirrored_iff (by decide) glueNamesDistinct_dropWithTable

/-- The table is gone, and its entry is still in Glue. -/
theorem dropped_table_stays_in_glue : ¬ Always (handle { glueCatalogDatabase := "dhp" }) Mirrored
    emptyService dropWithTable := by
  intro h
  have hmirrored := h dropWithTable [] (List.append_nil _).symm
  have hentry : "sales__orders" ∈ Glue.names
      (run (handle { glueCatalogDatabase := "dhp" }) emptyService dropWithTable).glue :=
    ⟨⟨"sales__orders", "s3://lakehouse-warehouse/sales/orders/"⟩, List.mem_cons_self, rfl⟩
  rw [hmirrored] at hentry
  obtain ⟨t, ht, -⟩ := hentry
  exact absurd ht List.not_mem_nil

end DataHarbour.Metadata
