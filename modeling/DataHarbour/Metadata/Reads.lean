import DataHarbour.Metadata.GlueRepair
import DataHarbour.Relational.Queries

/-!
# Reading the catalog

The listings and the single reads, each in a session of its own, on a catalog that requests have
led to. They agree with each other, and what one table answers changes only by the requests that
name it.
-/

namespace DataHarbour.Metadata

open Python Relational Machine

/-! ## The reads -/

/-- The response built from a database row, with the number of its tables. -/
def toDatabaseResponse (c : Catalog) (db : CatalogDatabase) : DatabaseResponse where
  dbId := db.dbId
  dbName := db.dbName
  location := db.location
  owner := db.owner
  description := db.description
  properties := db.properties
  tableCount := c.tables.countRows (·.dbId = db.dbId)
  createdAt := db.createdAt
  updatedAt := db.updatedAt

/-- `get_database`. -/
def getDatabase (c : Catalog) (dbName : String) : Option DatabaseResponse :=
  (c.databases.find? dbName).map (toDatabaseResponse c)

/-- `DatabaseListResponse`. -/
structure DatabaseListResponse where
  total : ℕ
  databases : List DatabaseResponse

/-- `TableListResponse`. -/
structure TableListResponse where
  total : ℕ
  dbName : String
  tables : List TableResponse

section Listings

variable {κ : Type*} [LinearOrder κ]

/-- `list_databases`; the collation of the database says how names are ordered. -/
def listDatabases (collate : String → κ) (c : Catalog) : DatabaseListResponse :=
  let databases := c.databases.rows.insertionSort (collate ·.dbName ≤ collate ·.dbName)
  { total := databases.length, databases := databases.map (toDatabaseResponse c) }

/-- `list_tables`. -/
def listTables (collate : String → κ) (c : Catalog) (dbName : String) :
    Option TableListResponse :=
  (c.databases.find? dbName).map fun db =>
    let tables := (c.tables.rows.filter (·.dbId = db.dbId)).insertionSort
      (collate ·.tableName ≤ collate ·.tableName)
    { total := tables.length, dbName := dbName, tables := tables.map (toTableResponse dbName) }

end Listings

/-! ## Agreement -/

variable {settings : Settings} {s s' : MetadataService} {c : Catalog}

/-- A lookup finds exactly the stored table of that database and name. -/
theorem findTable_iff {dbName tableName : String} {t : CatalogTable} :
    c.findTable dbName tableName = some t ↔ ∃ db ∈ c.databases.rows, db.dbName = dbName ∧
      t ∈ c.tables.rows ∧ t.key = (db.dbId, tableName) := by
  constructor
  · intro h
    obtain ⟨db, hdb, ht, hkey⟩ := findTable_eq_some h
    exact ⟨db, Table.mem_of_find? hdb, Table.key_of_find? hdb, ht, hkey⟩
  · rintro ⟨db, hdb, rfl, ht, hkey⟩
    rw [Catalog.findTable, Table.find?_of_mem hdb, Option.bind_some, ← hkey]
    exact Table.find?_of_mem ht

/-- What the listings answer is what the single reads answer. -/
structure ReadsAgree {κ : Type*} [LinearOrder κ] (collate : String → κ) (c : Catalog) : Prop where
  ordered : (listDatabases collate c).databases.Pairwise (collate ·.dbName ≤ collate ·.dbName)
  distinct : ((listDatabases collate c).databases.map DatabaseResponse.dbName).Nodup
  databases : ∀ r, r ∈ (listDatabases collate c).databases ↔ getDatabase c r.dbName = some r
  missing : ∀ dbName, listTables collate c dbName = none ↔ getDatabase c dbName = none
  tables : ∀ dbName l, listTables collate c dbName = some l →
    l.tables.Pairwise (collate ·.tableName ≤ collate ·.tableName) ∧
      (l.tables.map TableResponse.tableName).Nodup ∧
      ∀ r, r ∈ l.tables ↔ getTable c dbName r.tableName = some r
  counts : ∀ dbName l r, listTables collate c dbName = some l → getDatabase c dbName = some r →
    r.tableCount = l.total ∧ l.total = l.tables.length
  total : ((listDatabases collate c).databases.map DatabaseResponse.tableCount).sum =
    c.tables.rows.length

section Agreement

variable {κ : Type*} [LinearOrder κ] (collate : String → κ)

private theorem mem_listDatabases_iff (r : DatabaseResponse) :
    r ∈ (listDatabases collate c).databases ↔ getDatabase c r.dbName = some r := by
  simp only [listDatabases, getDatabase, List.mem_map, Option.map_eq_some_iff,
    (List.perm_insertionSort _ _).mem_iff]
  constructor
  · rintro ⟨db, hdb, rfl⟩
    exact ⟨db, Table.find?_of_mem hdb, rfl⟩
  · rintro ⟨db, hdb, hr⟩
    exact ⟨db, Table.mem_of_find? hdb, hr⟩

/-- The listing of one database. -/
theorem listTables_spec {dbName : String} {l : TableListResponse}
    (h : listTables collate c dbName = some l) :
    l.tables.Pairwise (collate ·.tableName ≤ collate ·.tableName) ∧
      (l.tables.map TableResponse.tableName).Nodup ∧
      ∀ r, r ∈ l.tables ↔ getTable c dbName r.tableName = some r := by
  obtain ⟨db, hdb, rfl⟩ := Option.map_eq_some_iff.mp h
  have hperm := List.perm_insertionSort (collate ·.tableName ≤ collate ·.tableName)
    (c.tables.rows.filter (·.dbId = db.dbId))
  refine ⟨?_, ?_, fun r => ?_⟩
  · rw [List.pairwise_map]
    exact sorted_by_key (fun t : CatalogTable => collate t.tableName) _
  · rw [List.map_map]
    refine ((hperm.map _).nodup_iff).mpr (List.Nodup.map_on ?_ ?_)
    · -- within one database the name is the key
      intro t ht t' ht' heq
      obtain ⟨hmem, hid⟩ := List.mem_filter.mp ht
      obtain ⟨hmem', hid'⟩ := List.mem_filter.mp ht'
      refine Table.eq_of_key_eq hmem hmem' (Prod.ext ?_ heq)
      exact (of_decide_eq_true hid).trans (of_decide_eq_true hid').symm
    · exact c.tables.nodup.of_map.filter _
  · simp only [List.mem_map, hperm.mem_iff, List.mem_filter, decide_eq_true_eq, getTable,
      Option.map_eq_some_iff]
    constructor
    · rintro ⟨t, ⟨ht, hid⟩, rfl⟩
      exact ⟨t, findTable_iff.mpr ⟨db, Table.mem_of_find? hdb, Table.key_of_find? hdb, ht,
        Prod.ext hid rfl⟩, rfl⟩
    · rintro ⟨t, ht, hr⟩
      obtain ⟨db', hdb', hname, hmem, hkey⟩ := findTable_iff.mp ht
      have hsame := Table.find?_of_mem hdb'
      rw [hname, hdb] at hsame
      obtain rfl := Option.some.inj hsame
      exact ⟨t, ⟨hmem, congrArg Prod.fst hkey⟩, hr⟩

private theorem readsAgree_of_consistent (h : c.Consistent) : ReadsAgree collate c where
  ordered := by
    rw [listDatabases, List.pairwise_map]
    exact sorted_by_key (fun db : CatalogDatabase => collate db.dbName) _
  distinct := by
    rw [listDatabases, List.map_map]
    exact ((List.perm_insertionSort _ _).map _).nodup_iff.mpr c.databases.nodup
  databases := mem_listDatabases_iff collate
  missing dbName := by simp [listTables, getDatabase]
  tables _ _ := listTables_spec collate
  counts dbName l r hl hr := by
    obtain ⟨db, hdb, rfl⟩ := Option.map_eq_some_iff.mp hl
    obtain ⟨db', hdb', rfl⟩ := Option.map_eq_some_iff.mp hr
    obtain rfl := Option.some.inj (hdb.symm.trans hdb')
    refine ⟨?_, by simp⟩
    simp [toDatabaseResponse, Table.countRows, List.countP_eq_length_filter]
  total := by
    have hnodup : (c.databases.rows.map CatalogDatabase.dbId).Nodup :=
      List.Nodup.map_on (fun db hdb db' hdb' => h.ids db hdb db' hdb') c.databases.nodup.of_map
    have hmem : ∀ t ∈ c.tables.rows, t.dbId ∈ c.databases.rows.map CatalogDatabase.dbId := by
      intro t ht
      obtain ⟨db, hdb, hid⟩ := h.owner t ht
      exact hid ▸ List.mem_map_of_mem hdb
    rw [← sum_countP_groups CatalogTable.dbId hnodup hmem, List.map_map, listDatabases,
      List.map_map]
    exact ((List.perm_insertionSort _ _).map _).sum_eq

end Agreement

/-- **The reads agree in every state.** Whatever requests, failing calls and failing commits have
led to the catalog: `list_databases` and `list_tables` list in their order, once each, exactly what
`get_database` and `get_table` find, and the counts of tables are right and add up to the number of
tables in the catalog. -/
theorem reads_agree {κ : Type*} [LinearOrder κ] (collate : String → κ) (settings : Settings)
    (actions : List CatalogAction) :
    ReadsAgree collate (run (act settings) emptyService actions).catalog :=
  readsAgree_of_consistent collate (placed_run settings actions).consistent

/-! ## What one table answers -/

/-- The request may change what the table answers. -/
def CatalogRequest.Names (dbName tableName : String) : CatalogRequest → Prop
  | .createDatabase _ _ => False
  | .dropDatabase db => db = dbName
  | .createTable db request _ => db = dbName ∧ request.tableName = tableName
  | .updateTable db table _ | .dropTable db table => db = dbName ∧ table = tableName

/-- The action may change what the table answers. -/
def CatalogAction.Names (dbName tableName : String) : CatalogAction → Prop
  | .request _ timed => timed.2.Names dbName tableName
  | .syncGlue _ _ => False

/-- Other requests keep the row. -/
theorem findTable_handled (h : s.catalog.Consistent) {request : CatalogRequest}
    (hhandled : Handled settings s request s') {dbName tableName : String}
    (hother : ¬ request.Names dbName tableName) :
    s'.catalog.findTable dbName tableName = s.catalog.findTable dbName tableName := by
  ext row
  rw [findTable_iff, findTable_iff]
  -- equal keys name one table
  have hsame : ∀ {db db' : CatalogDatabase} {t : CatalogTable} {table : String},
      db ∈ s.catalog.databases.rows → db' ∈ s.catalog.databases.rows →
        t.key = (db.dbId, table) → t.key = (db'.dbId, tableName) →
          db.dbName = db'.dbName ∧ table = tableName := by
    intro db db' t table hdb hdb' hkey hkey'
    obtain ⟨hid, htable⟩ := Prod.mk.inj (hkey.symm.trans hkey')
    exact ⟨congrArg CatalogDatabase.dbName (h.ids db hdb db' hdb' hid), htable⟩
  cases hhandled with
  | rejected => rfl
  | createDatabase now hfresh hid =>
    constructor
    · rintro ⟨db, hdb, hname, hrow, hkey⟩
      rcases (Table.mem_insert hfresh).mp hdb with rfl | hold
      · -- the tables belong to older databases
        obtain ⟨owner, howner, hownerId⟩ := h.owner row hrow
        exact absurd (hownerId.trans (congrArg Prod.fst hkey)) (hid owner howner)
      · exact ⟨db, hold, hname, hrow, hkey⟩
    · rintro ⟨db, hdb, hname, hrow, hkey⟩
      exact ⟨db, List.mem_cons_of_mem _ hdb, hname, hrow, hkey⟩
  | @dropDatabase dropped db' hdb' =>
    have hmem' := Table.mem_of_find? hdb'
    have hname' := Table.key_of_find? hdb'
    constructor
    · rintro ⟨db, hdb, hname, hrow, hkey⟩
      exact ⟨db, (Table.mem_erase.mp hdb).1, hname, (Table.mem_delete.mp hrow).1, hkey⟩
    · rintro ⟨db, hdb, hname, hrow, hkey⟩
      have hne : db.dbName ≠ db'.dbName := by
        intro heq
        exact hother (hname'.symm.trans (heq.symm.trans hname))
      refine ⟨db, Table.mem_erase.mpr ⟨hdb, hne⟩, hname, Table.mem_delete.mpr ⟨hrow, ?_⟩, hkey⟩
      have hid : row.dbId ≠ db'.dbId := by
        intro hid
        have hids := h.ids db hdb db' hmem' ((congrArg Prod.fst hkey).symm.trans hid)
        exact hne (congrArg CatalogDatabase.dbName hids)
      simpa using hid
  | @createTable dbName' request tableId now db' hdb' hfresh hid =>
    constructor
    · rintro ⟨db, hdb, hname, hrow, hkey⟩
      rcases (Table.mem_insert hfresh).mp hrow with rfl | hold
      · obtain ⟨hdbName, htable⟩ := hsame (Table.mem_of_find? hdb') hdb rfl hkey
        exact absurd ⟨(Table.key_of_find? hdb').symm.trans (hdbName.trans hname), htable⟩ hother
      · exact ⟨db, hdb, hname, hold, hkey⟩
    · rintro ⟨db, hdb, hname, hrow, hkey⟩
      exact ⟨db, hdb, hname, List.mem_cons_of_mem _ hrow, hkey⟩
  | @updateTable dbName' tableName' _ old row' _ _ _ hold hkey' _ _ =>
    obtain ⟨db', hdb', hmem, hkeyOld⟩ := findTable_eq_some hold
    have hnamed : ∀ db ∈ s.catalog.databases.rows, db.dbName = dbName →
        old.key ≠ (db.dbId, tableName) := by
      intro db hdb hname hkey
      obtain ⟨hdbName, htable⟩ := hsame (Table.mem_of_find? hdb') hdb hkeyOld hkey
      exact hother ⟨(Table.key_of_find? hdb').symm.trans (hdbName.trans hname), htable⟩
    constructor
    · rintro ⟨db, hdb, hname, hrow, hkey⟩
      rcases (Table.mem_set_iff hmem hkey').mp hrow with rfl | ⟨hrow, -⟩
      · exact absurd (hkey'.symm.trans hkey) (hnamed db hdb hname)
      · exact ⟨db, hdb, hname, hrow, hkey⟩
    · rintro ⟨db, hdb, hname, hrow, hkey⟩
      refine ⟨db, hdb, hname, (Table.mem_set_iff hmem hkey').mpr (.inr ⟨hrow, ?_⟩), hkey⟩
      rintro rfl
      exact hnamed db hdb hname hkey
  | @dropTable dbName' tableName' record hrecord =>
    obtain ⟨db', hdb', hmem, hkeyRecord⟩ := findTable_eq_some hrecord
    constructor
    · rintro ⟨db, hdb, hname, hrow, hkey⟩
      exact ⟨db, hdb, hname, (Table.mem_erase.mp hrow).1, hkey⟩
    · rintro ⟨db, hdb, hname, hrow, hkey⟩
      refine ⟨db, hdb, hname, Table.mem_erase.mpr ⟨hrow, fun heq => hother ?_⟩, hkey⟩
      obtain ⟨hdbName, htable⟩ :=
        hsame (Table.mem_of_find? hdb') hdb (heq.trans hkeyRecord) hkey
      exact ⟨(Table.key_of_find? hdb').symm.trans (hdbName.trans hname), htable⟩

/-- Runs that do not name the table keep what it answers. -/
theorem getTable_run {dbName tableName : String} {actions : List CatalogAction}
    (hother : ∀ action ∈ actions, ¬ action.Names dbName tableName)
    (h : Placed settings s.catalog) :
    getTable (run (act settings) s actions).catalog dbName tableName =
      getTable s.catalog dbName tableName := by
  have halong : Along (act settings) (fun _ action => ¬ action.Names dbName tableName) s
      actions := by
    rw [along_iff_forall_split]
    exact fun first action rest heq =>
      hother action (heq ▸ List.mem_append_right first List.mem_cons_self)
  have hafter := halong.preserves (I := fun s' => Placed settings s'.catalog ∧
    s'.catalog.findTable dbName tableName = s.catalog.findTable dbName tableName) ?_ ⟨h, rfl⟩
  · rw [getTable, hafter.2]
    rfl
  · rintro s' action ⟨hplaced, heq⟩ hunnamed
    refine ⟨placed_act hplaced action, Eq.trans ?_ heq⟩
    cases action with
    | request faults request =>
      obtain ⟨now, request⟩ := request
      simp only [act]
      split
      · exact findTable_handled hplaced.consistent (handled_handle settings s' now request)
          hunnamed
      · rfl
    | syncGlue other answers =>
      simp only [act]
      split
      · rfl
      · split <;> rfl

/-- A request that is answered has had its effect. -/
theorem getTable_createTable {now : Time} {dbName : String} {request : TableCreateRequest}
    {tableId : TableId} {response : TableResponse}
    (h : createTable settings now s dbName request tableId = some (some response, s')) :
    getTable s'.catalog dbName request.tableName = some response := by
  unfold createTable at h
  split at h
  · cases h
  · next db hdb =>
    simp only at h
    split at h
    · cases h
    · obtain ⟨tables, hinsert, heq⟩ := Option.map_eq_some_iff.mp h
      obtain ⟨hresponse, rfl⟩ := Prod.mk.inj heq
      obtain rfl := Option.some.inj hresponse
      obtain ⟨hfresh, rfl⟩ := Table.insert?_eq_some hinsert
      refine Option.map_eq_some_iff.mpr ⟨newTable now db request tableId, ?_, rfl⟩
      exact findTable_iff.mpr ⟨db, Table.mem_of_find? hdb, Table.key_of_find? hdb,
        (Table.mem_insert hfresh).mpr (.inl rfl), rfl⟩

private theorem getTable_dropTable {dbName tableName : String}
    (hdropped : dropTable settings s dbName tableName = (true, s')) :
    getTable s'.catalog dbName tableName = none := by
  unfold dropTable at hdropped
  split at hdropped
  · cases hdropped
  · next record hrecord =>
    obtain ⟨-, rfl⟩ := Prod.mk.inj hdropped
    rw [getTable, Option.map_eq_none_iff, Option.eq_none_iff_forall_ne_some]
    intro row hrow
    obtain ⟨db, hdb, hname, hmem, hkey⟩ := findTable_iff.mp hrow
    obtain ⟨db', hdb', -, hkey'⟩ := findTable_eq_some hrecord
    have hsame := Table.find?_of_mem hdb
    rw [hname] at hsame
    obtain rfl := Option.some.inj (hsame.symm.trans hdb')
    exact (Table.mem_erase.mp hmem).2 (hkey.trans hkey'.symm)

/-- **A table answers what was last done to it.** In every state and every run that follows, as
long as no request names the table or its database: `get_table` answers what `create_table` has
answered, or nothing after `drop_table`, and else what it answered before. Other requests, syncs
with Glue, and everything that fails on the way make no difference. -/
theorem table_answers_until_named (settings : Settings) (before : List CatalogAction)
    {after : List CatalogAction} {dbName tableName : String}
    (hother : ∀ action ∈ after, ¬ action.Names dbName tableName) :
    let s := run (act settings) emptyService before
    let answer := fun s => getTable (run (act settings) s after).catalog dbName tableName
    (∀ now request tableId response s', request.tableName = tableName →
      createTable settings now s dbName request tableId = some (some response, s') →
        answer s' = some response) ∧
    (∀ s', dropTable settings s dbName tableName = (true, s') → answer s' = none) ∧
    answer s = getTable s.catalog dbName tableName := by
  intro s answer
  have hplaced : Placed settings s.catalog := placed_run settings before
  refine ⟨?_, ?_, getTable_run hother hplaced⟩
  · rintro now request tableId response s' rfl hcreate
    have hafter := placed_handled hplaced (handled_createTable hcreate)
    exact (getTable_run hother hafter).trans (getTable_createTable hcreate)
  · intro s' hdrop
    have hafter : Placed settings s'.catalog := by
      have hhandled := placed_handled hplaced
        (handled_handle settings s 0 (.dropTable dbName tableName))
      rwa [handle, hdrop] at hhandled
    exact (getTable_run hother hafter).trans (getTable_dropTable hdrop)

/-- A request for another table. -/
def returnsRequest : TableCreateRequest where
  tableName := "returns"
  schemaFields := [{ name := "return_id", type := "long" }]

/-- The table is created, and then another one. -/
theorem table_answers_until_named_orders :
    let s := run (act {}) emptyService [.request {} (0, .createDatabase salesRequest 1)]
    let after : List CatalogAction :=
      [.request {} (2, .createTable "sales" returnsRequest 2)]
    let answer := fun s => getTable (run (act {}) s after).catalog "sales" "orders"
    (∀ now request tableId response s', request.tableName = "orders" →
      createTable {} now s "sales" request tableId = some (some response, s') →
        answer s' = some response) ∧
    (∀ s', dropTable {} s "sales" "orders" = (true, s') → answer s' = none) ∧
    answer s = getTable s.catalog "sales" "orders" := by
  refine table_answers_until_named {} [.request {} (0, .createDatabase salesRequest 1)] ?_
  intro action haction
  rw [List.mem_singleton.mp haction]
  rintro ⟨-, hname⟩
  exact absurd hname (by decide)

end DataHarbour.Metadata
