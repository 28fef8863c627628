import Mathlib.Data.List.DropRight
import DataHarbour.Machine.Runs
import DataHarbour.Metadata.UpdateTable

/-!
# The metadata service

The requests that change the catalog, with what they do beside it: the gauges of the process and
the entries of the Glue database. A request whose flush violates a unique constraint is rolled
back before it has touched either.
-/

namespace DataHarbour.Metadata

open Python Relational Machine

/-! ## Requests and responses -/

/-- The characters that a name may start with. -/
def isNameStart (c : Char) : Bool := c.isAlpha || c = '_'

/-- The characters of a name. -/
def isNameChar (c : Char) : Bool := c.isAlphanum || c = '_'

/-- `min_length=1, max_length=255, pattern=r"^[a-zA-Z_][a-zA-Z0-9_]*$"`. -/
def validName (name : String) : Bool :=
  match name.toList with
  | [] => false
  | c :: cs => isNameStart c && cs.all isNameChar && decide (name.length ≤ 255)

/-- `DatabaseCreateRequest`. -/
structure DatabaseCreateRequest where
  dbName : String
  owner : Option String := none
  description : Option String := none
  properties : Dict := []
  name_valid : validName dbName = true := by decide

/-- `TableCreateRequest`. -/
structure TableCreateRequest where
  tableName : String
  tableType : String := "ICEBERG"
  schemaFields : List ColumnSchema
  partitionSpec : List Dict := []
  sortOrder : List Dict := []
  properties : Dict := []
  description : Option String := none
  name_valid : validName tableName = true := by decide
  /-- `min_length=1`. -/
  fields_nonempty : schemaFields ≠ [] := by decide

/-- `DatabaseResponse`. -/
structure DatabaseResponse where
  dbId : DbId
  dbName : String
  location : Option String
  owner : Option String
  description : Option String
  properties : Dict
  tableCount : ℕ
  createdAt : Time
  updatedAt : Time

/-! ## Glue -/

/-- The settings that the catalog operations read. -/
structure Settings where
  s3WarehouseBucket : String := "lakehouse-warehouse"
  glueCatalogDatabase : String := ""

/-- A marker entry of the Glue database. -/
structure GlueEntry where
  name : String
  location : String

/-- The entries of the Glue database. -/
abbrev Glue := Table GlueEntry.name

/-- `location.rstrip("/") + "/"`. -/
def slashTerminated (location : String) : String :=
  String.ofList (location.toList.rdropWhile (· = '/')) ++ "/"

/-- `register_table`, with a call that succeeds; an entry that exists already stays. -/
def registerTable (settings : Settings) (glue : Glue) (tableName location : String) : Glue :=
  if settings.glueCatalogDatabase = "" then glue
  else (glue.insert? ⟨tableName, slashTerminated location⟩).getD glue

/-- `drop_table` of the Glue client, with a call that succeeds. -/
def unregisterTable (settings : Settings) (glue : Glue) (tableName : String) : Glue :=
  if settings.glueCatalogDatabase = "" then glue else glue.erase tableName

/-- The name of the entry of a table. -/
def glueName (dbName tableName : String) : String := s!"{dbName}__{tableName}"

/-! ## Operations -/

/-- The service: the committed catalog, the Glue database, and the gauges of the process. -/
structure MetadataService where
  catalog : Catalog
  glue : Glue
  /-- `CATALOG_DATABASES`. -/
  catalogDatabases : ℤ
  /-- `CATALOG_TABLES`. -/
  catalogTables : ℤ

/-- The row that `create_database` adds. -/
def newDatabase (settings : Settings) (now : Time) (request : DatabaseCreateRequest)
    (dbId : DbId) : CatalogDatabase where
  dbId := dbId
  dbName := request.dbName
  location := some s!"s3://{settings.s3WarehouseBucket}/{request.dbName}/"
  owner := request.owner
  description := request.description
  properties := request.properties
  createdAt := now
  updatedAt := now

/-- `create_database`; `none` if the flush violates a unique constraint. -/
def createDatabase (settings : Settings) (now : Time) (s : MetadataService)
    (request : DatabaseCreateRequest) (dbId : DbId) :
    Option (DatabaseResponse × MetadataService) :=
  let record := newDatabase settings now request dbId
  if s.catalog.databases.rows.any (·.dbId = dbId) then none
  else (s.catalog.databases.insert? record).map fun databases => ({
    dbId := record.dbId
    dbName := record.dbName
    location := record.location
    owner := record.owner
    description := record.description
    properties := record.properties
    tableCount := 0
    createdAt := record.createdAt
    updatedAt := record.updatedAt },
    { s with
      catalog := { s.catalog with databases := databases }
      catalogDatabases := s.catalogDatabases + 1 })

/-- The catalog without a database and, by the cascade, without its tables and their history. -/
def Catalog.dropDatabase (c : Catalog) (db : CatalogDatabase) : Catalog where
  databases := c.databases.erase db.dbName
  tables := c.tables.delete (·.dbId = db.dbId)
  history := c.history.filter fun h =>
    !c.tables.rows.any fun t => t.dbId = db.dbId && t.tableId = h.tableId

/-- `drop_database`. -/
def dropDatabase (s : MetadataService) (dbName : String) : Bool × MetadataService :=
  match s.catalog.databases.find? dbName with
  | none => (false, s)
  | some db =>
    (true, { s with
      catalog := s.catalog.dropDatabase db
      catalogDatabases := s.catalogDatabases - 1 })

/-- The text of a nullable string in an f-string. -/
def formatOptional : Option String → String
  | some text => text
  | none => "None"

/-- The schema that `create_table` builds from the fields of the request. -/
def initialSchema (fields : List ColumnSchema) : Json :=
  .obj [("type", .str "struct"), ("fields", .arr (fields.map ColumnSchema.toJson))]

/-- The row that `create_table` adds. -/
def newTable (now : Time) (db : CatalogDatabase) (request : TableCreateRequest)
    (tableId : TableId) : CatalogTable where
  tableId := tableId
  dbId := db.dbId
  tableName := request.tableName
  tableType := request.tableType
  location := some s!"{formatOptional db.location}{request.tableName}/"
  schemaJson := initialSchema request.schemaFields
  partitionSpec := request.partitionSpec.map .obj
  sortOrder := request.sortOrder.map .obj
  properties := request.properties
  description := request.description
  createdAt := now
  updatedAt := now

/-- The first row of a table's history. -/
def initialHistory (now : Time) (record : CatalogTable) : SchemaHistory where
  tableId := record.tableId
  version := 1
  schemaJson := record.schemaJson
  changeSummary := some "Initial schema creation"
  changedBy := none
  createdAt := now

/-- `create_table`; `none` if the flush violates a unique constraint. -/
def createTable (settings : Settings) (now : Time) (s : MetadataService) (dbName : String)
    (request : TableCreateRequest) (tableId : TableId) :
    Option (Option TableResponse × MetadataService) :=
  match s.catalog.databases.find? dbName with
  | none => some (none, s)
  | some db =>
    let record := newTable now db request tableId
    if s.catalog.tables.rows.any (·.tableId = tableId) then none
    else (s.catalog.tables.insert? record).map fun tables =>
      (some (toTableResponse dbName record), { s with
        catalog := { s.catalog with
          tables := tables
          history := s.catalog.history ++ [initialHistory now record] }
        glue := registerTable settings s.glue (glueName dbName request.tableName)
          (formatOptional record.location)
        catalogTables := s.catalogTables + 1 })

/-- `drop_table`. -/
def dropTable (settings : Settings) (s : MetadataService) (dbName tableName : String) :
    Bool × MetadataService :=
  match s.catalog.findTable dbName tableName with
  | none => (false, s)
  | some record =>
    (true, { s with
      catalog := { s.catalog with
        tables := s.catalog.tables.erase record.key
        history := s.catalog.history.filter (·.tableId ≠ record.tableId) }
      glue := unregisterTable settings s.glue (glueName dbName tableName)
      catalogTables := s.catalogTables - 1 })

/-! ## Runs of the service -/

/-- A request that may change the catalog, with the id that is drawn for a new row. -/
inductive CatalogRequest where
  | createDatabase (request : DatabaseCreateRequest) (dbId : DbId)
  | dropDatabase (dbName : String)
  | createTable (dbName : String) (request : TableCreateRequest) (tableId : TableId)
  | updateTable (dbName tableName : String) (request : TableUpdateRequest)
  | dropTable (dbName tableName : String)

/-- The service after a request that is handled at the given time. A request that raises is
rolled back. -/
def handle (settings : Settings) (s : MetadataService) : Time × CatalogRequest → MetadataService
  | (now, .createDatabase request dbId) =>
    ((createDatabase settings now s request dbId).map Prod.snd).getD s
  | (_, .dropDatabase dbName) => (dropDatabase s dbName).2
  | (now, .createTable dbName request tableId) =>
    ((createTable settings now s dbName request tableId).map Prod.snd).getD s
  | (now, .updateTable dbName tableName request) =>
    match updateTable now s.catalog dbName tableName request with
    | .ok (_, catalog) => { s with catalog := catalog }
    | .error _ => s
  | (_, .dropTable dbName tableName) => (dropTable settings s dbName tableName).2

/-- The catalog without rows. -/
def Catalog.empty : Catalog := ⟨Table.empty, Table.empty, []⟩

/-- `_seed_catalog_gauges`: a process that starts on a catalog and a Glue database. -/
def seedCatalogGauges (catalog : Catalog) (glue : Glue) : MetadataService where
  catalog := catalog
  glue := glue
  catalogDatabases := catalog.databases.rows.length
  catalogTables := catalog.tables.rows.length

/-- A service that starts on an empty catalog and an empty Glue database. -/
def emptyService : MetadataService := seedCatalogGauges .empty Table.empty

/-- What a request can do. -/
inductive Handled (settings : Settings) (s : MetadataService) :
    CatalogRequest → MetadataService → Prop
  | rejected {request : CatalogRequest}
    (hdrop : ∀ dbName, request = .dropDatabase dbName →
      s.catalog.databases.find? dbName = none) : Handled settings s request s
  | createDatabase {request : DatabaseCreateRequest} {dbId : DbId} (now : Time)
    (hfresh : s.catalog.databases.find? (newDatabase settings now request dbId).dbName = none)
    (hid : ∀ db ∈ s.catalog.databases.rows, db.dbId ≠ dbId) :
    Handled settings s (.createDatabase request dbId)
      { s with
        catalog := { s.catalog with
          databases := s.catalog.databases.insert (newDatabase settings now request dbId) hfresh }
        catalogDatabases := s.catalogDatabases + 1 }
  | dropDatabase {dbName : String} {db : CatalogDatabase}
    (hdb : s.catalog.databases.find? dbName = some db) :
    Handled settings s (.dropDatabase dbName)
      { s with
        catalog := s.catalog.dropDatabase db
        catalogDatabases := s.catalogDatabases - 1 }
  | createTable {dbName : String} {request : TableCreateRequest} {tableId : TableId} (now : Time)
    {db : CatalogDatabase} (hdb : s.catalog.databases.find? dbName = some db)
    (hfresh : s.catalog.tables.find? (newTable now db request tableId).key = none)
    (hid : ∀ t ∈ s.catalog.tables.rows, t.tableId ≠ tableId) :
    Handled settings s (.createTable dbName request tableId)
      { s with
        catalog := { s.catalog with
          tables := s.catalog.tables.insert (newTable now db request tableId) hfresh
          history := s.catalog.history ++ [initialHistory now (newTable now db request tableId)] }
        glue := registerTable settings s.glue (glueName dbName request.tableName)
          (formatOptional (newTable now db request tableId).location)
        catalogTables := s.catalogTables + 1 }
  | updateTable {dbName tableName : String} {request : TableUpdateRequest}
    {row row' : CatalogTable} {schema : Json} {changes : List String} (now : Time)
    (hrow : s.catalog.findTable dbName tableName = some row) (hkey : row'.key = row.key)
    (hid : row'.tableId = row.tableId) (hlocation : row'.location = row.location) :
    Handled settings s (.updateTable dbName tableName request)
      { s with catalog := { s.catalog with
          tables := s.catalog.tables.set row'
          history := s.catalog.history ++
            historyRow now s.catalog row request schema changes } }
  | dropTable {dbName tableName : String} {record : CatalogTable}
    (hrecord : s.catalog.findTable dbName tableName = some record) :
    Handled settings s (.dropTable dbName tableName)
      { s with
        catalog := { s.catalog with
          tables := s.catalog.tables.erase record.key
          history := s.catalog.history.filter (·.tableId ≠ record.tableId) }
        glue := unregisterTable settings s.glue (glueName dbName tableName)
        catalogTables := s.catalogTables - 1 }

private theorem handled_createDatabase {settings : Settings} {s : MetadataService} {now : Time}
    {request : DatabaseCreateRequest} {dbId : DbId} {result : DatabaseResponse × MetadataService}
    (h : createDatabase settings now s request dbId = some result) :
    Handled settings s (.createDatabase request dbId) result.2 := by
  simp only [createDatabase] at h
  split at h
  · cases h
  · next hid =>
    obtain ⟨databases, hinsert, rfl⟩ := Option.map_eq_some_iff.mp h
    obtain ⟨hfresh, rfl⟩ := Table.insert?_eq_some hinsert
    exact .createDatabase now hfresh (by simpa using hid)

/-- `Handled` says all that creating a table does. -/
theorem handled_createTable {settings : Settings} {s : MetadataService} {now : Time}
    {dbName : String} {request : TableCreateRequest} {tableId : TableId}
    {result : Option TableResponse × MetadataService}
    (h : createTable settings now s dbName request tableId = some result) :
    Handled settings s (.createTable dbName request tableId) result.2 := by
  unfold createTable at h
  split at h
  · obtain rfl := Option.some.inj h
    exact .rejected (by simp)
  · next db hdb =>
    simp only at h
    split at h
    · cases h
    · next hid =>
      obtain ⟨tables, hinsert, rfl⟩ := Option.map_eq_some_iff.mp h
      obtain ⟨hfresh, rfl⟩ := Table.insert?_eq_some hinsert
      exact .createTable now hdb hfresh (by simpa using hid)

/-- `Handled` says all that a request does. -/
theorem handled_handle (settings : Settings) (s : MetadataService) (now : Time)
    (request : CatalogRequest) : Handled settings s request (handle settings s (now, request)) := by
  cases request with
  | createDatabase request dbId =>
    simp only [handle]
    cases hcreate : createDatabase settings now s request dbId with
    | none => exact .rejected (by simp)
    | some result => exact handled_createDatabase hcreate
  | dropDatabase dbName =>
    simp only [handle, dropDatabase]
    split
    · next hnone =>
      refine .rejected fun name hname => ?_
      cases hname
      exact hnone
    · next db hdb => exact .dropDatabase hdb
  | createTable dbName request tableId =>
    simp only [handle]
    cases hcreate : createTable settings now s dbName request tableId with
    | none => exact .rejected (by simp)
    | some result => exact handled_createTable hcreate
  | updateTable dbName tableName request =>
    simp only [handle]
    split
    · next response catalog hupdate =>
      rcases updateTable_cases hupdate with
        rfl | ⟨row, row', schema, changes, hrow, hkey, hid, hlocation, rfl⟩
      · exact .rejected (by simp)
      · exact .updateTable now hrow hkey hid hlocation
    · exact .rejected (by simp)
  | dropTable dbName tableName =>
    simp only [handle, dropTable]
    split
    · exact .rejected (by simp)
    · next record hrecord => exact .dropTable hrecord

/-! ## What the keys guarantee -/

/-- Database ids are unique, and every table belongs to a database. -/
structure Catalog.Consistent (c : Catalog) : Prop where
  ids : ∀ db ∈ c.databases.rows, ∀ db' ∈ c.databases.rows, db.dbId = db'.dbId → db = db'
  owner : ∀ t ∈ c.tables.rows, ∃ db ∈ c.databases.rows, db.dbId = t.dbId

/-- The empty catalog is consistent. -/
theorem consistent_empty : Catalog.empty.Consistent where
  ids _ hdb := absurd hdb List.not_mem_nil
  owner _ ht := absurd ht List.not_mem_nil

/-- A table that is found belongs to the database it is looked up in. -/
theorem findTable_eq_some {c : Catalog} {dbName tableName : String} {record : CatalogTable}
    (h : c.findTable dbName tableName = some record) :
    ∃ db, c.databases.find? dbName = some db ∧ record ∈ c.tables.rows ∧
      record.key = (db.dbId, tableName) := by
  obtain ⟨db, hdb, hfind⟩ := Option.bind_eq_some_iff.mp h
  exact ⟨db, hdb, Table.mem_of_find? hfind, Table.key_of_find? hfind⟩

/-- Every handled request keeps the catalog consistent. -/
theorem consistent_handled {settings : Settings} {s s' : MetadataService}
    {request : CatalogRequest} (h : s.catalog.Consistent)
    (hhandled : Handled settings s request s') : s'.catalog.Consistent := by
  cases hhandled with
  | rejected hdrop => exact h
  | createDatabase now hfresh hid =>
    constructor
    · intro db hdb db' hdb' heq
      rcases (Table.mem_insert hfresh).mp hdb with rfl | hold <;>
        rcases (Table.mem_insert hfresh).mp hdb' with rfl | hold'
      · rfl
      · exact absurd heq.symm (hid db' hold')
      · exact absurd heq (hid db hold)
      · exact h.ids db hold db' hold' heq
    · intro t ht
      obtain ⟨db, hdb, howner⟩ := h.owner t ht
      exact ⟨db, List.mem_cons_of_mem _ hdb, howner⟩
  | @dropDatabase dbName db hdb =>
    have hname := Table.key_of_find? hdb
    constructor
    · intro db₁ hdb₁ db₂ hdb₂ heq
      exact h.ids db₁ (Table.mem_erase.mp hdb₁).1 db₂ (Table.mem_erase.mp hdb₂).1 heq
    · intro t ht
      obtain ⟨hmem, hother⟩ := Table.mem_delete.mp ht
      obtain ⟨owner, howner, hid⟩ := h.owner t hmem
      refine ⟨owner, Table.mem_erase.mpr ⟨howner, fun hsame => ?_⟩, hid⟩
      have heq := Table.eq_of_key_eq howner (Table.mem_of_find? hdb) hsame
      rw [← hid, heq] at hother
      simp at hother
  | @createTable _ _ _ _ db hdb hfresh hid =>
    refine ⟨h.ids, fun t ht => ?_⟩
    rcases (Table.mem_insert hfresh).mp ht with rfl | hold
    · exact ⟨db, Table.mem_of_find? hdb, rfl⟩
    · exact h.owner t hold
  | @updateTable _ _ _ row row' _ _ _ hrow hkey _ _ =>
    refine ⟨h.ids, fun t ht => ?_⟩
    rcases Table.mem_of_mem_set ht with rfl | hold
    · obtain ⟨-, -, hmem, -⟩ := findTable_eq_some hrow
      have hdbId : t.dbId = row.dbId := congrArg Prod.fst hkey
      rw [hdbId]
      exact h.owner row hmem
    · exact h.owner t hold
  | dropTable hrecord =>
    exact ⟨h.ids, fun t ht => h.owner t (Table.mem_erase.mp ht).1⟩

/-- A database is dropped only when it has no tables. -/
def DropsEmpty (s : MetadataService) : Time × CatalogRequest → Prop
  | (_, .dropDatabase dbName) => ∀ db, s.catalog.databases.find? dbName = some db →
    ∀ t ∈ s.catalog.tables.rows, t.dbId ≠ db.dbId
  | _ => True

/-- A request that drops no stored database drops only empty ones. -/
theorem dropsEmpty_of_rejected {s : MetadataService} {request : CatalogRequest}
    (hdrop : ∀ dbName, request = .dropDatabase dbName →
      s.catalog.databases.find? dbName = none) (now : Time) : DropsEmpty s (now, request) := by
  cases request with
  | dropDatabase dbName =>
    intro db hdb
    rw [hdrop dbName rfl] at hdb
    cases hdb
  | createDatabase | createTable | updateTable | dropTable => trivial

/-- A request for the database `sales`. -/
def salesRequest : DatabaseCreateRequest where
  dbName := "sales"

/-- A request for a table with one column. -/
def ordersRequest : TableCreateRequest where
  tableName := "orders"
  schemaFields := [{ name := "order_id", type := "long" }]

/-- A database with one table is dropped. -/
def dropWithTable : List (Time × CatalogRequest) := [
  (0, .createDatabase salesRequest 1), (1, .createTable "sales" ordersRequest 1),
  (2, .dropDatabase "sales")]

end DataHarbour.Metadata
