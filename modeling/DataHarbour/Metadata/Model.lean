import DataHarbour.Python.Json
import DataHarbour.Relational.Table

/-!
# The catalog of the metadata service

Rows of `catalog_databases`, `catalog_tables` and `schema_history`, and the requests and
responses of the table endpoints.
-/

namespace DataHarbour.Metadata

open Python Relational

/-- Database identifiers (`catalog_databases.db_id`). -/
abbrev DbId := ℕ

/-- Table identifiers (`catalog_tables.table_id`). -/
abbrev TableId := ℕ

/-- Instants of the database clock. -/
abbrev Time := ℕ

/-- `ColumnSchema`: one column of a request. -/
structure ColumnSchema where
  name : String
  type : String
  nullable : Bool := true
  description : Option String := none
  /-- `min_length=1`. -/
  name_nonempty : name ≠ "" := by decide
  deriving DecidableEq

/-- A nullable string as JSON. -/
def ofOptString : Option String → Json
  | some s => .str s
  | none => .null

/-- The `dict` that a column becomes inside `schema_json`. -/
def ColumnSchema.toJson (col : ColumnSchema) : Json :=
  .obj [("name", .str col.name), ("type", .str col.type), ("nullable", .bool col.nullable),
    ("description", ofOptString col.description)]

/-- `TableUpdateRequest`: schema evolution and property updates. -/
structure TableUpdateRequest where
  addColumns : List ColumnSchema := []
  dropColumns : List String := []
  /-- Old name to new name, in the order of the `dict`. -/
  renameColumns : List (String × String) := []
  properties : Option Dict := none
  description : Option String := none
  changedBy : Option String := none
  /-- The keys of a `dict` are distinct. -/
  rename_keys : (renameColumns.map Prod.fst).Nodup := by decide

/-- `CatalogDatabase`. -/
structure CatalogDatabase where
  dbId : DbId
  dbName : String
  location : Option String := none
  owner : Option String := none
  description : Option String := none
  properties : Dict := []
  createdAt : Time := 0
  updatedAt : Time := 0

/-- `CatalogTable`. -/
structure CatalogTable where
  tableId : TableId
  dbId : DbId
  tableName : String
  tableType : String := "ICEBERG"
  location : Option String := none
  schemaJson : Json
  partitionSpec : List Json := []
  sortOrder : List Json := []
  currentSnapshotId : Option ℤ := none
  properties : Dict := []
  description : Option String := none
  createdAt : Time
  updatedAt : Time

/-- The unique key `(db_id, table_name)`. -/
def CatalogTable.key (t : CatalogTable) : DbId × String := (t.dbId, t.tableName)

/-- `SchemaHistory`. -/
structure SchemaHistory where
  tableId : TableId
  version : ℕ
  schemaJson : Json
  changeSummary : Option String
  changedBy : Option String
  createdAt : Time

/-- `TableResponse`. -/
structure TableResponse where
  tableId : TableId
  dbName : String
  tableName : String
  tableType : String
  location : Option String
  schemaJson : Json
  partitionSpec : List Json
  sortOrder : List Json
  currentSnapshotId : Option ℤ
  properties : Dict
  description : Option String
  createdAt : Time
  updatedAt : Time

/-- The committed tables of the service. -/
structure Catalog where
  /-- `catalog_databases`, with its unique `db_name`. -/
  databases : Table CatalogDatabase.dbName
  /-- `catalog_tables`. -/
  tables : Table CatalogTable.key
  /-- `schema_history`, oldest row first. -/
  history : List SchemaHistory

namespace Catalog

/-- The row that the join of `catalog_tables` with `catalog_databases` selects. -/
def findTable (c : Catalog) (dbName tableName : String) : Option CatalogTable :=
  (c.databases.find? dbName).bind fun db => c.tables.find? (db.dbId, tableName)

/-- `SELECT max(version) ... or 0`. -/
def latestVersion (c : Catalog) (tableId : TableId) : ℕ :=
  ((c.history.filter (·.tableId = tableId)).map SchemaHistory.version).foldl max 0

end Catalog

/-- The response built from a table row. -/
def toTableResponse (dbName : String) (t : CatalogTable) : TableResponse where
  tableId := t.tableId
  dbName := dbName
  tableName := t.tableName
  tableType := t.tableType
  location := t.location
  schemaJson := t.schemaJson
  partitionSpec := t.partitionSpec
  sortOrder := t.sortOrder
  currentSnapshotId := t.currentSnapshotId
  properties := t.properties
  description := t.description
  createdAt := t.createdAt
  updatedAt := t.updatedAt

/-- `get_table` in a session of its own: a fresh read of the row. -/
def getTable (c : Catalog) (dbName tableName : String) : Option TableResponse :=
  (c.findTable dbName tableName).map (toTableResponse dbName)

end DataHarbour.Metadata
