import DataHarbour.Metadata.SchemaEvolution

/-!
# `update_table`

The whole transaction: the schema loops, the properties and the description, the history row
and the flush, which writes a column of the table only when the assigned value compares
unequal to the loaded object as that object is by then.
-/

namespace DataHarbour.Metadata

open Python

/-- What the flush writes to the row `old` when the session holds the values of `record`.
`loadedSchema` is the loaded `schema_json` object read at flush time. -/
def flush (now : Time) (old record : CatalogTable) (loadedSchema : Json) : CatalogTable :=
  let schemaChanged := !record.schemaJson.pyEq loadedSchema
  let propertiesChanged := !(Json.obj record.properties).pyEq (.obj old.properties)
  let descriptionChanged := record.description ≠ old.description
  { old with
    schemaJson := if schemaChanged then record.schemaJson else old.schemaJson
    properties := if propertiesChanged then record.properties else old.properties
    description := record.description
    updatedAt := if schemaChanged ∨ propertiesChanged ∨ descriptionChanged then now
      else old.updatedAt }

/-- The table row as the session holds it when `update_table` flushes. -/
def updatedRecord (row : CatalogTable) (request : TableUpdateRequest) (schema : Json) :
    CatalogTable :=
  { row with
    schemaJson := schema
    properties := match request.properties with
      | some properties => row.properties.merge properties
      | none => row.properties
    description := match request.description with
      | some description => some description
      | none => row.description }

/-- The history row of an evolution that changed something. -/
def historyRow (now : Time) (c : Catalog) (row : CatalogTable) (request : TableUpdateRequest)
    (schema : Json) (changes : List String) : List SchemaHistory :=
  if changes = [] then []
  else [{
    tableId := row.tableId
    version := c.latestVersion row.tableId + 1
    schemaJson := schema
    changeSummary := some ("; ".intercalate changes)
    changedBy := request.changedBy
    createdAt := now }]

/-- `update_table`, with its transaction committed. The response is read from the session's
own object, which the final query does not refresh. -/
def updateTable (now : Time) (c : Catalog) (dbName tableName : String)
    (request : TableUpdateRequest) : Except Exc (Option TableResponse × Catalog) :=
  match c.findTable dbName tableName with
  | none => .ok (none, c)
  | some row => do
    let e ← evolveSchema row.schemaJson request
    let schema := e.schema.read e.heap
    let record := updatedRecord row request schema
    let stored := flush now row record (e.loaded.read e.heap)
    return (some (toTableResponse dbName { record with updatedAt := stored.updatedAt }),
      { c with
        tables := c.tables.set stored
        history := c.history ++ historyRow now c row request schema e.changes })

/-- The row that the join finds after the row with its key has been replaced. -/
theorem findTable_set {c : Catalog} {dbName tableName : String} {row row' : CatalogTable}
    {history : List SchemaHistory} (hrow : c.findTable dbName tableName = some row)
    (hkey : row'.key = row.key) :
    ({ c with tables := c.tables.set row', history := history } : Catalog).findTable
      dbName tableName = some row' := by
  obtain ⟨db, hdb, hfind⟩ := Option.bind_eq_some_iff.mp hrow
  have hrowkey : row'.key = (db.dbId, tableName) := hkey.trans (Relational.Table.key_of_find? hfind)
  rw [Catalog.findTable, hdb, Option.bind_some, Relational.Table.find?_set, if_pos hrowkey, hfind]
  rfl

/-- What `update_table` commits: nothing, or a new version of one row in its place, with the
history row. -/
theorem updateTable_cases {now : Time} {c c' : Catalog} {dbName tableName : String}
    {request : TableUpdateRequest} {response : Option TableResponse}
    (h : updateTable now c dbName tableName request = .ok (response, c')) :
    c' = c ∨ ∃ row row' schema changes, c.findTable dbName tableName = some row ∧
      row'.key = row.key ∧ row'.tableId = row.tableId ∧ row'.location = row.location ∧
      c' = { c with
        tables := c.tables.set row'
        history := c.history ++ historyRow now c row request schema changes } := by
  unfold updateTable at h
  split at h
  · rw [Except.ok.injEq, Prod.mk.injEq] at h
    exact .inl h.2.symm
  · next row hrow =>
    cases he : evolveSchema row.schemaJson request with
    | error err => simp [he, bind, Except.bind] at h
    | ok e =>
      simp only [he, bind, Except.bind, pure, Except.pure, Except.ok.injEq, Prod.mk.injEq] at h
      exact .inr ⟨row, flush now row (updatedRecord row request (e.schema.read e.heap))
        (e.loaded.read e.heap), _, _, hrow, rfl, rfl, rfl, h.2.symm⟩

/-- What a successful `update_table` on a stored table returns and commits. -/
theorem updateTable_eq_ok {now : Time} {c c' : Catalog} {dbName tableName : String}
    {request : TableUpdateRequest} {row : CatalogTable} {response : TableResponse}
    (hrow : c.findTable dbName tableName = some row)
    (hupdate : updateTable now c dbName tableName request = .ok (some response, c')) :
    ∃ e, evolveSchema row.schemaJson request = .ok e ∧
      response.schemaJson = e.schema.read e.heap ∧
      c'.findTable dbName tableName = some (flush now row
        (updatedRecord row request (e.schema.read e.heap)) (e.loaded.read e.heap)) ∧
      c'.history = c.history ++
        historyRow now c row request (e.schema.read e.heap) e.changes := by
  simp only [updateTable, hrow] at hupdate
  cases he : evolveSchema row.schemaJson request with
  | error err => simp [he, bind, Except.bind] at hupdate
  | ok e =>
    simp only [he, bind, Except.bind, pure, Except.pure, Except.ok.injEq, Prod.mk.injEq,
      Option.some.injEq] at hupdate
    obtain ⟨hresponse, hcatalog⟩ := hupdate
    refine ⟨e, rfl, ?_, ?_, ?_⟩
    · rw [← hresponse]
      rfl
    · rw [← hcatalog]
      exact findTable_set hrow rfl
    · rw [← hcatalog]

end DataHarbour.Metadata
