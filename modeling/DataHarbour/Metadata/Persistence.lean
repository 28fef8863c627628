import DataHarbour.Metadata.SharedFields
import DataHarbour.Metadata.UpdateTable

/-!
# Is an evolved schema stored?

The shallow copy shares the `"fields"` list and its columns with the loaded schema. Appends
and renames therefore change both sides of the comparison that decides whether the flush
writes `schema_json`, and only a comprehension that drops a column, or a schema without a
list of fields, makes them differ. `schemaPersisted_iff` states when the stored row is what
`update_table` returned.
-/

namespace DataHarbour.Metadata

open Python

/-- The list under `"fields"`, if the stored schema has one. -/
def storedFields : Json → Option (List Json)
  | .obj entries =>
    match Dict.get? entries "fields" with
    | some (.arr columns) => some columns
    | _ => none
  | _ => none

/-- A schema has stored fields when its document lists them. -/
theorem storedFields_eq_some {schemaJson : Json} {stored : List Json}
    (h : storedFields schemaJson = some stored) :
    ∃ entries, schemaJson = .obj entries ∧ Dict.get? entries "fields" = some (.arr stored) := by
  cases schemaJson with
  | obj entries =>
    cases hentry : Dict.get? entries "fields" with
    | none => simp [storedFields, hentry] at h
    | some v =>
      cases v with
      | arr columns =>
        have hcolumns : columns = stored := by simpa [storedFields, hentry] using h
        exact ⟨entries, rfl, by rw [hentry, hcolumns]⟩
      | null | bool | int | float | infinity | str | obj => simp [storedFields, hentry] at h
  | null | bool | int | float | infinity | str | arr => simp [storedFields] at h

/-- Assigning a list of fields restores a schema exactly when it is the stored list. -/
theorem set_eq_iff {entries : Dict} {stored columns : List Json}
    (h : Dict.get? entries "fields" = some (.arr stored)) :
    Json.obj entries = .obj (Dict.set entries "fields" (.arr columns)) ↔ columns = stored := by
  constructor
  · intro heq
    have hget : Dict.get? entries "fields" = some (.arr columns) := by
      rw [Json.obj.inj heq]
      exact Dict.get?_set_self entries "fields" (.arr columns)
    rw [h, Option.some.injEq, Json.arr.injEq] at hget
    exact hget.symm
  · rintro rfl
    rw [Dict.set_get? h]

/-- Some stored or added column has the name of a dropped one. -/
def DropsColumn (stored : List Json) (request : TableUpdateRequest) : Prop :=
  ∃ f ∈ stored ++ request.addColumns.map ColumnSchema.toJson,
    ∃ name ∈ request.dropColumns, columnName f = some name

/-- Nothing is added, and the renames, one after the other, lead back to the stored names. -/
def KeepsNames (stored : List Json) (request : TableUpdateRequest) : Prop :=
  request.addColumns = [] ∧
    renamedNames request.renameColumns (stored.map columnName) = stored.map columnName

/-! ### The columns by value -/

/-- What the loops by value return, unfolded into the three loops. -/
theorem evolveFields_eq_ok {stored : List Json} {request : TableUpdateRequest} {c : Columns}
    (h : evolveFields stored request = .ok c) :
    ∃ d : Columns, request.dropColumns.foldlM dropField
        (stored ++ request.addColumns.map ColumnSchema.toJson,
          request.addColumns.map addedText) = .ok d ∧
      request.renameColumns.foldlM renameField d = .ok c := by
  rw [evolveFields, foldlM_addField] at h
  simp only [bind, Except.bind, List.nil_append] at h
  split at h
  · exact absurd h (by simp)
  · exact ⟨_, by assumption, h⟩

/-- The loops keep the number of columns, added ones included, unless one is dropped. -/
theorem length_evolveFields_iff {stored : List Json} {request : TableUpdateRequest} {c : Columns}
    (h : evolveFields stored request = .ok c) :
    c.1.length = stored.length + request.addColumns.length ↔ ¬ DropsColumn stored request := by
  obtain ⟨d, hdrop, hrename⟩ := evolveFields_eq_ok h
  have hlen : d.1.length = c.1.length := (foldlM_renameField hrename).1.length_eq
  have hkeeps := length_foldlM_dropField hdrop
  rw [List.length_append, List.length_map] at hkeeps
  rw [← hlen, hkeeps]
  simp only [DropsColumn, not_exists, not_and, ne_eq]

/-- Without a dropped column, the loops return the stored columns exactly when nothing is
added and the names come out as they were. -/
theorem evolveFields_eq_stored_iff {stored : List Json} {request : TableUpdateRequest}
    {c : Columns} (h : evolveFields stored request = .ok c)
    (hkeep : ¬ DropsColumn stored request) : c.1 = stored ↔ KeepsNames stored request := by
  have hlen := (length_evolveFields_iff h).mpr hkeep
  obtain ⟨d, hdrop, hrename⟩ := evolveFields_eq_ok h
  obtain ⟨hrel, hnames⟩ := foldlM_renameField hrename
  have hd : d.1 = stored ++ request.addColumns.map ColumnSchema.toJson := by
    rw [foldlM_dropField hdrop, List.filter_eq_self]
    intro f hf
    have hnone : ∀ name ∈ request.dropColumns, columnName f ≠ some name :=
      fun name hname heq => hkeep ⟨f, hf, name, hname, heq⟩
    exact decide_eq_true hnone
  constructor
  · intro hc
    have hadd : request.addColumns = [] := by
      rw [hc] at hlen
      exact List.length_eq_zero_iff.mp (by omega)
    refine ⟨hadd, ?_⟩
    rw [hd, hadd, List.map_nil, List.append_nil, hc] at hnames
    exact hnames.symm
  · rintro ⟨hadd, hkept⟩
    rw [hd, hadd, List.map_nil, List.append_nil] at hrel hnames
    exact eq_of_renamed hrel (hnames.trans hkept)

/-! ### The comparison at flush time -/

/-- The schema that the session holds after the loops, when there is a list of fields: the
columns by value, different from the loaded object only if their number is. -/
theorem evolveSchema_of_fields {entries : Dict} {stored : List Json}
    {request : TableUpdateRequest} {e : Evolved}
    (hstored : Dict.get? entries "fields" = some (.arr stored))
    (he : evolveSchema (.obj entries) request = .ok e) :
    ∃ c, evolveFields stored request = .ok c ∧
      e.schema.read e.heap = .obj (Dict.set entries "fields" (.arr c.1)) ∧
      ((e.schema.read e.heap).pyEq (e.loaded.read e.heap) = true ↔
        c.1.length = stored.length + request.addColumns.length) := by
  simp only [evolveSchema, loadSchema, hstored, fieldsOf] at he
  have hagree := evolveFields_agree stored request
  cases hrun : runLoops request ⟨Heap.empty.alloc stored, .list 0, []⟩ with
  | error err => simp [hrun, bind, Except.bind] at he
  | ok e' =>
    rw [hrun] at hagree
    obtain ⟨c, hc, hmirrors⟩ := hagree.of_ok
    obtain ⟨r, hfields, hshares, helems⟩ := hmirrors.fields
    simp only [hrun, bind, Except.bind, pure, Except.pure, Except.ok.injEq] at he
    have hlen : (e'.heap.elems 0).length = stored.length + request.addColumns.length := by
      rw [Heap.length_elems, hmirrors.length]
    refine ⟨c, hc, ?_, ?_⟩
    · rw [← he]
      simp only [SchemaObject.read, hfields, Fields.read, helems]
    · rw [← he]
      simp only [SchemaObject.read, hfields, Fields.read, Json.pyEq_set_set, Json.pyEq]
      rw [← hlen, ← helems]
      constructor
      · intro heq
        by_contra hne
        rw [Json.pyEqList_of_length_ne hne] at heq
        exact absurd heq (by decide)
      · intro heq
        rw [hshares.elems_eq heq]
        exact Json.pyEqList_refl _

private theorem addColumn_fields {e e' : Evolving} {col : ColumnSchema}
    (h : addColumn e col = .ok e') :
    e'.fields = e.fields := by
  cases hfields : e.fields with
  | list r =>
    simp only [addColumn, hfields, Except.ok.injEq] at h
    exact h ▸ rfl
  | value v => simp [addColumn, hfields] at h

private theorem dropColumn_fields {e e' : Evolving} {name : String}
    (h : dropColumn e name = .ok e') :
    ∃ r, e'.fields = .list r := by
  cases hkept : keepColumns e.heap name e.fields with
  | error err => simp [dropColumn, hkept, bind, Except.bind] at h
  | ok heap =>
    simp only [dropColumn, hkept, bind, Except.bind, pure, Except.pure, Except.ok.injEq] at h
    exact ⟨e.heap.lists.length, h ▸ rfl⟩

private theorem renameColumn_fields {e e' : Evolving} {rename : String × String}
    (h : renameColumn e rename = .ok e') : e'.fields = e.fields := by
  simp only [renameColumn, bind, Except.bind, pure, Except.pure] at h
  repeat' split at h
  all_goals cases h
  all_goals rfl

/-- `fields` refers to a list, or to the value `v`. -/
def ListOrValue (v : Json) (e : Evolving) : Prop :=
  ∀ w, e.fields = .value w → w = v

/-- The loops leave the value that `fields` refers to, or bind `fields` to a list. -/
theorem runLoops_of_value {request : TableUpdateRequest} {v : Json} {e e' : Evolving}
    (he : ListOrValue v e) (hrun : runLoops request e = .ok e') : ListOrValue v e' := by
  simp only [runLoops, bind, Except.bind] at hrun
  split at hrun
  · exact absurd hrun (by simp)
  rename_i e₁ hadd
  split at hrun
  · exact absurd hrun (by simp)
  rename_i e₂ hdrop
  have h₁ : ListOrValue v e₁ := foldlM_preserves
    (fun a col b ha hb w hw => ha w (addColumn_fields hb ▸ hw)) he hadd
  have h₂ : ListOrValue v e₂ := foldlM_preserves
    (fun a name b ha hb w hw => by
      obtain ⟨r, hr⟩ := dropColumn_fields hb
      rw [hr] at hw
      exact absurd hw (by simp)) h₁ hdrop
  exact foldlM_preserves
    (fun a rename b ha hb w hw => ha w (renameColumn_fields hb ▸ hw)) h₂ hrun

/-- Without a list of fields, the session sees a difference or there is none. -/
theorem evolveSchema_of_no_fields {schemaJson : Json} {request : TableUpdateRequest} {e : Evolved}
    (hstored : storedFields schemaJson = none) (he : evolveSchema schemaJson request = .ok e) :
    (e.schema.read e.heap).pyEq (e.loaded.read e.heap) = false ∨
      e.schema.read e.heap = schemaJson := by
  cases schemaJson with
  | obj entries =>
    cases hentry : Dict.get? entries "fields" with
    | none =>
      -- a schema that gains the entry differs from the loaded one
      left
      simp only [evolveSchema, loadSchema, hentry, fieldsOf] at he
      cases hrun : runLoops request
        ⟨Heap.empty.alloc [], .list (Heap.empty : Heap Json).lists.length, []⟩ with
      | error err => simp [hrun, bind, Except.bind] at he
      | ok e' =>
        simp only [hrun, bind, Except.bind, pure, Except.pure, Except.ok.injEq] at he
        rw [← he]
        exact Json.pyEq_set_of_missing hentry _
    | some v =>
      have hload : loadSchema entries = (Heap.empty, ⟨entries, some (.value v)⟩) := by
        cases v with
        | arr columns => simp [storedFields, hentry] at hstored
        | null | bool | int | float | infinity | str | obj => simp only [loadSchema, hentry]
      simp only [evolveSchema, hload, fieldsOf] at he
      cases hrun : runLoops request ⟨Heap.empty, .value v, []⟩ with
      | error err => simp [hrun, bind, Except.bind] at he
      | ok e' =>
        have hvalue : ListOrValue v e' := runLoops_of_value
          (fun w hw => (Fields.value.inj hw).symm) hrun
        simp only [hrun, bind, Except.bind, pure, Except.pure, Except.ok.injEq] at he
        rw [← he]
        cases hfields : e'.fields with
        | list r =>
          left
          simp only [SchemaObject.read, Fields.read, Json.pyEq_set_set]
          cases v with
          | arr columns => simp [storedFields, hentry] at hstored
          | null | bool | int | float | infinity | str | obj => simp [Json.pyEq]
        | value w =>
          right
          simp only [SchemaObject.read, Fields.read, hvalue w hfields, Dict.set_get? hentry]
  | null | bool | int | float | infinity | str | arr => simp [evolveSchema] at he

/-! ### The stored row -/

/-- A fresh read of the table yields the schema that was returned, and so does the history
row, if one was added. -/
def SchemaPersisted (c c' : Catalog) (dbName tableName : String) (response : TableResponse) :
    Prop :=
  (getTable c' dbName tableName).map TableResponse.schemaJson = some response.schemaJson ∧
    ∀ h, c'.history = c.history ++ [h] →
      (getTable c' dbName tableName).map TableResponse.schemaJson = some h.schemaJson

/-- A history row carries the schema that the session holds. -/
theorem schemaJson_of_mem_historyRow {now : Time} {c : Catalog} {row : CatalogTable}
    {request : TableUpdateRequest} {schema : Json} {changes : List String} {h : SchemaHistory}
    (hmem : h ∈ historyRow now c row request schema changes) : h.schemaJson = schema := by
  by_cases hchanges : changes = []
  · simp [historyRow, hchanges] at hmem
  · simp only [historyRow, if_neg hchanges, List.mem_singleton] at hmem
    rw [hmem]

/-- Response and history row agree, so persistence is a matter of what the flush stored. -/
theorem schemaPersisted_iff_flushed {now : Time} {c c' : Catalog} {dbName tableName : String}
    {request : TableUpdateRequest} {row : CatalogTable} {response : TableResponse} {e : Evolved}
    (hresponse : response.schemaJson = e.schema.read e.heap)
    (hfind : c'.findTable dbName tableName = some (flush now row
      (updatedRecord row request (e.schema.read e.heap)) (e.loaded.read e.heap)))
    (hhistory : c'.history = c.history ++
      historyRow now c row request (e.schema.read e.heap) e.changes) :
    SchemaPersisted c c' dbName tableName response ↔
      (e.schema.read e.heap).pyEq (e.loaded.read e.heap) = false ∨
        row.schemaJson = e.schema.read e.heap := by
  have hread : (getTable c' dbName tableName).map TableResponse.schemaJson =
      some (if (e.schema.read e.heap).pyEq (e.loaded.read e.heap) = false
        then e.schema.read e.heap else row.schemaJson) := by
    rw [getTable, hfind]
    cases heq : (e.schema.read e.heap).pyEq (e.loaded.read e.heap) <;>
      simp [flush, updatedRecord, toTableResponse, heq]
  rw [SchemaPersisted, hread, hresponse]
  constructor
  · rintro ⟨hsame, -⟩
    by_cases heq : (e.schema.read e.heap).pyEq (e.loaded.read e.heap) = false
    · exact .inl heq
    · rw [if_neg heq, Option.some.injEq] at hsame
      exact .inr hsame
  · intro hwritten
    have hsame : (if (e.schema.read e.heap).pyEq (e.loaded.read e.heap) = false
        then e.schema.read e.heap else row.schemaJson) = e.schema.read e.heap := by
      by_cases heq : (e.schema.read e.heap).pyEq (e.loaded.read e.heap) = false
      · rw [if_pos heq]
      · rw [if_neg heq]
        exact hwritten.resolve_left heq
    refine ⟨congrArg some hsame, fun h hadded => ?_⟩
    have hrows : historyRow now c row request (e.schema.read e.heap) e.changes = [h] :=
      List.append_cancel_left (hhistory.symm.trans hadded)
    have hschema : h.schemaJson = e.schema.read e.heap :=
      schemaJson_of_mem_historyRow (hrows ▸ List.mem_singleton_self h)
    rw [hsame, hschema]

/-- **When schema evolution is persisted.** After a successful `update_table`, the committed
row holds the returned schema if and only if the stored schema has no list of fields, or a
column with a dropped name is among the stored and added ones, or nothing is added and the
renames lead back to the stored names. -/
theorem schemaPersisted_iff {now : Time} {c c' : Catalog} {dbName tableName : String}
    {request : TableUpdateRequest} {row : CatalogTable} {response : TableResponse}
    (hrow : c.findTable dbName tableName = some row)
    (hupdate : updateTable now c dbName tableName request = .ok (some response, c')) :
    SchemaPersisted c c' dbName tableName response ↔
      ∀ stored, storedFields row.schemaJson = some stored →
        DropsColumn stored request ∨ KeepsNames stored request := by
  obtain ⟨e, he, hresponse, hfind, hhistory⟩ := updateTable_eq_ok hrow hupdate
  rw [schemaPersisted_iff_flushed hresponse hfind hhistory]
  cases hstored : storedFields row.schemaJson with
  | none =>
    have hseen := evolveSchema_of_no_fields hstored he
    simp only [reduceCtorEq, false_implies, implies_true, iff_true]
    exact hseen.imp_right Eq.symm
  | some stored =>
    obtain ⟨entries, hobj, hentry⟩ := storedFields_eq_some hstored
    rw [hobj] at he ⊢
    obtain ⟨c, hc, hschema, hequal⟩ := evolveSchema_of_fields hentry he
    have hlen := length_evolveFields_iff hc
    have hunequal : (e.schema.read e.heap).pyEq (e.loaded.read e.heap) = false ↔
        DropsColumn stored request := by
      rw [← Bool.not_eq_true, hequal, hlen, not_not]
    have hsame : Json.obj entries = e.schema.read e.heap ↔ c.1 = stored := by
      rw [hschema, set_eq_iff hentry]
    rw [hunequal, hsame]
    simp only [Option.some.injEq, forall_eq']
    by_cases hdrop : DropsColumn stored request
    · simp only [hdrop, true_or]
    · rw [evolveFields_eq_stored_iff hc hdrop]

/-- A table with one column. -/
def sampleTable : CatalogTable :=
  { tableId := 1, dbId := 1, tableName := "orders", createdAt := 0, updatedAt := 0
    schemaJson := .obj [("type", .str "struct"),
      ("fields", .arr [ColumnSchema.toJson { name := "id", type := "long" }])] }

/-- The catalog that holds the sample table in the database `sales`. -/
def sampleCatalog : Catalog where
  databases := Relational.Table.empty.insert { dbId := 1, dbName := "sales" } rfl
  tables := Relational.Table.empty.insert sampleTable rfl
  history := []

/-- `schemaPersisted_iff` at a request that drops the column of the sample table. -/
theorem schemaPersisted_iff_drop : ∃ response c',
    updateTable 1 sampleCatalog "sales" "orders" { dropColumns := ["id"] } =
      .ok (some response, c') ∧
    (SchemaPersisted sampleCatalog c' "sales" "orders" response ↔
      ∀ stored, storedFields sampleTable.schemaJson = some stored →
        DropsColumn stored { dropColumns := ["id"] } ∨
          KeepsNames stored { dropColumns := ["id"] }) := by
  have hrow : sampleCatalog.findTable "sales" "orders" = some sampleTable := rfl
  exact ⟨_, _, rfl, schemaPersisted_iff hrow rfl⟩

/-- Adding a column to the sample table returns two columns and stores one. -/
theorem added_column_not_persisted : ∃ response c',
    updateTable 1 sampleCatalog "sales" "orders"
        { addColumns := [{ name := "total", type := "double" }] } = .ok (some response, c') ∧
      ¬ SchemaPersisted sampleCatalog c' "sales" "orders" response := by
  refine ⟨_, _, rfl, ?_⟩
  intro h
  have hcounts := congrArg (fun schema => (schema.bind storedFields).map List.length) h.1
  exact absurd hcounts (by decide)

end DataHarbour.Metadata
