import DataHarbour.Metadata.GlueRepair
import DataHarbour.Metadata.History
import DataHarbour.Metadata.Persistence

/-!
# The schema history as a log

The rows of `schema_history` for a table are a log of its schemas: they count up from 1, they stay
as they are while the table exists, and the schema in `catalog_tables` is one of them, though not
always the latest.
-/

namespace DataHarbour.Metadata

open Python Relational Machine

/-- The history of a table, oldest row first. -/
def Catalog.log (c : Catalog) (tableId : TableId) : List SchemaHistory :=
  c.history.filter (·.tableId = tableId)

/-! ## What an update changes -/

/-- Every dropped name leaves a text, whether or not a column has it. -/
theorem changes_foldlM_dropField {names : List String} {c c' : Columns}
    (h : names.foldlM dropField c = .ok c') : c'.2 = c.2 ++ names.map droppedText := by
  induction names generalizing c with
  | nil =>
    have hc : c = c' := by simpa [pure, Except.pure] using h
    simp [hc]
  | cons name names ih =>
    rw [List.foldlM_cons, dropField] at h
    cases hkept : filterE (nameDiffers name) c.1 with
    | error e => simp [hkept, bind, Except.bind] at h
    | ok kept =>
      rw [ih (by simpa [hkept, bind, Except.bind, pure, Except.pure] using h)]
      simp

private theorem changes_foldlM_renameField {renames : List (String × String)} {c c' : Columns}
    (h : renames.foldlM renameField c = .ok c') : c.2 <+: c'.2 := by
  induction renames generalizing c with
  | nil =>
    have hc : c = c' := by simpa [pure, Except.pure] using h
    exact hc ▸ List.prefix_rfl
  | cons rename renames ih =>
    rw [List.foldlM_cons, renameField] at h
    cases hfound : renameFirst rename c.1 with
    | error e => simp [hfound, bind, Except.bind] at h
    | ok found =>
      cases found with
      | none => exact ih (by simpa [hfound, bind, Except.bind, pure, Except.pure] using h)
      | some fields =>
        have hrest := ih (by simpa [hfound, bind, Except.bind, pure, Except.pure] using h)
        exact (List.prefix_append c.2 _).trans hrest

/-- A request that drops a column says so in the history. -/
theorem changes_ne_nil_of_drops {entries : Dict} {stored : List Json}
    {request : TableUpdateRequest} {e : Evolved}
    (hstored : Dict.get? entries "fields" = some (.arr stored))
    (he : evolveSchema (.obj entries) request = .ok e) (hdrops : DropsColumn stored request) :
    e.changes ≠ [] := by
  simp only [evolveSchema, loadSchema, hstored, fieldsOf] at he
  have hagree := evolveFields_agree stored request
  cases hrun : runLoops request ⟨Heap.empty.alloc stored, .list 0, []⟩ with
  | error err => simp [hrun, bind, Except.bind] at he
  | ok e' =>
    rw [hrun] at hagree
    obtain ⟨c, hc, hmirrors⟩ := hagree.of_ok
    simp only [hrun, bind, Except.bind, pure, Except.pure, Except.ok.injEq] at he
    obtain ⟨d, hdrop, hrename⟩ := evolveFields_eq_ok hc
    obtain ⟨-, -, name, hname, -⟩ := hdrops
    intro hnone
    have hchanges : c.2 = [] := by
      rw [← hmirrors.changes, ← hnone, ← he]
    have hprefix := changes_foldlM_renameField hrename
    rw [hchanges, List.prefix_nil, changes_foldlM_dropField hdrop] at hprefix
    have htexts := (List.append_eq_nil_iff.mp hprefix).2
    rw [List.map_eq_nil_iff.mp htexts] at hname
    exact absurd hname List.not_mem_nil

/-- An update keeps the schema of the row, or stores the one that it adds to the history. -/
theorem schema_updateTable {now : Time} {c c' : Catalog} {dbName tableName : String}
    {request : TableUpdateRequest} {row : CatalogTable} {response : Option TableResponse}
    {stored : List Json} (hrow : c.findTable dbName tableName = some row)
    (hstored : storedFields row.schemaJson = some stored)
    (h : updateTable now c dbName tableName request = .ok (response, c')) :
    ∃ row' rows, c' = { c with tables := c.tables.set row', history := c.history ++ rows } ∧
      row'.key = row.key ∧ row'.tableId = row.tableId ∧
      (∀ entry ∈ rows, entry.tableId = row.tableId) ∧
      (∃ fields, storedFields row'.schemaJson = some fields) ∧
      (row'.schemaJson = row.schemaJson ∨ ∃ entry ∈ rows, entry.schemaJson = row'.schemaJson) := by
  simp only [updateTable, hrow] at h
  cases he : evolveSchema row.schemaJson request with
  | error err => simp [he, bind, Except.bind] at h
  | ok e =>
    simp only [he, bind, Except.bind, pure, Except.pure, Except.ok.injEq, Prod.mk.injEq] at h
    refine ⟨_, _, h.2.symm, rfl, rfl, fun entry => tableId_of_mem_historyRow, ?_⟩
    obtain ⟨entries, hobj, hentry⟩ := storedFields_eq_some hstored
    rw [hobj] at he
    obtain ⟨fields, hfields, hschema, hequal⟩ := evolveSchema_of_fields hentry he
    by_cases hpyEq : (e.schema.read e.heap).pyEq (e.loaded.read e.heap) = true
    · simp only [flush, updatedRecord, hpyEq, Bool.not_true, Bool.false_eq_true, if_false]
      exact ⟨⟨stored, hstored⟩, .inl trivial⟩
    · have hdrops : DropsColumn stored request := by
        by_contra hkeeps
        exact hpyEq (hequal.mpr ((length_evolveFields_iff hfields).mpr hkeeps))
      have hchanges := changes_ne_nil_of_drops hentry he hdrops
      simp only [flush, updatedRecord, hpyEq, Bool.not_false, if_true]
      refine ⟨⟨fields.1, by simp [hschema, storedFields]⟩, .inr ?_⟩
      rw [historyRow, if_neg hchanges]
      exact ⟨_, List.mem_singleton_self _, rfl⟩

/-! ## The log of a table that stays -/

variable {settings : Settings} {s s' : MetadataService} {c : Catalog} {request : CatalogRequest}

/-- A cascade that spares the rows of a table leaves its log. -/
theorem filter_log {p : SchemaHistory → Bool} {history : List SchemaHistory} {tableId : TableId}
    (hspared : ∀ row ∈ history, row.tableId = tableId → p row = true) :
    (history.filter p).filter (·.tableId = tableId) = history.filter (·.tableId = tableId) := by
  rw [List.filter_filter]
  refine List.filter_congr fun row hrow => ?_
  by_cases hid : row.tableId = tableId
  · simp [hid, hspared row hrow hid]
  · simp [hid]

private theorem log_append_of_ne {rows : List SchemaHistory} {tableId : TableId}
    (hrows : ∀ row ∈ rows, row.tableId ≠ tableId) :
    (c.history ++ rows).filter (·.tableId = tableId) = c.log tableId := by
  have hnone : rows.filter (·.tableId = tableId) = [] := by
    simpa [List.filter_eq_nil_iff] using hrows
  rw [List.filter_append, hnone, List.append_nil]
  rfl

/-- A request only adds to the log of a table that it leaves in the catalog. -/
theorem log_handled (h : Versioned s.catalog) (hhandled : Handled settings s request s')
    {t t' : CatalogTable} (ht : t ∈ s.catalog.tables.rows) (ht' : t' ∈ s'.catalog.tables.rows)
    (hid : t'.tableId = t.tableId) : s.catalog.log t.tableId <+: s'.catalog.log t.tableId := by
  cases hhandled with
  | rejected _ => exact List.prefix_rfl
  | createDatabase _ _ _ => exact List.prefix_rfl
  | @dropDatabase dbName db hdb =>
    obtain ⟨hmem, hother⟩ := Table.mem_delete.mp ht'
    have hlog : (s.catalog.dropDatabase db).log t.tableId = s.catalog.log t.tableId := by
      refine filter_log fun row _ hrow => ?_
      simp only [Bool.not_eq_true', List.any_eq_false, Bool.and_eq_true, decide_eq_true_eq, not_and]
      intro x hx hdbId hx'
      rw [h.tableIds x hx t' hmem (hx'.trans (hrow.trans hid.symm))] at hdbId
      exact (of_decide_eq_false hother) hdbId
    exact hlog.symm ▸ List.prefix_rfl
  | createTable _ _ _ hfresh =>
    refine (log_append_of_ne fun row hrow => ?_).symm ▸ List.prefix_rfl
    rw [List.mem_singleton.mp hrow]
    exact (hfresh t ht).symm
  | updateTable _ _ _ _ _ =>
    rw [Catalog.log, Catalog.log, List.filter_append]
    exact List.prefix_append _ _
  | @dropTable dbName tableName record hrecord =>
    obtain ⟨-, -, hrecordMem, -⟩ := findTable_eq_some hrecord
    obtain ⟨hmem, hkey⟩ := Table.mem_erase.mp ht'
    have hlog : (s.catalog.history.filter (·.tableId ≠ record.tableId)).filter
        (·.tableId = t.tableId) = s.catalog.log t.tableId := by
      refine filter_log fun row _ hrow => decide_eq_true fun heq => hkey ?_
      rw [h.tableIds t' hmem record hrecordMem (hid.trans (hrow.symm.trans heq))]
    exact hlog.symm ▸ List.prefix_rfl

/-! ## The invariant -/

/-- Every stored schema has a list of fields and is one of the recorded ones. -/
structure Recorded (c : Catalog) : Prop where
  fields : ∀ t ∈ c.tables.rows, ∃ stored, storedFields t.schemaJson = some stored
  current : ∀ t ∈ c.tables.rows, ∃ entry ∈ c.log t.tableId, entry.schemaJson = t.schemaJson

private theorem recorded_empty : Recorded .empty where
  fields _ ht := absurd ht List.not_mem_nil
  current _ ht := absurd ht List.not_mem_nil

/-- A table that a request leaves as it was stays recorded. -/
theorem Recorded.keep (h : Recorded s.catalog) (hversioned : Versioned s.catalog)
    (hhandled : Handled settings s request s') {t : CatalogTable}
    (ht : t ∈ s.catalog.tables.rows) (ht' : t ∈ s'.catalog.tables.rows) :
    (∃ stored, storedFields t.schemaJson = some stored) ∧
      ∃ entry ∈ s'.catalog.log t.tableId, entry.schemaJson = t.schemaJson := by
  refine ⟨h.fields t ht, ?_⟩
  obtain ⟨entry, hentry, hschema⟩ := h.current t ht
  exact ⟨entry, (log_handled hversioned hhandled ht ht' rfl).subset hentry, hschema⟩

private theorem recorded_handle (h : Recorded s.catalog) (hversioned : Versioned s.catalog)
    (now : Time)
    (request : CatalogRequest) : Recorded (handle settings s (now, request)).catalog := by
  have hhandled := handled_handle settings s now request
  suffices hall : ∀ t ∈ (handle settings s (now, request)).catalog.tables.rows,
      t ∉ s.catalog.tables.rows → (∃ stored, storedFields t.schemaJson = some stored) ∧
        ∃ entry ∈ (handle settings s (now, request)).catalog.log t.tableId,
          entry.schemaJson = t.schemaJson by
    refine ⟨fun t ht => ?_, fun t ht => ?_⟩
    all_goals by_cases hold : t ∈ s.catalog.tables.rows
    · exact (h.keep hversioned hhandled hold ht).1
    · exact (hall t ht hold).1
    · exact (h.keep hversioned hhandled hold ht).2
    · exact (hall t ht hold).2
  intro t ht hnew
  cases request with
  | createDatabase request dbId =>
    generalize handle settings s (now, .createDatabase request dbId) = s' at hhandled ht
    cases hhandled with
    | rejected => exact absurd ht hnew
    | createDatabase => exact absurd ht hnew
  | dropDatabase dbName =>
    generalize handle settings s (now, .dropDatabase dbName) = s' at hhandled ht
    cases hhandled with
    | rejected => exact absurd ht hnew
    | dropDatabase => exact absurd (Table.mem_delete.mp ht).1 hnew
  | createTable dbName request tableId =>
    generalize handle settings s (now, .createTable dbName request tableId) = s' at hhandled ht ⊢
    cases hhandled with
    | rejected => exact absurd ht hnew
    | @createTable _ _ _ now db hdb hfresh hid =>
      obtain rfl := ((Table.mem_insert hfresh).mp ht).resolve_right hnew
      refine ⟨⟨request.schemaFields.map ColumnSchema.toJson, ?_⟩,
        initialHistory now (newTable now db request tableId), ?_, rfl⟩
      · simp [newTable, storedFields, initialSchema]
      · exact List.mem_filter.mpr ⟨List.mem_append_right _ (List.mem_singleton_self _),
          decide_eq_true rfl⟩
  | updateTable dbName tableName request =>
    simp only [handle] at ht ⊢
    cases hupdate : updateTable now s.catalog dbName tableName request with
    | error e =>
      rw [hupdate] at ht
      exact absurd ht hnew
    | ok result =>
      obtain ⟨response, c'⟩ := result
      simp only [hupdate] at ht ⊢
      cases hrow : s.catalog.findTable dbName tableName with
      | none =>
        simp only [updateTable, hrow, Except.ok.injEq, Prod.mk.injEq] at hupdate
        exact absurd (hupdate.2 ▸ ht) hnew
      | some row =>
        obtain ⟨-, -, hmem, -⟩ := findTable_eq_some hrow
        obtain ⟨stored, hstored⟩ := h.fields row hmem
        obtain ⟨entry, hentry, hschema⟩ := h.current row hmem
        obtain ⟨row', rows, rfl, -, hid, hrows, hfields, hcurrent⟩ :=
          schema_updateTable hrow hstored hupdate
        obtain rfl : t = row' := (Table.mem_of_mem_set ht).resolve_right hnew
        refine ⟨hfields, ?_⟩
        rcases hcurrent with hsame | ⟨new, hnew, hsame⟩
        · refine ⟨entry, ?_, hschema.trans hsame.symm⟩
          rw [hid, Catalog.log, List.filter_append]
          exact List.mem_append_left _ hentry
        · refine ⟨new, List.mem_filter.mpr ⟨List.mem_append_right _ hnew, ?_⟩, hsame⟩
          exact decide_eq_true ((hrows new hnew).trans hid.symm)
  | dropTable dbName tableName =>
    generalize handle settings s (now, .dropTable dbName tableName) = s' at hhandled ht
    cases hhandled with
    | rejected => exact absurd ht hnew
    | dropTable => exact absurd (Table.mem_erase.mp ht).1 hnew

/-! ## Runs -/

/-- An action leaves the catalog alone or commits what a request has done to it. -/
theorem catalog_act (settings : Settings) (s : MetadataService) (action : CatalogAction) :
    (act settings s action).catalog = s.catalog ∨
      ∃ request, (act settings s action).catalog = (handle settings s request).catalog := by
  cases action with
  | request faults request =>
    simp only [act]
    split
    · exact .inr ⟨request, rfl⟩
    · exact .inl rfl
  | syncGlue dbName answers =>
    simp only [act]
    split
    · exact .inl rfl
    · split <;> exact .inl rfl

private theorem logged_invariant (settings : Settings) :
    Invariant (act settings) fun s => Versioned s.catalog ∧ Recorded s.catalog := by
  rintro s action ⟨hversioned, hrecorded⟩
  rcases catalog_act settings s action with heq | ⟨⟨now, request⟩, heq⟩
  · rw [heq]
    exact ⟨hversioned, hrecorded⟩
  · rw [heq]
    exact ⟨versioned_handled hversioned (handled_handle settings s now request),
      recorded_handle hrecorded hversioned now request⟩

/-- The table is in the catalog. -/
def MetadataService.Has (s : MetadataService) (tableId : TableId) : Prop :=
  ∃ t ∈ s.catalog.tables.rows, t.tableId = tableId

private theorem log_act (h : Versioned s.catalog) {action : CatalogAction} {tableId : TableId}
    (hs : s.Has tableId) (hs' : (act settings s action).Has tableId) :
    s.catalog.log tableId <+: (act settings s action).catalog.log tableId := by
  obtain ⟨t, ht, rfl⟩ := hs
  obtain ⟨t', ht', hid⟩ := hs'
  rcases catalog_act settings s action with heq | ⟨⟨now, request⟩, heq⟩
  · rw [heq]
  · rw [heq] at ht' ⊢
    exact log_handled h (handled_handle settings s now request) ht ht' hid

/-- The log of a table only grows while the table stays. -/
theorem log_run {tableId : TableId} {actions : List CatalogAction}
    (h : Versioned s.catalog ∧ Recorded s.catalog)
    (hstays : Always (act settings) (·.Has tableId) s actions) :
    s.catalog.log tableId <+: (run (act settings) s actions).catalog.log tableId := by
  induction actions generalizing s with
  | nil => exact List.prefix_rfl
  | cons action actions ih =>
    obtain ⟨hs, hrest⟩ := always_cons.mp hstays
    exact (log_act h.1 hs hrest.start).trans (ih (logged_invariant settings s action h) hrest)

/-- **The schema history is a log.** In every state that requests and syncs lead to, one at a time,
with calls of Glue and commits that fail at will: every row of the history belongs to a stored
table; the versions of a table count up from 1; the stored schema is that of one of the versions.
From there on, as long as the table stays, rows are added at the end, and none is changed or
removed. -/
theorem history_is_log (settings : Settings) (before actions : List CatalogAction) :
    let s := run (act settings) emptyService before
    let t := run (act settings) s actions
    (∀ entry ∈ t.catalog.history, t.Has entry.tableId) ∧
      (∀ table ∈ t.catalog.tables.rows,
        (∃ n, 1 ≤ n ∧
          (t.catalog.log table.tableId).map SchemaHistory.version = List.range' 1 n) ∧
        ∃ entry ∈ t.catalog.log table.tableId, entry.schemaJson = table.schemaJson) ∧
      ∀ tableId, Always (act settings) (·.Has tableId) s actions →
        s.catalog.log tableId <+: t.catalog.log tableId := by
  intro s t
  have hs : Versioned s.catalog ∧ Recorded s.catalog :=
    (logged_invariant settings).run ⟨versioned_empty, recorded_empty⟩ before
  obtain ⟨hversioned, hrecorded⟩ : Versioned t.catalog ∧ Recorded t.catalog :=
    (logged_invariant settings).run hs actions
  refine ⟨hversioned.owned, fun table htable => ⟨?_, hrecorded.current table htable⟩,
    fun tableId hstays => log_run hs hstays⟩
  obtain ⟨n, hn⟩ := hversioned.numbered table htable
  refine ⟨n, ?_, hn⟩
  obtain ⟨entry, hentry, -⟩ := hrecorded.current table htable
  have hlength : (t.catalog.log table.tableId).length = n := by
    have hmap : (t.catalog.versions table.tableId).length = n := by
      rw [hn, List.length_range']
    rwa [Catalog.versions, List.length_map] at hmap
  rw [← hlength]
  exact List.length_pos_of_mem hentry

/-- The table is created, and then a column is added. -/
theorem history_is_log_orders :
    let before : List CatalogAction := [.request {} (0, .createDatabase salesRequest 1),
      .request {} (1, .createTable "sales" ordersRequest 7)]
    let actions : List CatalogAction := [.request {} (2, .updateTable "sales" "orders"
      { addColumns := [{ name := "total", type := "double" }] })]
    let s := run (act {}) emptyService before
    let t := run (act {}) s actions
    (∀ entry ∈ t.catalog.history, t.Has entry.tableId) ∧
      (∃ n, 1 ≤ n ∧ (t.catalog.log 7).map SchemaHistory.version = List.range' 1 n) ∧
      s.catalog.log 7 <+: t.catalog.log 7 := by
  intro before actions s t
  have hhas : ∀ s : MetadataService, s.catalog.tables.rows.any (·.tableId = 7) = true →
      s.Has 7 := by
    intro s hany
    obtain ⟨t, ht, hid⟩ := List.any_eq_true.mp hany
    exact ⟨t, ht, of_decide_eq_true hid⟩
  obtain ⟨howned, htables, hgrows⟩ := history_is_log {} before actions
  obtain ⟨table, htable, hid⟩ : t.Has 7 := hhas t (by decide)
  refine ⟨howned, hid ▸ (htables table htable).1, hgrows 7 (always_iff.mpr ⟨?_, ?_, trivial⟩)⟩
  · exact hhas _ (by decide)
  · exact hhas _ (by decide)

end DataHarbour.Metadata
