import DataHarbour.Metadata.GlueNames
import DataHarbour.Metadata.Locations

/-!
# Repairing the Glue mirror

The calls of Glue may fail, before or after they have taken effect, and a failure is only logged;
the commit at the end of a request may fail when the call has been answered already. `sync_glue`
registers the tables of one database again. It never removes an entry. Glue is taken to keep names
as they are sent.
-/

namespace DataHarbour.Metadata

open Relational Machine

/-! ## Requests with faults -/

/-- What fails while a request is handled. -/
structure Faults where
  /-- The call of Glue takes effect. -/
  answers : Bool := true
  /-- The transaction commits. -/
  commits : Bool := true

/-- The loop of `sync_glue` with calls that may fail; `answers` tells for which tables they take
effect. -/
def syncAnswered (settings : Settings) (answers : String → Bool) (dbName : String) (glue : Glue) :
    List CatalogTable → Glue
  | [] => glue
  | tbl :: tables =>
    match tbl.location with
    | none => glue
    | some location =>
      let glue' :=
        if answers tbl.tableName then
          registerTable settings glue (glueName dbName tbl.tableName) location
        else glue
      syncAnswered settings answers dbName glue' tables

/-- What happens to the service. -/
inductive CatalogAction where
  | request (faults : Faults) (request : Time × CatalogRequest)
  | syncGlue (dbName : String) (answers : String → Bool)

/-- The service after an action. -/
def act (settings : Settings) (s : MetadataService) : CatalogAction → MetadataService
  | .request faults request =>
    let s' := handle settings s request
    { s' with
      catalog := if faults.commits then s'.catalog else s.catalog
      glue := if faults.answers then s'.glue else s.glue }
  | .syncGlue dbName answers =>
    if settings.glueCatalogDatabase = "" then s
    else
      match s.catalog.databases.find? dbName with
      | none => s
      | some db =>
        let tables := s.catalog.tables.rows.filter (·.dbId = db.dbId)
        { s with glue := syncAnswered settings answers dbName s.glue tables }

/-- `sync_glue` for several databases, one after the other. -/
def syncAll (settings : Settings) (s : MetadataService) (dbNames : List String) :
    MetadataService :=
  dbNames.foldl (fun s dbName => (syncGlue settings s dbName).1) s

/-- The entry is that of a table in the catalog. -/
def Catalog.Owns (c : Catalog) (entry : GlueEntry) : Prop :=
  ∃ t, c.Lists t entry.name ∧ t.location.map slashTerminated = some entry.location

/-- Glue has entries of tables in the catalog only. -/
def EntriesBelong (c : Catalog) (glue : Glue) : Prop := ∀ entry ∈ glue.rows, c.Owns entry

/-- The action leaves no entry without its table: what is registered is committed, what is dropped
is removed from Glue, and no database is dropped while it has tables. -/
def KeepsEntries (s : MetadataService) : CatalogAction → Prop
  | .request faults (now, request) =>
    match request with
    | .createTable .. => faults.answers = true → faults.commits = true
    | .dropTable .. => faults.commits = true → faults.answers = true
    | .dropDatabase dbName => faults.commits = true → DropsEmpty s (now, .dropDatabase dbName)
    | _ => True
  | .syncGlue .. => True

/-! ## Entries -/

variable {settings : Settings} {s s' : MetadataService} {c : Catalog} {glue : Glue}
  {request : CatalogRequest} {entry : GlueEntry}

private theorem mem_registerTable {tableName location : String}
    (h : entry ∈ (registerTable settings glue tableName location).rows) :
    entry ∈ glue.rows ∨ entry = ⟨tableName, slashTerminated location⟩ := by
  unfold registerTable at h
  split at h
  · exact .inl h
  · cases hinsert : glue.insert? ⟨tableName, slashTerminated location⟩ with
    | none =>
      rw [hinsert] at h
      exact .inl h
    | some glue' =>
      rw [hinsert] at h
      obtain ⟨hfresh, rfl⟩ := Table.insert?_eq_some hinsert
      exact ((Table.mem_insert hfresh).mp h).symm

private theorem mem_registerTable_of_mem {tableName location : String} (h : entry ∈ glue.rows) :
    entry ∈ (registerTable settings glue tableName location).rows := by
  unfold registerTable
  split
  · exact h
  · cases hinsert : glue.insert? ⟨tableName, slashTerminated location⟩ with
    | none => exact h
    | some glue' =>
      obtain ⟨hfresh, rfl⟩ := Table.insert?_eq_some hinsert
      exact (Table.mem_insert hfresh).mpr (.inr h)

private theorem mem_unregisterTable (henabled : settings.glueCatalogDatabase ≠ "")
    {tableName : String} :
    entry ∈ (unregisterTable settings glue tableName).rows ↔
      entry ∈ glue.rows ∧ entry.name ≠ tableName := by
  rw [unregisterTable, if_neg henabled, Table.mem_erase]

/-- Only `drop_table` removes an entry. -/
theorem glue_subset_handled (hhandled : Handled settings s request s')
    (hdrop : ∀ dbName tableName, request ≠ .dropTable dbName tableName) (h : entry ∈ s.glue.rows) :
    entry ∈ s'.glue.rows := by
  cases hhandled with
  | rejected | createDatabase | dropDatabase | updateTable => exact h
  | createTable => exact mem_registerTable_of_mem h
  | dropTable => exact absurd rfl (hdrop _ _)

/-- Only `create_table` adds an entry. -/
theorem handled_subset_glue (hhandled : Handled settings s request s')
    (hcreate : ∀ dbName table tableId, request ≠ .createTable dbName table tableId)
    (h : entry ∈ s'.glue.rows) : entry ∈ s.glue.rows := by
  cases hhandled with
  | rejected | createDatabase | dropDatabase | updateTable => exact h
  | createTable => exact absurd rfl (hcreate _ _ _)
  | dropTable =>
    unfold unregisterTable at h
    split at h
    · exact h
    · exact (Table.mem_erase.mp h).1

/-- The calls of `sync_glue` register tables of its database. -/
theorem mem_syncAnswered {answers : String → Bool} {dbName : String} {tables : List CatalogTable}
    (h : entry ∈ (syncAnswered settings answers dbName glue tables).rows) :
    entry ∈ glue.rows ∨ ∃ t ∈ tables, entry.name = glueName dbName t.tableName ∧
      t.location.map slashTerminated = some entry.location := by
  induction tables generalizing glue with
  | nil => exact .inl h
  | cons tbl tables ih =>
    unfold syncAnswered at h
    split at h
    · exact .inl h
    · next location hlocation =>
      rcases ih h with hmem | ⟨t, ht, hentry⟩
      · split at hmem
        · rcases mem_registerTable hmem with hold | rfl
          · exact .inl hold
          · refine .inr ⟨tbl, List.mem_cons_self, rfl, ?_⟩
            rw [hlocation, Option.map_some]
        · exact .inl hmem
      · exact .inr ⟨t, List.mem_cons_of_mem _ ht, hentry⟩

/-! ## No entry without its table -/

/-- A request keeps the table of an entry, unless it drops this table or its database. -/
theorem owns_handled (hconsistent : s.catalog.Consistent) (hhandled : Handled settings s request s')
    (now : Time) (hempty : DropsEmpty s (now, request))
    (hkept : ∀ dbName tableName, request = .dropTable dbName tableName →
      entry.name ≠ glueName dbName tableName) (h : s.catalog.Owns entry) :
    s'.catalog.Owns entry := by
  obtain ⟨t, ⟨ht, db, hdb, hid, hname⟩, hlocation⟩ := h
  cases hhandled with
  | rejected => exact ⟨t, ⟨ht, db, hdb, hid, hname⟩, hlocation⟩
  | createDatabase =>
    exact ⟨t, ⟨ht, db, List.mem_cons_of_mem _ hdb, hid, hname⟩, hlocation⟩
  | dropDatabase hdropped =>
    have hlists := (lists_dropDatabase_iff (Table.mem_of_find? hdropped) t entry.name).mpr
      ⟨⟨ht, db, hdb, hid, hname⟩, hempty _ hdropped t ht⟩
    exact ⟨t, hlists, hlocation⟩
  | createTable =>
    exact ⟨t, ⟨List.mem_cons_of_mem _ ht, db, hdb, hid, hname⟩, hlocation⟩
  | @updateTable _ _ _ row row' _ _ _ hrow hkey _ hsame =>
    obtain ⟨-, -, hmem, -⟩ := findTable_eq_some hrow
    by_cases heq : t = row
    · subst heq
      obtain ⟨hdbId, htableName⟩ := Prod.mk.inj hkey
      exact ⟨row', ⟨(Table.mem_set_iff hmem hkey).mpr (.inl rfl), db, hdb, hid.trans hdbId.symm,
        htableName ▸ hname⟩, hsame ▸ hlocation⟩
    · exact ⟨t, ⟨(Table.mem_set_iff hmem hkey).mpr (.inr ⟨ht, heq⟩), db, hdb, hid, hname⟩,
        hlocation⟩
  | @dropTable dbName tableName record hrecord =>
    obtain ⟨db', hdb', hmem, hkey⟩ := findTable_eq_some hrecord
    refine ⟨t, ⟨Table.mem_erase.mpr ⟨ht, fun hdropped => ?_⟩, db, hdb, hid, hname⟩, hlocation⟩
    -- the dropped table is listed under the name of the entry that goes with it
    obtain ⟨hdbId, htableName⟩ := Prod.mk.inj (hdropped.trans hkey)
    obtain rfl := hconsistent.ids db hdb db' (Table.mem_of_find? hdb') (hid.trans hdbId)
    rw [htableName, Table.key_of_find? hdb'] at hname
    exact hkept dbName tableName rfl hname.symm

private theorem belong_handled (henabled : settings.glueCatalogDatabase ≠ "")
    (hplaced : Placed settings s.catalog) (hhandled : Handled settings s request s') (now : Time)
    (hempty : DropsEmpty s (now, request)) (h : EntriesBelong s.catalog s.glue) :
    EntriesBelong s'.catalog s'.glue := by
  intro entry hentry
  have howns : (∀ dbName tableName, request = .dropTable dbName tableName →
      entry.name ≠ glueName dbName tableName) → s.catalog.Owns entry → s'.catalog.Owns entry :=
    owns_handled hplaced.consistent hhandled now hempty
  cases hhandled with
  | rejected => exact h entry hentry
  | createDatabase | dropDatabase | updateTable =>
    exact howns (fun _ _ hrequest => nomatch hrequest) (h entry hentry)
  | @createTable dbName request tableId _ db hdb hfresh hid =>
    rcases mem_registerTable hentry with hold | rfl
    · exact howns (fun _ _ hrequest => nomatch hrequest) (h entry hold)
    · refine ⟨_, ⟨List.mem_cons_self, db, Table.mem_of_find? hdb, rfl, ?_⟩, rfl⟩
      exact congrArg (glueName · request.tableName) (Table.key_of_find? hdb)
  | dropTable =>
    obtain ⟨hold, hne⟩ := (mem_unregisterTable henabled).mp hentry
    refine howns (fun dbName tableName hrequest => ?_) (h entry hold)
    obtain ⟨rfl, rfl⟩ := CatalogRequest.dropTable.inj hrequest
    exact hne

/-- The entries keep their tables through every action that leaves no entry behind. -/
theorem belong_act (henabled : settings.glueCatalogDatabase ≠ "")
    (hplaced : Placed settings s.catalog) {action : CatalogAction} (hkeeps : KeepsEntries s action)
    (h : EntriesBelong s.catalog s.glue) :
    EntriesBelong (act settings s action).catalog (act settings s action).glue := by
  cases action with
  | request faults request =>
    obtain ⟨now, request⟩ := request
    obtain ⟨answers, commits⟩ := faults
    have hhandled := handled_handle settings s now request
    cases commits with
    | false =>
      cases answers with
      | false => exact h
      | true =>
        intro entry hentry
        refine h entry
          (handled_subset_glue hhandled (fun dbName table tableId hcreate => ?_) hentry)
        subst hcreate
        cases hkeeps rfl
    | true =>
      have hempty : DropsEmpty s (now, request) := by
        cases request with
        | dropDatabase dbName => exact hkeeps rfl
        | createDatabase | createTable | updateTable | dropTable => trivial
      have hbelong := belong_handled henabled hplaced hhandled now hempty h
      cases answers with
      | true => exact hbelong
      | false =>
        intro entry hentry
        refine hbelong entry
          (glue_subset_handled hhandled (fun dbName tableName hdrop => ?_) hentry)
        subst hdrop
        cases hkeeps rfl
  | syncGlue dbName answers =>
    simp only [act, if_neg henabled]
    split
    · exact h
    · next db hdb =>
      intro entry hentry
      rcases mem_syncAnswered hentry with hold | ⟨t, ht, hname, hlocation⟩
      · exact h entry hold
      · obtain ⟨hmem, hid⟩ := List.mem_filter.mp ht
        refine ⟨t, ⟨hmem, db, Table.mem_of_find? hdb, (of_decide_eq_true hid).symm, ?_⟩, hlocation⟩
        rw [Table.key_of_find? hdb, hname]

/-- Every action keeps the tables at their locations. -/
theorem placed_act (h : Placed settings s.catalog) (action : CatalogAction) :
    Placed settings (act settings s action).catalog := by
  cases action with
  | request faults request =>
    obtain ⟨now, request⟩ := request
    simp only [act]
    split
    · exact placed_handled h (handled_handle settings s now request)
    · exact h
  | syncGlue dbName answers =>
    simp only [act]
    split
    · exact h
    · split <;> exact h

/-- The invariant of the catalog holds in every state. -/
theorem placed_run (settings : Settings) (actions : List CatalogAction) :
    Placed settings (run (act settings) emptyService actions).catalog := by
  have hinvariant : Invariant (act settings) fun s => Placed settings s.catalog :=
    fun s action h => placed_act h action
  exact hinvariant.run (placed_empty settings) actions

/-- As long as no action leaves an entry behind, every entry belongs to a table. -/
theorem belong_run (henabled : settings.glueCatalogDatabase ≠ "")
    {actions : List CatalogAction} (hkeeps : Along (act settings) KeepsEntries s actions)
    (hplaced : Placed settings s.catalog) (h : EntriesBelong s.catalog s.glue) :
    EntriesBelong (run (act settings) s actions).catalog (run (act settings) s actions).glue := by
  have hboth := hkeeps.preserves (I := fun s => Placed settings s.catalog ∧
    EntriesBelong s.catalog s.glue) ?_ ⟨hplaced, h⟩
  · exact hboth.2
  · rintro s action ⟨hplaced, hbelong⟩ hkept
    exact ⟨placed_act hplaced action, belong_act henabled hplaced hkept hbelong⟩

/-! ## What `sync_glue` restores -/

/-- Tables with locations are all submitted. -/
theorem syncTables_eq (henabled : settings.glueCatalogDatabase ≠ "") (dbName : String)
    {tables : List CatalogTable} (hlocated : ∀ t ∈ tables, t.location.isSome) (glue : Glue) :
    (syncTables settings dbName glue tables).2 = some (tables.map CatalogTable.tableName) ∧
      Glue.names (syncTables settings dbName glue tables).1 =
        Glue.names glue ∪ {name | ∃ t ∈ tables, glueName dbName t.tableName = name} := by
  induction tables generalizing glue with
  | nil => simp [syncTables]
  | cons tbl tables ih =>
    obtain ⟨hfirst, hrest⟩ := List.forall_mem_cons.mp hlocated
    obtain ⟨location, hlocation⟩ := Option.isSome_iff_exists.mp hfirst
    obtain ⟨hsubmitted, hnames⟩ :=
      ih hrest (registerTable settings glue (glueName dbName tbl.tableName) location)
    simp only [syncTables, hlocation]
    refine ⟨by rw [hsubmitted]; rfl, ?_⟩
    rw [hnames, names_registerTable henabled]
    ext name
    simp [or_assoc, or_left_comm, eq_comm]

private theorem syncAnswered_true (settings : Settings) (dbName : String) (glue : Glue)
    (tables : List CatalogTable) : syncAnswered settings (fun _ => true) dbName glue tables =
      (syncTables settings dbName glue tables).1 := by
  induction tables generalizing glue with
  | nil => rfl
  | cons tbl tables ih =>
    simp only [syncAnswered, syncTables]
    cases tbl.location with
    | none => rfl
    | some location => exact ih _

/-- `sync_glue` is its own action when all calls are answered. -/
theorem act_syncGlue (settings : Settings) (s : MetadataService) (dbName : String) :
    act settings s (.syncGlue dbName fun _ => true) = (syncGlue settings s dbName).1 := by
  simp only [act, syncGlue, syncAnswered_true]
  split
  · rfl
  · cases s.catalog.databases.find? dbName <;> rfl

private theorem syncAll_eq_run (settings : Settings) (s : MetadataService) (dbNames : List String) :
    syncAll settings s dbNames =
      run (act settings) s (dbNames.map fun dbName => .syncGlue dbName fun _ => true) := by
  rw [syncAll, run, List.foldl_map]
  simp only [act_syncGlue]

/-- The tables of a database. -/
def Catalog.tablesOf (c : Catalog) (dbName : String) : List CatalogTable :=
  match c.databases.find? dbName with
  | none => []
  | some db => c.tables.rows.filter (·.dbId = db.dbId)

/-- `sync_glue` submits the tables of its database, and all of them have an entry then. -/
theorem syncGlue_spec (henabled : settings.glueCatalogDatabase ≠ "")
    (hplaced : Placed settings s.catalog) (dbName : String) :
    ((s.catalog.databases.find? dbName).isSome → (syncGlue settings s dbName).2 =
      .ok ((s.catalog.tablesOf dbName).map CatalogTable.tableName)) ∧
    (syncGlue settings s dbName).1.catalog = s.catalog ∧
    Glue.names (syncGlue settings s dbName).1.glue = Glue.names s.glue ∪
      {name | ∃ t ∈ s.catalog.tablesOf dbName, glueName dbName t.tableName = name} := by
  simp only [syncGlue, if_neg henabled, Catalog.tablesOf]
  cases hdb : s.catalog.databases.find? dbName with
  | none => simp
  | some db =>
    have hlocated : ∀ t ∈ s.catalog.tables.rows.filter (·.dbId = db.dbId), t.location.isSome := by
      intro t ht
      obtain ⟨hmem, hid⟩ := List.mem_filter.mp ht
      obtain ⟨-, l, hlocation, -⟩ :=
        hplaced.tables t hmem db (Table.mem_of_find? hdb) (of_decide_eq_true hid).symm
      exact Option.isSome_of_eq_some hlocation
    obtain ⟨hsubmitted, hnames⟩ := syncTables_eq henabled dbName hlocated s.glue
    exact ⟨fun _ => by simp only [hsubmitted], rfl, hnames⟩

private theorem names_syncAll (henabled : settings.glueCatalogDatabase ≠ "")
    (hplaced : Placed settings s.catalog) (dbNames : List String) :
    (syncAll settings s dbNames).catalog = s.catalog ∧
      Glue.names (syncAll settings s dbNames).glue = Glue.names s.glue ∪
        {name | ∃ dbName ∈ dbNames, ∃ t ∈ s.catalog.tablesOf dbName,
          glueName dbName t.tableName = name} := by
  induction dbNames generalizing s with
  | nil => simp [syncAll]
  | cons dbName dbNames ih =>
    obtain ⟨-, hcatalog, hnames⟩ := syncGlue_spec henabled hplaced dbName
    obtain ⟨hcatalog', hnames'⟩ := ih (hcatalog ▸ hplaced)
    refine ⟨hcatalog'.trans hcatalog, hnames'.trans ?_⟩
    rw [hnames, hcatalog, Set.union_assoc]
    congr 1
    ext name
    simp

/-- The tables of all databases are the tables of the catalog. -/
theorem glueNames_eq_of_covers {dbNames : List String}
    (hcovers : ∀ db ∈ c.databases.rows, db.dbName ∈ dbNames) :
    {name | ∃ dbName ∈ dbNames, ∃ t ∈ c.tablesOf dbName, glueName dbName t.tableName = name} =
      c.glueNames := by
  ext name
  constructor
  · rintro ⟨dbName, -, t, ht, hname⟩
    unfold Catalog.tablesOf at ht
    split at ht
    · cases ht
    · next db hdb =>
      obtain ⟨hmem, hid⟩ := List.mem_filter.mp ht
      refine ⟨t, hmem, db, Table.mem_of_find? hdb, (of_decide_eq_true hid).symm, ?_⟩
      rw [Table.key_of_find? hdb, hname]
  · rintro ⟨t, ht, db, hdb, hid, hname⟩
    refine ⟨db.dbName, hcovers db hdb, t, ?_, hname⟩
    rw [Catalog.tablesOf, Table.find?_of_mem hdb]
    exact List.mem_filter.mpr ⟨ht, decide_eq_true hid.symm⟩

/-- Glue answers all calls of the syncs. -/
theorem keepsEntries_syncs (s : MetadataService) (dbNames : List String) :
    Along (act settings) KeepsEntries s
      (dbNames.map fun dbName => .syncGlue dbName fun _ => true) := by
  rw [along_iff_forall_split]
  intro first action rest heq
  obtain ⟨dbName, -, rfl⟩ :=
    List.mem_map.mp (heq ▸ List.mem_append_right first List.mem_cons_self)
  trivial

/-- **`sync_glue` restores the mirror.** After any run of requests and syncs in which calls of
Glue and commits fail at will, syncing all databases adds the entries that are missing, and
nothing else changes. Glue is the mirror of the catalog then, locations included, if no action has
left an entry behind; an entry that was left behind stays. -/
theorem sync_restores_mirror (henabled : settings.glueCatalogDatabase ≠ "")
    (actions : List CatalogAction) {dbNames : List String}
    (hcovers : ∀ db ∈ (run (act settings) emptyService actions).catalog.databases.rows,
      db.dbName ∈ dbNames) :
    let s := run (act settings) emptyService actions
    let s' := syncAll settings s dbNames
    (∀ db ∈ s.catalog.databases.rows, (syncGlue settings s db.dbName).2 =
      .ok ((s.catalog.tablesOf db.dbName).map CatalogTable.tableName)) ∧
    s'.catalog = s.catalog ∧
    Glue.names s'.glue = Glue.names s.glue ∪ s.catalog.glueNames ∧
    (Along (act settings) KeepsEntries emptyService actions →
      Mirrored s' ∧ EntriesBelong s'.catalog s'.glue) := by
  intro s s'
  have hplaced : Placed settings s.catalog := placed_run settings actions
  obtain ⟨hcatalog, hnames⟩ := names_syncAll henabled hplaced dbNames
  rw [glueNames_eq_of_covers hcovers] at hnames
  refine ⟨fun db hdb => ?_, hcatalog, hnames, fun hkeeps => ?_⟩
  · refine (syncGlue_spec henabled hplaced db.dbName).1 ?_
    exact Option.isSome_of_eq_some (Table.find?_of_mem hdb)
  · have hempty : EntriesBelong emptyService.catalog emptyService.glue :=
      fun entry hentry => absurd hentry List.not_mem_nil
    have hbelong : EntriesBelong s.catalog s.glue :=
      belong_run henabled hkeeps (placed_empty settings) hempty
    -- the syncs are actions that leave no entry behind
    have hafter := belong_run henabled (keepsEntries_syncs s dbNames) hplaced hbelong
    rw [← syncAll_eq_run] at hafter
    refine ⟨?_, hafter⟩
    -- every entry of before has its table
    rw [Mirrored, hcatalog, hnames, Set.union_eq_right]
    rintro name ⟨entry, hentry, rfl⟩
    obtain ⟨t, hlists, -⟩ := hbelong entry hentry
    exact ⟨t, hlists⟩

/-- Glue does not answer when a table is created. -/
def unansweredCreate : List CatalogAction := [
  .request {} (0, .createDatabase salesRequest 1),
  .request { answers := false } (1, .createTable "sales" ordersRequest 1)]

/-- A sync repairs a table whose Glue call went unanswered. -/
theorem sync_restores_mirror_unansweredCreate :
    let settings : Settings := { glueCatalogDatabase := "dhp" }
    let s := run (act settings) emptyService unansweredCreate
    let s' := syncAll settings s ["sales"]
    (∀ db ∈ s.catalog.databases.rows, (syncGlue settings s db.dbName).2 =
      .ok ((s.catalog.tablesOf db.dbName).map CatalogTable.tableName)) ∧
    s'.catalog = s.catalog ∧
    Glue.names s'.glue = Glue.names s.glue ∪ s.catalog.glueNames ∧
    (Along (act settings) KeepsEntries emptyService unansweredCreate →
      Mirrored s' ∧ EntriesBelong s'.catalog s'.glue) :=
  sync_restores_mirror (by decide) unansweredCreate (by decide)

end DataHarbour.Metadata
