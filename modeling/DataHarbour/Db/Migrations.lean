import DataHarbour.Relational.Migrations

/-!
# The database schema

The migrations in `db/migrations/versions`, and `scripts/init-db.sql`, which sets up a local
database without them. Any way up and down the chain ends with the objects of the revision that is
recorded, and a database from `init-db.sql` is the one of the first revision, be it stamped or not.

Rows are left out: a downgrade drops them with their tables. `TIMESTAMPTZ` is short for
`TIMESTAMP WITH TIME ZONE`.
-/

namespace DataHarbour.Db

open Relational Machine

/-! ## The baseline -/

/-- A column without further clauses. -/
def column (type name : String) : ColumnDef := { name := name, type := type }

/-- A column that is `NOT NULL`. -/
def required (type name : String) : ColumnDef := { name := name, type := type, nullable := false }

/-- A column with a default. -/
def withDefault (c : ColumnDef) (default : ColumnDefault) : ColumnDef :=
  { c with default := some default }

/-- A column with a `CHECK (... IN ...)`. -/
def among (c : ColumnDef) (values : List String) : ColumnDef :=
  { c with oneOf := some values }

/-- `UUID PRIMARY KEY DEFAULT uuid_generate_v4()` -/
def uuidKey (name : String) : ColumnDef := withDefault (required "UUID" name) .uuidGenerateV4

/-- The empty JSON object. -/
def emptyObject : ColumnDefault := .value "\x7b\x7d"

/-- The submitted jobs. -/
def jobs : TableDef where
  columns := [
    uuidKey "job_id",
    required "VARCHAR(255)" "job_name",
    among (required "VARCHAR(50)" "job_type")
      ["spark_sql", "spark_etl", "spark_ml", "spark_streaming"],
    among (withDefault (column "VARCHAR(20)" "status") (.value "PENDING"))
      ["PENDING", "QUEUED", "PROVISIONING", "RUNNING", "SUCCESS", "FAILED", "CANCELLED", "DEAD"],
    withDefault (column "JSONB" "spark_config") emptyObject,
    required "TEXT" "entrypoint",
    withDefault (column "JSONB" "arguments") (.value "[]"),
    column "VARCHAR(255)" "database_name",
    column "VARCHAR(255)" "table_name",
    column "VARCHAR(255)" "container_id",
    required "VARCHAR(255)" "submitted_by",
    withDefault (column "TIMESTAMPTZ" "submitted_at") .now,
    column "TIMESTAMPTZ" "started_at",
    column "TIMESTAMPTZ" "completed_at",
    column "TEXT" "error_message",
    withDefault (column "INT" "retry_count") (.value "0"),
    withDefault (column "INT" "max_retries") (.value "3"),
    withDefault (column "TIMESTAMPTZ" "created_at") .now,
    withDefault (column "TIMESTAMPTZ" "updated_at") .now]
  primaryKey := "job_id"

/-- The log streams of the jobs. -/
def jobLogRefs : TableDef where
  columns := [
    uuidKey "id",
    required "UUID" "job_id",
    column "VARCHAR(255)" "log_stream_id",
    among (required "VARCHAR(50)" "log_source") ["stdout", "stderr", "driver", "executor"],
    withDefault (column "TIMESTAMPTZ" "created_at") .now]
  primaryKey := "id"
  uniqueKeys := [⟨["job_id", "log_source"], none⟩]
  references := [⟨"job_id", "jobs", "job_id"⟩]

/-- The databases of the catalog. -/
def catalogDatabases : TableDef where
  columns := [
    uuidKey "db_id",
    required "VARCHAR(255)" "db_name",
    column "TEXT" "location",
    column "VARCHAR(255)" "owner",
    column "TEXT" "description",
    withDefault (column "JSONB" "properties") emptyObject,
    withDefault (column "TIMESTAMPTZ" "created_at") .now,
    withDefault (column "TIMESTAMPTZ" "updated_at") .now]
  primaryKey := "db_id"
  uniqueKeys := [⟨["db_name"], none⟩]

/-- The tables of the catalog, with their schemas. -/
def catalogTables : TableDef where
  columns := [
    uuidKey "table_id",
    required "UUID" "db_id",
    required "VARCHAR(255)" "table_name",
    among (withDefault (column "VARCHAR(50)" "table_type") (.value "ICEBERG"))
      ["ICEBERG", "DELTA", "HIVE", "PARQUET"],
    column "TEXT" "location",
    required "JSONB" "schema_json",
    withDefault (column "JSONB" "partition_spec") (.value "[]"),
    withDefault (column "JSONB" "sort_order") (.value "[]"),
    column "BIGINT" "current_snapshot_id",
    withDefault (column "JSONB" "properties") emptyObject,
    column "TEXT" "description",
    withDefault (column "TIMESTAMPTZ" "created_at") .now,
    withDefault (column "TIMESTAMPTZ" "updated_at") .now]
  primaryKey := "table_id"
  uniqueKeys := [⟨["db_id", "table_name"], none⟩]
  references := [⟨"db_id", "catalog_databases", "db_id"⟩]

/-- The snapshots of a table. -/
def tableSnapshots : TableDef where
  columns := [
    required "BIGINT" "snapshot_id",
    required "UUID" "table_id",
    column "BIGINT" "parent_id",
    among (column "VARCHAR(50)" "operation") ["append", "overwrite", "delete", "replace"],
    column "TEXT" "manifest_list",
    withDefault (column "JSONB" "summary") emptyObject,
    withDefault (column "TIMESTAMPTZ" "created_at") .now]
  primaryKey := "snapshot_id"
  references := [⟨"table_id", "catalog_tables", "table_id"⟩]

/-- The versions of a table's schema. -/
def schemaHistory : TableDef where
  columns := [
    uuidKey "id",
    required "UUID" "table_id",
    required "INT" "version",
    required "JSONB" "schema_json",
    column "TEXT" "change_summary",
    column "VARCHAR(255)" "changed_by",
    withDefault (column "TIMESTAMPTZ" "created_at") .now]
  primaryKey := "id"
  references := [⟨"table_id", "catalog_tables", "table_id"⟩]

/-- The tables of the baseline, in the order in which they are created. -/
def baselineTables : List Definition := [
  .createTable "jobs" jobs,
  .createTable "job_log_refs" jobLogRefs,
  .createTable "catalog_databases" catalogDatabases,
  .createTable "catalog_tables" catalogTables,
  .createTable "table_snapshots" tableSnapshots,
  .createTable "schema_history" schemaHistory]

/-- The indexes of the baseline. -/
def baselineIndexes (ifNotExists : Bool) : List Definition := [
  .createIndex ifNotExists "idx_jobs_status" "jobs" ["status"] none,
  .createIndex ifNotExists "idx_jobs_submitted_by" "jobs" ["submitted_by"] none,
  .createIndex ifNotExists "idx_jobs_submitted_at" "jobs" ["submitted_at"] none,
  .createIndex ifNotExists "idx_jobs_job_type" "jobs" ["job_type"] none,
  .createIndex ifNotExists "idx_job_log_refs_job_id" "job_log_refs" ["job_id"] none,
  .createIndex ifNotExists "idx_catalog_tables_db_id" "catalog_tables" ["db_id"] none,
  .createIndex ifNotExists "idx_table_snapshots_table_id" "table_snapshots" ["table_id"] none,
  .createIndex ifNotExists "idx_schema_history_table_id" "schema_history" ["table_id"] none]

/-- The trigger function that stamps `updated_at`. -/
def updateUpdatedAtColumn : Definition :=
  .replaceFunction "update_updated_at_column" "BEGIN NEW.updated_at = NOW(); RETURN NEW; END;"

/-- The trigger that keeps `updated_at`. -/
def updatedAtTrigger (table : String) : Trigger :=
  ⟨"update_" ++ table ++ "_updated_at", table, "update_updated_at_column"⟩

/-- The tables with that trigger. -/
def stampedTables : List String := ["jobs", "catalog_databases", "catalog_tables"]

/-- Revision 0001: the schema of the job and metadata services. -/
def baseline : Migration where
  revision := "0001"
  downRevision := none
  upgrade := .createExtension "uuid-ossp" :: baselineTables ++ baselineIndexes true ++
    updateUpdatedAtColumn :: stampedTables.map fun table =>
      .createTrigger true (updatedAtTrigger table)
  downgrade :=
    stampedTables.map (fun table => .dropTrigger ("update_" ++ table ++ "_updated_at") table) ++
    .dropFunction "update_updated_at_column" ::
    ["schema_history", "table_snapshots", "catalog_tables", "catalog_databases", "job_log_refs",
      "jobs"].map (.dropTable true)

/-- `scripts/init-db.sql`. -/
def initDb : List Definition :=
  .createExtension "uuid-ossp" :: baselineTables ++ baselineIndexes false ++
    updateUpdatedAtColumn :: stampedTables.map fun table =>
      .createTrigger false (updatedAtTrigger table)

/-! ## The later revisions -/

/-- The cron schedules. -/
def scheduledJobs : TableDef where
  columns := [
    uuidKey "schedule_id",
    required "VARCHAR(255)" "name",
    required "VARCHAR(255)" "cron_expression",
    withDefault (required "VARCHAR(64)" "timezone") (.value "UTC"),
    required "JSONB" "job_template",
    withDefault (required "BOOLEAN" "enabled") (.value "TRUE"),
    column "TIMESTAMPTZ" "last_run_at",
    column "UUID" "last_run_job_id",
    required "TIMESTAMPTZ" "next_run_at",
    column "VARCHAR(255)" "created_by",
    withDefault (required "TIMESTAMPTZ" "created_at") .now,
    withDefault (required "TIMESTAMPTZ" "updated_at") .now]
  primaryKey := "schedule_id"
  uniqueKeys := [⟨["name"], none⟩]

/-- Revision 0002: the schedules. -/
def scheduledJobsMigration : Migration where
  revision := "0002"
  downRevision := some "0001"
  upgrade := [
    .createTable "scheduled_jobs" scheduledJobs,
    .createIndex true "ix_scheduled_jobs_due" "scheduled_jobs" ["next_run_at"]
      (some "enabled = TRUE")]
  downgrade := [.dropIndex "ix_scheduled_jobs_due", .dropTable false "scheduled_jobs"]

/-- The runs of lineage events. -/
def lineageRuns : TableDef where
  columns := [
    required "UUID" "run_id",
    required "VARCHAR(255)" "job_namespace",
    required "VARCHAR(255)" "job_name",
    column "VARCHAR(255)" "dhp_job_id",
    required "VARCHAR(32)" "state",
    column "TIMESTAMPTZ" "started_at",
    column "TIMESTAMPTZ" "ended_at",
    withDefault (required "JSONB" "facets") emptyObject,
    withDefault (required "TIMESTAMPTZ" "created_at") .now]
  primaryKey := "run_id"

/-- The datasets that the runs read or write. -/
def lineageDatasets : TableDef where
  columns := [
    uuidKey "dataset_id",
    required "VARCHAR(512)" "namespace",
    required "VARCHAR(1024)" "name",
    withDefault (required "JSONB" "facets") emptyObject,
    withDefault (required "TIMESTAMPTZ" "created_at") .now,
    withDefault (required "TIMESTAMPTZ" "updated_at") .now]
  primaryKey := "dataset_id"
  uniqueKeys := [⟨["namespace", "name"], some "uq_lineage_dataset_ns_name"⟩]

/-- The edges between runs and datasets, with the name of the unique constraint. -/
def runEdges (unique : String) : TableDef where
  columns := [uuidKey "id", required "UUID" "run_id", required "UUID" "dataset_id"]
  primaryKey := "id"
  uniqueKeys := [⟨["run_id", "dataset_id"], some unique⟩]
  references := [⟨"run_id", "lineage_runs", "run_id"⟩,
    ⟨"dataset_id", "lineage_datasets", "dataset_id"⟩]

/-- Revision 0003: the lineage tables. -/
def lineageMigration : Migration where
  revision := "0003"
  downRevision := some "0002"
  upgrade := [
    .createTable "lineage_runs" lineageRuns,
    .createIndex true "ix_lineage_runs_dhp_job_id" "lineage_runs" ["dhp_job_id"] none,
    .createIndex true "ix_lineage_runs_job_ns_name" "lineage_runs" ["job_namespace", "job_name"]
      none,
    .createTable "lineage_datasets" lineageDatasets,
    .createTable "lineage_run_inputs" (runEdges "uq_run_input"),
    .createIndex true "ix_lineage_run_inputs_run" "lineage_run_inputs" ["run_id"] none,
    .createIndex true "ix_lineage_run_inputs_dataset" "lineage_run_inputs" ["dataset_id"] none,
    .createTable "lineage_run_outputs" (runEdges "uq_run_output"),
    .createIndex true "ix_lineage_run_outputs_run" "lineage_run_outputs" ["run_id"] none,
    .createIndex true "ix_lineage_run_outputs_dataset" "lineage_run_outputs" ["dataset_id"] none]
  downgrade := [
    .dropTable false "lineage_run_outputs",
    .dropTable false "lineage_run_inputs",
    .dropTable false "lineage_datasets",
    .dropTable false "lineage_runs"]

/-- `db/migrations/versions` -/
def versions : List Migration := [baseline, scheduledJobsMigration, lineageMigration]

/-! ## What a revision consists of -/

/-- The migrations up to a revision. -/
def upTo (revision : String) : List Migration :=
  versions.take (versions.findIdx (·.revision = revision) + 1)

/-- The objects of a revision; before the first one, the extension that no downgrade drops. -/
def objects : Option String → Schema
  | none => { extensions := {"uuid-ossp"} }
  | some revision => (defineAll {} ((upTo revision).flatMap Migration.upgrade)).getD {}

private theorem reversible_versions : Reversible versions objects := by
  constructor <;> decide +kernel

/-- `init-db.sql` and the first migration do the same in an empty schema, and the migration does
nothing when it has been done. -/
theorem baseline_scripts :
    defineAll {} initDb = some (objects (some "0001")) ∧
      defineAll {} baseline.upgrade = some (objects (some "0001")) ∧
      defineAll (objects (some "0001")) baseline.upgrade = some (objects (some "0001")) := by
  decide +kernel

/-- The scripts use the names of the migrations only. -/
theorem names_baseline :
    ∀ d ∈ initDb ++ baseline.upgrade, ∀ n ∈ d.names, n ∈ migrationNames versions := by
  decide +kernel

variable {base : Schema}

private theorem beside_empty (base : Schema) : Schema.beside {} base = base := by
  simp [Schema.beside]

/-- The scripts in a schema that does not use the names. -/
theorem baseline_scripts_beside (hfree : ∀ n ∈ migrationNames versions, n ∉ base.names) :
    defineAll base initDb = some ((objects (some "0001")).beside base) ∧
      defineAll base baseline.upgrade = some ((objects (some "0001")).beside base) ∧
      defineAll ((objects (some "0001")).beside base) baseline.upgrade =
        some ((objects (some "0001")).beside base) := by
  obtain ⟨hinit, hupgrade, hagain⟩ := baseline_scripts
  have hnames : ∀ d ∈ initDb ++ baseline.upgrade, ∀ n ∈ d.names, n ∉ base.names :=
    fun d hd n hn => hfree n (names_baseline d hd n hn)
  have hinitNames := fun d hd => hnames d (List.mem_append_left _ hd)
  have hupgradeNames := fun d hd => hnames d (List.mem_append_right _ hd)
  refine ⟨?_, ?_, defineAll_beside hupgradeNames hagain⟩
  · simpa only [beside_empty] using defineAll_beside hinitNames hinit
  · simpa only [beside_empty] using defineAll_beside hupgradeNames hupgrade

/-- The first upgrade. -/
theorem migrate_baseline {schema schema' : Schema}
    (h : defineAll schema baseline.upgrade = some schema') :
    migrate versions ⟨schema, none⟩ .upgrade = ⟨schema', some "0001"⟩ := by
  have hmove : nextMove versions none .upgrade = some (baseline.upgrade, some "0001") := by rfl
  simp only [migrate, hmove, h]

/-- **Any way through the migrations ends with the objects of its revision.** In a schema that does
not use their names no migration fails, whatever the order of upgrades and downgrades, and what
is there is what was there before, with the objects of the revision that is reached. -/
theorem migrations_reversible (hfree : ∀ n ∈ migrationNames versions, n ∉ base.names)
    (moves : List Move) :
    let d := run (migrate versions) ⟨base, none⟩ moves
    d.revision = run (moveRevision versions) none moves ∧
      (d.schema = (objects d.revision).beside base ∨ d.revision = none ∧ d.schema = base) := by
  induction moves with
  | nil => exact ⟨rfl, .inr ⟨rfl, rfl⟩⟩
  | cons move moves ih =>
    cases move with
    | downgrade => exact ih
    | upgrade =>
      obtain ⟨-, hupgrade, -⟩ := baseline_scripts_beside hfree
      have hfirst : moveRevision versions none .upgrade = some "0001" := by rfl
      rw [run_cons, run_cons, migrate_baseline hupgrade, hfirst,
        reversible_versions.run hfree (some "0001") moves]
      exact ⟨rfl, .inl rfl⟩

/-- A database in which Alembic has made its own table. -/
def alembicDatabase : Schema where
  relations := [("alembic_version", .table
    { columns := [required "VARCHAR(32)" "version_num"], primaryKey := "version_num" })]

/-- Up to the last revision and all the way back. -/
theorem migrations_reversible_back :
    let d := run (migrate versions) ⟨alembicDatabase, none⟩
      [.upgrade, .upgrade, .upgrade, .downgrade, .downgrade, .downgrade]
    (d.revision = none ∧
      (d.schema = (objects d.revision).beside alembicDatabase ∨
        d.revision = none ∧ d.schema = alembicDatabase)) ∧
      d.schema.relations = alembicDatabase.relations := by
  have hfree : ∀ n ∈ migrationNames versions, n ∉ alembicDatabase.names := by decide +kernel
  exact ⟨migrations_reversible hfree _, by decide +kernel⟩

/-- **A local database can be stamped.** After `init-db.sql` the migrations do what they do after
the first of them, if the database is stamped with its revision, and also if it is not. -/
theorem init_db_mirrors_baseline (hfree : ∀ n ∈ migrationNames versions, n ∉ base.names)
    (moves : List Move) :
    ∃ schema, defineAll base initDb = some schema ∧
      run (migrate versions) ⟨schema, some "0001"⟩ moves =
        run (migrate versions) ⟨base, none⟩ (.upgrade :: moves) ∧
      run (migrate versions) ⟨schema, none⟩ (.upgrade :: moves) =
        run (migrate versions) ⟨base, none⟩ (.upgrade :: moves) := by
  obtain ⟨hinit, hupgrade, hagain⟩ := baseline_scripts_beside hfree
  refine ⟨_, hinit, ?_, ?_⟩
  · rw [run_cons, migrate_baseline hupgrade]
  · rw [run_cons, run_cons, migrate_baseline hupgrade, migrate_baseline hagain]

/-- Two more revisions, in a database that has a table already. -/
theorem init_db_mirrors_baseline_alembic :
    ∃ schema, defineAll alembicDatabase initDb = some schema ∧
      run (migrate versions) ⟨schema, some "0001"⟩ [.upgrade, .upgrade] =
        run (migrate versions) ⟨alembicDatabase, none⟩ [.upgrade, .upgrade, .upgrade] ∧
      run (migrate versions) ⟨schema, none⟩ [.upgrade, .upgrade, .upgrade] =
        run (migrate versions) ⟨alembicDatabase, none⟩ [.upgrade, .upgrade, .upgrade] := by
  have hfree : ∀ n ∈ migrationNames versions, n ∉ alembicDatabase.names := by decide +kernel
  exact init_db_mirrors_baseline hfree [.upgrade, .upgrade]

end DataHarbour.Db
