import DataHarbour.Metadata.Operations

/-!
# The catalog gauges

The gauges are seeded with the numbers of rows and then follow the single operations. The
cascade of `drop_database` removes tables that no operation has counted.
-/

namespace DataHarbour.Metadata

open Relational Machine

/-- The gauges show the numbers of rows. -/
structure GaugesAgree (s : MetadataService) : Prop where
  databases : s.catalogDatabases = s.catalog.databases.rows.length
  tables : s.catalogTables = s.catalog.tables.rows.length

variable {settings : Settings}

/-- A request keeps the gauges right exactly if it drops no table by cascade. -/
theorem gaugesAgree_handle_iff {s : MetadataService} (h : GaugesAgree s)
    (request : Time × CatalogRequest) :
    GaugesAgree (handle settings s request) ↔ DropsEmpty s request := by
  obtain ⟨now, request⟩ := request
  have hhandled := handled_handle settings s now request
  generalize handle settings s (now, request) = s' at hhandled ⊢
  cases hhandled with
  | rejected hdrop => exact iff_of_true h (dropsEmpty_of_rejected hdrop now)
  | createDatabase _ _ _ =>
    refine iff_of_true ⟨?_, h.tables⟩ trivial
    simp [Table.insert, h.databases]
  | @dropDatabase dbName db hdb =>
    have hname := Table.key_of_find? hdb
    have hlength := Table.length_erase (Table.mem_of_find? hdb)
    have hcascade := Table.length_delete_eq_iff (t := s.catalog.tables)
      (p := (·.dbId = db.dbId))
    have hdatabases : s.catalogDatabases - 1 =
        ((s.catalog.dropDatabase db).databases.rows.length : ℤ) := by
      rw [h.databases, ← hlength]
      simp [Catalog.dropDatabase]
    constructor
    · intro hafter db' hdb' t ht
      obtain rfl := Option.some.inj (hdb.symm.trans hdb')
      have hlengths := h.tables.symm.trans hafter.tables
      simpa using hcascade.mp (Int.ofNat.inj hlengths).symm t ht
    · intro hempty
      refine ⟨hdatabases, ?_⟩
      have hsame := hcascade.mpr fun t ht => by simpa using hempty db hdb t ht
      exact h.tables.trans (congrArg Int.ofNat hsame.symm)
  | createTable _ _ _ _ =>
    refine iff_of_true ⟨h.databases, ?_⟩ trivial
    simp [Table.insert, h.tables]
  | updateTable _ _ _ _ _ =>
    refine iff_of_true ⟨h.databases, ?_⟩ trivial
    rw [h.tables, Table.length_set]
  | @dropTable _ _ record hrecord =>
    obtain ⟨-, -, hmem, -⟩ := findTable_eq_some hrecord
    have hlength := Table.length_erase hmem
    refine iff_of_true ⟨h.databases, ?_⟩ trivial
    rw [h.tables, ← hlength]
    simp

/-- **When the gauges agree with the catalog.** From seeded gauges on any catalog, after every
sequence of requests, exactly if no database is dropped while it has tables. -/
theorem gaugesAgree_iff (catalog : Catalog) (glue : Glue)
    (requests : List (Time × CatalogRequest)) :
    Always (handle settings) GaugesAgree (seedCatalogGauges catalog glue) requests ↔
      Along (handle settings) DropsEmpty (seedCatalogGauges catalog glue) requests := by
  refine always_iff_along (I := fun _ _ => True) (fun _ _ _ _ => trivial)
    (fun s request _ _ h => gaugesAgree_handle_iff h request) trivial ⟨rfl, rfl⟩

/-- No table is left, and the gauge still shows one. -/
theorem dropped_table_stays_in_gauge : ¬ Always (handle {}) GaugesAgree
    emptyService dropWithTable := by
  intro h
  have htables := (h dropWithTable [] (List.append_nil _).symm).tables
  exact absurd htables (by decide)

end DataHarbour.Metadata
