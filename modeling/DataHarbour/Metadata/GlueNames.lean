import DataHarbour.Metadata.GlueMirror
import DataHarbour.Text.Segments

/-!
# The names of Glue entries

All tables of the catalog share one Glue database. The entry of a table has the name of its
database and its own name as its name, with two underscores between them, and both may contain
underscores themselves. Two names are the same entry if they are sent as the same text.
-/

namespace DataHarbour.Metadata

open Relational Text

/-! ## Registering a whole database -/

/-- The loop of `sync_glue`. A table without a location makes the call raise; the entries that
were made before stay. -/
def syncTables (settings : Settings) (dbName : String) (glue : Glue) :
    List CatalogTable → Glue × Option (List String)
  | [] => (glue, some [])
  | tbl :: tables =>
    match tbl.location with
    | none => (glue, none)
    | some location =>
      let (glue', submitted) := syncTables settings dbName
        (registerTable settings glue (glueName dbName tbl.tableName) location) tables
      (glue', submitted.map (tbl.tableName :: ·))

/-- `sync_glue`: the status and detail of an error, or the names of the submitted tables. -/
def syncGlue (settings : Settings) (s : MetadataService) (dbName : String) :
    MetadataService × Except (ℕ × String) (List String) :=
  if settings.glueCatalogDatabase = "" then
    (s, .error (400, "Glue write-through is not configured (GLUE_CATALOG_DATABASE empty)"))
  else
    match s.catalog.databases.find? dbName with
    | none => (s, .error (404, s!"Database '{dbName}' not found"))
    | some db =>
      let (glue, submitted) := syncTables settings dbName s.glue
        (s.catalog.tables.rows.filter (·.dbId = db.dbId))
      ({ s with glue := glue },
        match submitted with
        | some names => .ok names
        | none => .error (500, "Internal Server Error"))

/-! ## What a call does to other entries -/

variable {settings : Settings} {glue : Glue} {name other : String}

private theorem find?_registerTable_of_ne (hne : name ≠ other) (location : String) :
    (registerTable settings glue name location).find? other = glue.find? other := by
  unfold registerTable
  split
  · rfl
  · cases hinsert : glue.insert? ⟨name, slashTerminated location⟩ with
    | none => rfl
    | some glue' =>
      obtain ⟨hfresh, rfl⟩ := Table.insert?_eq_some hinsert
      rw [Option.getD_some, Table.find?_insert, if_neg hne]

private theorem find?_unregisterTable_of_ne (hne : name ≠ other) :
    (unregisterTable settings glue name).find? other = glue.find? other := by
  unfold unregisterTable
  split
  · rfl
  · exact Table.find?_erase_of_ne hne

/-! ## Collisions -/

/-- The second pair of names is the first one cut at a later place: an underscore has moved
from the table name to the database name, or a part between two doubled underscores has. -/
def Recut (dbName tableName dbName' tableName' : String) : Prop :=
  (dbName' = dbName ++ "_" ∧ tableName = "_" ++ tableName') ∨
    ∃ between, dbName' = dbName ++ "__" ++ between ∧ tableName = between ++ "__" ++ tableName'

private theorem toList_glueName (dbName tableName : String) :
    (glueName dbName tableName).toList = dbName.toList ++ '_' :: '_' :: tableName.toList := by
  have hsep : "__".toList = ['_', '_'] := rfl
  have hname : glueName dbName tableName = dbName ++ "__" ++ tableName := by
    simp [glueName, toString]
  rw [hname, String.toList_append, String.toList_append, hsep, List.append_assoc]
  rfl

private theorem recut_iff {dbName tableName dbName' tableName' : String} :
    Recut dbName tableName dbName' tableName' ↔
      CutLater '_' dbName.toList tableName.toList dbName'.toList tableName'.toList := by
  have hone : "_".toList = ['_'] := rfl
  have htwo : "__".toList = ['_', '_'] := rfl
  unfold Recut CutLater
  refine or_congr ?_ ?_
  · rw [← String.toList_inj, ← String.toList_inj, String.toList_append, String.toList_append, hone]
    rfl
  · constructor
    · rintro ⟨between, rfl, rfl⟩
      exact ⟨between.toList, by simp [htwo], by simp [htwo]⟩
    · rintro ⟨between, hdb, htable⟩
      refine ⟨String.ofList between, ?_, ?_⟩
      · rw [← String.toList_inj, hdb]
        simp [htwo]
      · rw [← String.toList_inj, htable]
        simp [htwo]

/-- Two tables share the name of their entry exactly if one pair of names is the other one cut
at another place. -/
theorem glueName_eq_iff {dbName tableName dbName' tableName' : String} :
    glueName dbName tableName = glueName dbName' tableName' ↔
      (dbName = dbName' ∧ tableName = tableName') ∨
        Recut dbName tableName dbName' tableName' ∨ Recut dbName' tableName' dbName tableName := by
  rw [← String.toList_inj, toList_glueName, toList_glueName, doubled_eq_iff, recut_iff, recut_iff,
    String.toList_inj, String.toList_inj]

/-- **Glue names identify tables** exactly if neither pair of names is the other one cut at a
later place. Then registering or dropping one table leaves the entry of the other. -/
theorem glue_names_identify_iff {dbName tableName dbName' tableName' : String}
    (hdistinct : (dbName, tableName) ≠ (dbName', tableName')) :
    (glueName dbName tableName ≠ glueName dbName' tableName' ∧
      ∀ settings glue location,
        (registerTable settings glue (glueName dbName tableName) location).find?
            (glueName dbName' tableName') = glue.find? (glueName dbName' tableName') ∧
        (unregisterTable settings glue (glueName dbName tableName)).find?
            (glueName dbName' tableName') = glue.find? (glueName dbName' tableName')) ↔
    ¬ Recut dbName tableName dbName' tableName' ∧ ¬ Recut dbName' tableName' dbName tableName := by
  have hpair : ¬ (dbName = dbName' ∧ tableName = tableName') := fun h =>
    hdistinct (Prod.ext h.1 h.2)
  rw [ne_eq, glueName_eq_iff, not_or, not_or]
  constructor
  · rintro ⟨⟨-, hcut⟩, -⟩
    exact hcut
  · intro hcut
    refine ⟨⟨hpair, hcut⟩, fun settings glue location => ?_⟩
    have hne : glueName dbName tableName ≠ glueName dbName' tableName' := by
      rw [ne_eq, glueName_eq_iff, not_or, not_or]
      exact ⟨hpair, hcut⟩
    exact ⟨find?_registerTable_of_ne hne location, find?_unregisterTable_of_ne hne⟩

/-- Two tables of the database `sales` do not meet in Glue. -/
theorem glue_names_identify_sales :
    (glueName "sales" "orders" ≠ glueName "sales" "returns" ∧
      ∀ settings glue location,
        (registerTable settings glue (glueName "sales" "orders") location).find?
            (glueName "sales" "returns") = glue.find? (glueName "sales" "returns") ∧
        (unregisterTable settings glue (glueName "sales" "orders")).find?
            (glueName "sales" "returns") = glue.find? (glueName "sales" "returns")) ↔
    ¬ Recut "sales" "orders" "sales" "returns" ∧ ¬ Recut "sales" "returns" "sales" "orders" :=
  glue_names_identify_iff (by decide)

/-- The entries of `a.b__c` and of `a__b.c` have one name, so that dropping the one removes the
entry of the other. -/
theorem glue_names_collide :
    validName "a" = true ∧ validName "b__c" = true ∧ validName "a__b" = true ∧
      validName "c" = true ∧ glueName "a" "b__c" = glueName "a__b" "c" ∧
      (unregisterTable { glueCatalogDatabase := "dhp" }
        (registerTable { glueCatalogDatabase := "dhp" } Table.empty (glueName "a__b" "c")
          "s3://w/c")
        (glueName "a" "b__c")).find? (glueName "a__b" "c") = none := by
  refine ⟨by decide, by decide, by decide, by decide, ?_, ?_⟩
  · exact glueName_eq_iff.mpr (.inr (.inl (.inr ⟨"b", rfl, rfl⟩)))
  · decide

end DataHarbour.Metadata
