import DataHarbour.Metadata.Operations
import DataHarbour.Text.Segments

/-!
# Storage locations

Locations are set at creation and never change. They are slash-terminated paths below the
warehouse bucket, and names have no slash: no table lies inside another one, and each lies
inside its own database only.
-/

namespace DataHarbour.Metadata

open Relational Machine

/-- The text starts with the other one. -/
def StartsWith (text start : String) : Prop := start.toList <+: text.toList

/-- Tables do not overlap, and each lies inside its own database and no other. -/
structure Separated (c : Catalog) : Prop where
  apart : ∀ t ∈ c.tables.rows, ∀ t' ∈ c.tables.rows, t ≠ t' →
    ∀ l l', t.location = some l → t'.location = some l' → ¬ StartsWith l' l
  inside : ∀ t ∈ c.tables.rows, ∃ l, t.location = some l ∧ ∃ db ∈ c.databases.rows,
    db.dbId = t.dbId ∧ ∃ d, db.location = some d ∧ StartsWith l d ∧ d ≠ l
  outside : ∀ t ∈ c.tables.rows, ∀ db ∈ c.databases.rows, db.dbId ≠ t.dbId →
    ∀ l d, t.location = some l → db.location = some d → ¬ StartsWith l d

/-! ## Names -/

/-- A valid name has no slash. -/
theorem slash_notMem_of_validName {name : String} (h : validName name = true) :
    '/' ∉ name.toList := by
  have hchar : ∀ c, isNameChar c = true → '/' ≠ c := by
    rintro c hc rfl
    exact absurd hc (by decide)
  have hstart : ∀ c, isNameStart c = true → '/' ≠ c := by
    rintro c hc rfl
    exact absurd hc (by decide)
  unfold validName at h
  split at h
  · cases h
  · next c cs hcs =>
    simp only [Bool.and_eq_true, List.all_eq_true] at h
    rw [hcs, List.mem_cons, not_or]
    exact ⟨hstart c h.1.1, fun hmem => hchar _ (h.1.2 _ hmem) rfl⟩

/-- What all locations start with. -/
def bucketPrefix (settings : Settings) : String := s!"s3://{settings.s3WarehouseBucket}/"

/-- The location with the given segments below the bucket. -/
def located (settings : Settings) (names : List String) : List Char :=
  (bucketPrefix settings).toList ++ Text.path '/' (names.map String.toList)

private theorem located_prefix_iff {settings : Settings} {names names' : List String}
    (h : ∀ name ∈ names, validName name = true) (h' : ∀ name ∈ names', validName name = true) :
    located settings names <+: located settings names' ↔ names <+: names' := by
  have hslash : ∀ {names : List String}, (∀ name ∈ names, validName name = true) →
      ∀ w ∈ names.map String.toList, '/' ∉ w := by
    intro names hnames w hw
    obtain ⟨name, hname, rfl⟩ := List.mem_map.mp hw
    exact slash_notMem_of_validName (hnames name hname)
  have hinj : Function.Injective String.toList := fun _ _ => String.toList_inj.mp
  rw [located, located, List.prefix_append_right_inj, Text.path_prefix_iff (hslash h) (hslash h'),
    List.prefix_map_iff_of_injective hinj]

/-- A segment below a location. -/
theorem located_snoc (settings : Settings) (names : List String) (name : String) :
    located settings (names ++ [name]) = located settings names ++ (name.toList ++ ['/']) := by
  simp [located, Text.path]

/-! ## The invariant -/

/-- The locations are made of the names. -/
structure Placed (settings : Settings) (c : Catalog) : Prop where
  consistent : c.Consistent
  databases : ∀ db ∈ c.databases.rows, validName db.dbName = true ∧
    ∃ d, db.location = some d ∧ d.toList = located settings [db.dbName]
  tables : ∀ t ∈ c.tables.rows, ∀ db ∈ c.databases.rows, db.dbId = t.dbId →
    validName t.tableName = true ∧
      ∃ l, t.location = some l ∧ l.toList = located settings [db.dbName, t.tableName]

/-- The empty catalog has every table in its place. -/
theorem placed_empty (settings : Settings) : Placed settings .empty where
  consistent := consistent_empty
  databases _ hdb := absurd hdb List.not_mem_nil
  tables _ ht := absurd ht List.not_mem_nil

private theorem located_newDatabase (settings : Settings) (now : Time)
    (request : DatabaseCreateRequest)
    (dbId : DbId) : ∃ d, (newDatabase settings now request dbId).location = some d ∧
      d.toList = located settings [request.dbName] := by
  refine ⟨_, rfl, ?_⟩
  simp [located, bucketPrefix, toString]

private theorem located_newTable {settings : Settings} {now : Time} {db : CatalogDatabase}
    {request : TableCreateRequest} {tableId : TableId} {d : String}
    (hlocation : db.location = some d) (hd : d.toList = located settings [db.dbName]) :
    ∃ l, (newTable now db request tableId).location = some l ∧
      l.toList = located settings [db.dbName, request.tableName] := by
  refine ⟨_, rfl, ?_⟩
  have hsnoc := located_snoc settings [db.dbName] request.tableName
  rw [List.singleton_append] at hsnoc
  rw [hsnoc, ← hd]
  simp [hlocation, formatOptional, toString]

/-- Every handled request leaves the tables in their places. -/
theorem placed_handled {settings : Settings} {s s' : MetadataService} {request : CatalogRequest}
    (h : Placed settings s.catalog) (hhandled : Handled settings s request s') :
    Placed settings s'.catalog := by
  have hconsistent := consistent_handled h.consistent hhandled
  cases hhandled with
  | rejected _ => exact h
  | @createDatabase request dbId now hfresh hid =>
    refine ⟨hconsistent, fun db hdb => ?_, fun t ht db hdb howner => ?_⟩
    · rcases (Table.mem_insert hfresh).mp hdb with rfl | hold
      · exact ⟨request.name_valid, located_newDatabase settings now request dbId⟩
      · exact h.databases db hold
    · rcases (Table.mem_insert hfresh).mp hdb with rfl | hold
      · -- the tables belong to older databases
        obtain ⟨db', hdb', howner'⟩ := h.consistent.owner t ht
        exact absurd (howner'.trans howner.symm) (hid db' hdb')
      · exact h.tables t ht db hold howner
  | dropDatabase _ =>
    refine ⟨hconsistent, fun db hdb => ?_, fun t ht db hdb howner => ?_⟩
    · exact h.databases db (Table.mem_erase.mp hdb).1
    · exact h.tables t (Table.mem_delete.mp ht).1 db (Table.mem_erase.mp hdb).1 howner
  | @createTable _ request _ now db hdb hfresh _ =>
    refine ⟨hconsistent, h.databases, fun t ht owner howner hid => ?_⟩
    rcases (Table.mem_insert hfresh).mp ht with rfl | hold
    · have hmem := Table.mem_of_find? hdb
      obtain rfl := h.consistent.ids owner howner db hmem hid
      obtain ⟨-, d, hlocation, hd⟩ := h.databases owner hmem
      exact ⟨request.name_valid, located_newTable hlocation hd⟩
    · exact h.tables t hold owner howner hid
  | @updateTable _ _ _ row row' _ _ _ hrow hkey _ hlocation =>
    obtain ⟨-, -, hmem, -⟩ := findTable_eq_some hrow
    obtain ⟨hdbId, htableName⟩ := Prod.mk.inj hkey
    refine ⟨hconsistent, h.databases, fun t ht db hdb howner => ?_⟩
    rcases Table.mem_of_mem_set ht with rfl | hold
    · rw [htableName, hlocation]
      exact h.tables row hmem db hdb (howner.trans hdbId)
    · exact h.tables t hold db hdb howner
  | dropTable _ =>
    refine ⟨hconsistent, h.databases, fun t ht db hdb howner => ?_⟩
    exact h.tables t (Table.mem_erase.mp ht).1 db hdb howner

/-! ## Separation -/

/-- Locations that are made of valid names are separated as the names are. -/
theorem Placed.separated {settings : Settings} {c : Catalog} (h : Placed settings c) :
    Separated c := by
  have hplaced : ∀ t ∈ c.tables.rows, ∃ db ∈ c.databases.rows, db.dbId = t.dbId ∧
      validName db.dbName = true ∧ validName t.tableName = true ∧
        ∃ l, t.location = some l ∧ l.toList = located settings [db.dbName, t.tableName] := by
    intro t ht
    obtain ⟨db, hdb, howner⟩ := h.consistent.owner t ht
    obtain ⟨hname, l, hl⟩ := h.tables t ht db hdb howner
    exact ⟨db, hdb, howner, (h.databases db hdb).1, hname, l, hl⟩
  constructor
  · intro t ht t' ht' hne l l' hl hl' hprefix
    obtain ⟨db, hdb, howner, hdbName, hname, k, hk, hlocated⟩ := hplaced t ht
    obtain ⟨db', hdb', howner', hdbName', hname', k', hk', hlocated'⟩ := hplaced t' ht'
    obtain rfl := Option.some.inj (hk.symm.trans hl)
    obtain rfl := Option.some.inj (hk'.symm.trans hl')
    rw [StartsWith, hlocated, hlocated', located_prefix_iff (by simp [hdbName, hname])
      (by simp [hdbName', hname'])] at hprefix
    -- two names against two names: they are the same
    obtain ⟨hdbs, hnames⟩ : db.dbName = db'.dbName ∧ t.tableName = t'.tableName := by
      simpa [List.cons_prefix_cons] using hprefix
    obtain rfl := Table.eq_of_key_eq hdb hdb' hdbs
    exact hne (Table.eq_of_key_eq ht ht' (Prod.ext (howner.symm.trans howner') hnames))
  · intro t ht
    obtain ⟨db, hdb, howner, hdbName, hname, l, hl, hlocated⟩ := hplaced t ht
    obtain ⟨-, d, hd, hdlocated⟩ := h.databases db hdb
    refine ⟨l, hl, db, hdb, howner, d, hd, ?_, ?_⟩
    · rw [StartsWith, hdlocated, hlocated, located_prefix_iff (by simp [hdbName])
        (by simp [hdbName, hname])]
      simp
    · rintro rfl
      have hsame := hdlocated.symm.trans hlocated
      have hback : located settings [db.dbName, t.tableName] <+: located settings [db.dbName] :=
        hsame ▸ List.prefix_refl _
      rw [located_prefix_iff (by simp [hdbName, hname]) (by simp [hdbName])] at hback
      simp at hback
  · intro t ht db hdb hother l d hl hd hprefix
    obtain ⟨owner, howner, hid, hownerName, hname, k, hk, hlocated⟩ := hplaced t ht
    obtain ⟨hdbName, k', hk', hdlocated⟩ := h.databases db hdb
    obtain rfl := Option.some.inj (hk.symm.trans hl)
    obtain rfl := Option.some.inj (hk'.symm.trans hd)
    rw [StartsWith, hdlocated, hlocated, located_prefix_iff (by simp [hdbName])
      (by simp [hownerName, hname])] at hprefix
    have hsame : db.dbName = owner.dbName := by
      simpa [List.cons_prefix_cons] using hprefix
    exact hother (Table.eq_of_key_eq hdb howner hsame ▸ hid)

/-- **Tables never overlap in storage.** In every state that requests lead to from an empty
catalog, whatever the bucket is called, no table's location starts with that of another table,
and each starts with the location of its own database and of no other. -/
theorem tables_separated (settings : Settings) (requests : List (Time × CatalogRequest)) :
    Separated (run (handle settings) emptyService requests).catalog := by
  have hinvariant : Invariant (handle settings) fun s => Placed settings s.catalog :=
    fun s request h => placed_handled h (handled_handle settings s request.1 request.2)
  exact (hinvariant.run (placed_empty settings) requests).separated

end DataHarbour.Metadata
