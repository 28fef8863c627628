import Mathlib.Data.List.Perm.Basic
import DataHarbour.Metadata.Frames

/-!
# Renames as a mapping

A request that only renames names its columns by a map from old to new names. The loop applies
the entries one after another, each to the first column that has the old name by then.
-/

namespace DataHarbour.Metadata

open Python Text

/-- The column with its name looked up in the map. -/
def renamedColumn (renames : List (String × String)) (f : Json) : Json :=
  match f, columnName f with
  | .obj entries, some name => .obj (Dict.set entries "name" (.str (substitute renames name)))
  | f, _ => f

/-- The request names no column to add or to drop. -/
structure OnlyRenames (request : TableUpdateRequest) : Prop where
  adds : request.addColumns = []
  drops : request.dropColumns = []

private theorem columnName_eq_some {f : Json} {name : String} (h : columnName f = some name) :
    ∃ entries, f = .obj entries ∧ Dict.get? entries "name" = some (.str name) := by
  cases f with
  | obj entries =>
    refine ⟨entries, rfl, ?_⟩
    simp only [columnName] at h
    split at h
    · next hentry => rw [hentry, Option.some.inj h]
    · cases h
  | null | bool | int | float | infinity | str | arr => cases h

private theorem renamed_renamedColumn (renames : List (String × String)) (f : Json) :
    Renamed f (renamedColumn renames f) ∧
      columnName (renamedColumn renames f) = (columnName f).map (substitute renames) := by
  cases hname : columnName f with
  | none =>
    have hsame : renamedColumn renames f = f := by
      unfold renamedColumn
      rw [hname]
      cases f <;> rfl
    rw [hsame, hname]
    exact ⟨.inl rfl, rfl⟩
  | some name =>
    obtain ⟨entries, rfl, hentry⟩ := columnName_eq_some hname
    have hset : renamedColumn renames (.obj entries) =
        .obj (Dict.set entries "name" (.str (substitute renames name))) := by
      unfold renamedColumn
      rw [hname]
    rw [hset]
    exact ⟨.inr ⟨entries, name, _, rfl, hentry, rfl⟩, by simp [columnName]⟩

/-- Two renamed versions of a column with the same name are the same. -/
theorem Renamed.eq_of_columnName_eq {f g g' : Json} (hg : Renamed f g) (hg' : Renamed f g')
    (hnames : columnName g = columnName g') : g = g' := by
  rcases hg with rfl | ⟨entries, old, new, rfl, hold, rfl⟩
  · exact (hg'.eq_of_columnName hnames.symm).symm
  · rcases hg' with rfl | ⟨entries', old', new', hentries, -, rfl⟩
    · exact Renamed.eq_of_columnName (.inr ⟨entries, old, new, rfl, hold, rfl⟩) hnames
    · obtain rfl : entries = entries' := Json.obj.inj hentries
      have hnew : new = new' := by simpa [columnName] using hnames
      rw [hnew]

private theorem eq_of_forall₂_renamed {xs ys zs : List Json} (hys : List.Forall₂ Renamed xs ys)
    (hzs : List.Forall₂ Renamed xs zs) (hnames : ys.map columnName = zs.map columnName) :
    ys = zs := by
  induction hys generalizing zs with
  | nil =>
    cases hzs
    rfl
  | cons hfg _ ih =>
    cases hzs with
    | cons hfh hrest =>
      rw [List.map_cons, List.map_cons, List.cons.injEq] at hnames
      rw [hfg.eq_of_columnName_eq hfh hnames.1, ih hrest hnames.2]

/-- A substitution of texts, on optional texts. -/
theorem substitute_map_some (renames : List (String × String)) (name : Option String) :
    substitute (renames.map (Prod.map some some)) name = name.map (substitute renames) := by
  cases name with
  | none =>
    refine substitute_of_notMem fun hmem => ?_
    simp at hmem
  | some name =>
    induction renames with
    | nil => rfl
    | cons rename renames ih =>
      rw [List.map_cons, Prod.map, substitute, Option.map_some, substitute, ih]
      by_cases hkey : rename.1 = name
      · simp [hkey]
      · simp [hkey]

/-- What the update computes for a request that renames and does nothing else: the names of
one entry after another. -/
theorem evolveSchema_of_onlyRenames {entries : Dict} {stored : List Json}
    (hfields : Dict.get? entries "fields" = some (.arr stored)) (hstored : ∀ f ∈ stored, Named f)
    {request : TableUpdateRequest} (honly : OnlyRenames request) :
    ∃ e, ∃ columns : List Json, evolveSchema (.obj entries) request = .ok e ∧
      storedFields (e.schema.read e.heap) = some columns ∧
      List.Forall₂ Renamed stored columns ∧
      columns.map columnName = replaceEach (request.renameColumns.map (Prod.map some some))
        (stored.map columnName) := by
  obtain ⟨e, c, he, hc, hcolumns⟩ := evolveSchema_of_named hfields hstored request
  obtain ⟨d, hdrop, hrename⟩ := evolveFields_eq_ok hc
  obtain ⟨hrel, hnames⟩ := foldlM_renameField hrename
  have hd : d.1 = stored := by
    rw [foldlM_dropField hdrop, honly.adds, honly.drops]
    simp
  rw [hd] at hrel hnames
  exact ⟨e, c.1, he, hcolumns, hrel, by rw [hnames, renamedNames_eq_replaceEach]⟩

private theorem map_columnName_renamedColumn (renames : List (String × String))
    (stored : List Json) :
    (stored.map (renamedColumn renames)).map columnName =
      (stored.map columnName).map (substitute (renames.map (Prod.map some some))) := by
  rw [List.map_map, List.map_map]
  refine List.map_congr_left fun f _ => ?_
  rw [Function.comp_apply, Function.comp_apply, (renamed_renamedColumn renames f).2,
    substitute_map_some]

/-- The update computes the columns renamed by the map exactly if the entries, one after
another, lead to their names. -/
theorem evolveSchema_eq_renamedColumn_iff {entries : Dict} {stored : List Json}
    (hfields : Dict.get? entries "fields" = some (.arr stored)) (hstored : ∀ f ∈ stored, Named f)
    {request : TableUpdateRequest} (honly : OnlyRenames request)
    (renames : List (String × String)) :
    (∃ e, evolveSchema (.obj entries) request = .ok e ∧
      storedFields (e.schema.read e.heap) = some (stored.map (renamedColumn renames))) ↔
    replaceEach (request.renameColumns.map (Prod.map some some)) (stored.map columnName) =
      (stored.map columnName).map (substitute (renames.map (Prod.map some some))) := by
  obtain ⟨e, columns, he, hcolumns, hrel, hnames⟩ :=
    evolveSchema_of_onlyRenames hfields hstored honly
  have hexpected : List.Forall₂ Renamed stored (stored.map (renamedColumn renames)) :=
    List.forall₂_map_right_iff.mpr
      (List.forall₂_same.mpr fun f _ => (renamed_renamedColumn renames f).1)
  rw [← hnames, ← map_columnName_renamedColumn]
  constructor
  · rintro ⟨e', he', hcolumns'⟩
    obtain rfl : e = e' := Except.ok.inj (he.symm.trans he')
    rw [Option.some.inj (hcolumns.symm.trans hcolumns')]
  · intro heq
    exact ⟨e, he, by rw [hcolumns, eq_of_forall₂_renamed hrel hexpected heq]⟩

/-- No entry renames a stored column to the key of another entry that changes it, unless the
column with that name stands in front. -/
def NoTargetRenamed (stored : List Json) (renames : List (String × String)) : Prop :=
  ∀ k v v', (k, v) ∈ renames → (v, v') ∈ renames → v' ≠ v → some k ∈ stored.map columnName →
    (stored.map columnName).idxOf (some v) < (stored.map columnName).idxOf (some k)

private theorem noTargetRenamed_iff {stored : List Json} {renames : List (String × String)} :
    NoTargetRenamed stored renames ↔
      NoKeyProduced (stored.map columnName) (renames.map (Prod.map some some)) := by
  have hentry (k v : Option String) : (k, v) ∈ renames.map (Prod.map some some) ↔
      ∃ k' v', (k', v') ∈ renames ∧ k = some k' ∧ v = some v' := by
    simp [eq_comm]
  rw [NoTargetRenamed, beq_optionString]
  constructor
  · intro h k v v' hkv hvv' hne hk
    obtain ⟨old, new, hold, rfl, rfl⟩ := (hentry k v).mp hkv
    obtain ⟨key, new', hkey, heq, rfl⟩ := (hentry _ v').mp hvv'
    obtain rfl := Option.some.inj heq
    exact h old new new' hold hkey (fun heq => hne (congrArg some heq)) hk
  · intro h k v v' hkv hvv' hne hk
    exact h (some k) (some v) (some v') ((hentry _ _).mpr ⟨k, v, hkv, rfl, rfl⟩)
      ((hentry _ _).mpr ⟨v, v', hvv', rfl, rfl⟩) (fun heq => hne (Option.some.inj heq)) hk

/-- **Renames apply as a mapping** in every order of the entries exactly if no entry renames a
stored column to the key of another one, unless the column with that name stands in front. -/
theorem renames_apply_as_mapping_iff {entries : Dict} {stored : List Json}
    (hfields : Dict.get? entries "fields" = some (.arr stored)) (hstored : ∀ f ∈ stored, Named f)
    (hdistinct : (stored.map columnName).Nodup) {renames : List (String × String)}
    (hkeys : (renames.map Prod.fst).Nodup)
    (hsubstituted : ((stored.map (renamedColumn renames)).map columnName).Nodup) :
    (∀ request, OnlyRenames request → request.renameColumns.Perm renames →
      ∃ e, evolveSchema (.obj entries) request = .ok e ∧
        storedFields (e.schema.read e.heap) = some (stored.map (renamedColumn renames))) ↔
    NoTargetRenamed stored renames := by
  have hkeys' : ((renames.map (Prod.map some some)).map Prod.fst).Nodup := by
    have hmapped := hkeys.map (Option.some_injective String)
    rwa [List.map_map] at hmapped ⊢
  rw [map_columnName_renamedColumn] at hsubstituted
  rw [noTargetRenamed_iff, ← forall_perm_replaceEach_iff hdistinct hkeys' hsubstituted]
  constructor
  · intro h renames' hperm
    have hcomp := List.eq_map_comp_perm (Prod.map some some : String × String → _)
    obtain ⟨order, rfl, horder⟩ := (congrFun (congrFun hcomp renames') renames).mpr hperm
    let request : TableUpdateRequest :=
      { renameColumns := order, rename_keys := (horder.map Prod.fst).nodup_iff.mpr hkeys }
    have honly : OnlyRenames request := ⟨rfl, rfl⟩
    exact (evolveSchema_eq_renamedColumn_iff hfields hstored honly renames).mp
      (h request honly horder)
  · intro h request honly hperm
    rw [evolveSchema_eq_renamedColumn_iff hfields hstored honly]
    exact h _ (hperm.map _)

/-- One order of the entries acts as the mapping if none of them renames a stored column to the
key of a later one. -/
theorem evolveSchema_of_noLaterKey {entries : Dict} {stored : List Json}
    (hfields : Dict.get? entries "fields" = some (.arr stored)) (hstored : ∀ f ∈ stored, Named f)
    (hdistinct : (stored.map columnName).Nodup) {request : TableUpdateRequest}
    (honly : OnlyRenames request)
    (h : NoLaterKey (stored.map columnName) (request.renameColumns.map (Prod.map some some))) :
    ∃ e, evolveSchema (.obj entries) request = .ok e ∧ storedFields (e.schema.read e.heap) =
      some (stored.map (renamedColumn request.renameColumns)) := by
  rw [evolveSchema_eq_renamedColumn_iff hfields hstored honly]
  have hkeys := request.rename_keys.map (Option.some_injective String)
  rw [List.map_map] at hkeys
  exact replaceEach_eq_map hdistinct (by rwa [List.map_map]) h

/-- Columns of different types. -/
def typedColumns : List Json :=
  [ColumnSchema.toJson { name := "a", type := "long" },
   ColumnSchema.toJson { name := "b", type := "string" }]

/-- `renames_apply_as_mapping_iff` at a chain whose last name is new. -/
theorem renames_apply_as_mapping_chain :
    (∀ request, OnlyRenames request → request.renameColumns.Perm [("b", "a"), ("a", "c")] →
      ∃ e, evolveSchema (.obj [("fields", .arr typedColumns)]) request = .ok e ∧
        storedFields (e.schema.read e.heap) =
          some (typedColumns.map (renamedColumn [("b", "a"), ("a", "c")]))) ↔
    NoTargetRenamed typedColumns [("b", "a"), ("a", "c")] := by
  refine renames_apply_as_mapping_iff (by simp) ?_ (by decide) (by decide) (by decide)
  simp [typedColumns, Named, ColumnSchema.toJson, columnName]

/-- Two columns that exchange their names keep them. -/
theorem exchange_of_names_ignored :
    (typedColumns.map columnName).Nodup ∧
    ((typedColumns.map (renamedColumn [("a", "b"), ("b", "a")])).map columnName).Nodup ∧
    ∃ e, evolveSchema (.obj [("fields", .arr typedColumns)])
        { renameColumns := [("a", "b"), ("b", "a")] } = .ok e ∧
      storedFields (e.schema.read e.heap) = some typedColumns ∧
      typedColumns ≠ typedColumns.map (renamedColumn [("a", "b"), ("b", "a")]) := by
  refine ⟨by decide, by decide, _, rfl, rfl, fun heq => ?_⟩
  have hnames := congrArg (List.map columnName) heq
  revert hnames
  decide

end DataHarbour.Metadata
