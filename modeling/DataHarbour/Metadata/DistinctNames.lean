import Mathlib.Data.Option.Basic
import DataHarbour.Metadata.Operations
import DataHarbour.Metadata.Persistence

/-!
# Distinct column names

Nothing in the service looks whether a name is taken: `create_table` stores the columns of the
request, an added column is appended, and a rename writes the new name. The names of a table
stay distinct as long as the requests bring in no name twice.
-/

namespace DataHarbour.Metadata

open Python Machine

/-- The names in `schema_json.fields`. -/
def fieldNames (schemaJson : Json) : List (Option String) :=
  ((storedFields schemaJson).getD []).map columnName

/-- The names are pairwise distinct. -/
def NamesDistinct (schemaJson : Json) : Prop := (fieldNames schemaJson).Nodup

/-- The stored and added names that a request does not drop. -/
def keptNames (schemaJson : Json) (request : TableUpdateRequest) : List (Option String) :=
  (fieldNames schemaJson ++ request.addColumns.map (some ·.name)).filter
    (fun name => decide (∀ dropped ∈ request.dropColumns, name ≠ some dropped))

/-- Every rename that finds its column gives it a name that no other column has by then. -/
def RenamesFresh : List (String × String) → List (Option String) → Prop
  | [], _ => True
  | (old, new) :: renames, names =>
    (some old ∈ names → old = new ∨ some new ∉ names) ∧
      RenamesFresh renames (names.replace (some old) (some new))

/-- A request brings in no name that another column has. -/
structure BringsNoDuplicate (schemaJson : Json) (request : TableUpdateRequest) : Prop where
  added : (keptNames schemaJson request).Nodup
  renamed : RenamesFresh request.renameColumns (keptNames schemaJson request)

/-! ## Renaming -/

section Replace

variable {α : Type*} [BEq α] [LawfulBEq α] {a b : α} {names : List α}

private theorem mem_of_mem_replace {x : α} (h : x ∈ names.replace a b) :
    x ∈ names ∨ x = b ∧ a ∈ names := by
  induction names with
  | nil => exact absurd h List.not_mem_nil
  | cons y names ih =>
    by_cases hay : a = y
    · subst hay
      rw [List.replace_cons_self, List.mem_cons] at h
      rcases h with rfl | hmem
      · exact .inr ⟨rfl, List.mem_cons_self⟩
      · exact .inl (List.mem_cons_of_mem a hmem)
    · rw [List.replace_cons, beq_false_of_ne hay, List.mem_cons] at h
      rcases h with rfl | hmem
      · exact .inl List.mem_cons_self
      · exact (ih hmem).imp (List.mem_cons_of_mem y) (.imp_right (List.mem_cons_of_mem y))

/-- Replacing a name by one that is not there keeps names distinct. -/
theorem nodup_replace (h : names.Nodup) (hfresh : a ∈ names → a = b ∨ b ∉ names) :
    (names.replace a b).Nodup := by
  induction names with
  | nil => exact h
  | cons x names ih =>
    obtain ⟨hx, htail⟩ := List.nodup_cons.mp h
    by_cases hax : a = x
    · subst hax
      rw [List.replace_cons_self, List.nodup_cons]
      refine ⟨?_, htail⟩
      rcases hfresh List.mem_cons_self with rfl | hb
      · exact hx
      · exact fun hmem => hb (List.mem_cons_of_mem a hmem)
    · have hfresh' : a ∈ names → a = b ∨ b ∉ names := fun ha =>
        (hfresh (List.mem_cons_of_mem x ha)).imp_right (mt (List.mem_cons_of_mem x))
      rw [List.replace_cons, beq_false_of_ne hax, List.nodup_cons]
      refine ⟨fun hmem => ?_, ih htail hfresh'⟩
      rcases mem_of_mem_replace hmem with hold | ⟨rfl, ha⟩
      · exact hx hold
      · -- the first name is the new one
        rcases hfresh (List.mem_cons_of_mem x ha) with heq | hb
        · exact hax heq
        · exact hb List.mem_cons_self

end Replace

private theorem nodup_renamedNames {renames : List (String × String)} {names : List (Option String)}
    (h : names.Nodup) (hfresh : RenamesFresh renames names) :
    (renamedNames renames names).Nodup := by
  induction renames generalizing names with
  | nil => exact h
  | cons rename renames ih =>
    obtain ⟨hfirst, hrest⟩ := hfresh
    refine ih (nodup_replace h fun hold => ?_) hrest
    exact (hfirst hold).imp_left (congrArg some)

/-! ## A request -/

/-- The names that the loops compute from those of the stored columns. -/
theorem names_evolveFields {stored : List Json} {request : TableUpdateRequest} {c : Columns}
    (h : evolveFields stored request = .ok c) :
    c.1.map columnName = renamedNames request.renameColumns
      ((stored.map columnName ++ request.addColumns.map (some ·.name)).filter
        (fun name => decide (∀ dropped ∈ request.dropColumns, name ≠ some dropped))) := by
  obtain ⟨d, hdrop, hrename⟩ := evolveFields_eq_ok h
  have hadded : (request.addColumns.map ColumnSchema.toJson).map columnName =
      request.addColumns.map (some ·.name) := by
    rw [List.map_map]
    rfl
  rw [(foldlM_renameField hrename).2, foldlM_dropField hdrop, ← hadded, ← List.map_append,
    List.filter_map]
  rfl

/-- A schema with a list of fields has one after every request, with the names of the loops. -/
theorem storeEvolved_cases {schemaJson : Json} {stored : List Json}
    (hstored : storedFields schemaJson = some stored) (request : TableUpdateRequest) :
    storeEvolved schemaJson request = schemaJson ∨
      ∃ c, storedFields (storeEvolved schemaJson request) = some c ∧
        c.map columnName = renamedNames request.renameColumns (keptNames schemaJson request) := by
  unfold storeEvolved
  cases he : evolveSchema schemaJson request with
  | error e => exact .inl rfl
  | ok e =>
    obtain ⟨entries, rfl, hentry⟩ := storedFields_eq_some hstored
    obtain ⟨c, hc, hschema, -⟩ := evolveSchema_of_fields hentry he
    refine .inr ⟨c.1, ?_, ?_⟩
    · simp [hschema, storedFields]
    · rw [names_evolveFields hc, keptNames, fieldNames, hstored]
      rfl

/-- A schema with a list of fields whose names are distinct. -/
def Shaped (schemaJson : Json) : Prop :=
  (∃ stored, storedFields schemaJson = some stored) ∧ NamesDistinct schemaJson

private theorem shaped_storeEvolved {schemaJson : Json} {request : TableUpdateRequest}
    (h : Shaped schemaJson) (hrequest : BringsNoDuplicate schemaJson request) :
    Shaped (storeEvolved schemaJson request) := by
  obtain ⟨⟨stored, hstored⟩, hdistinct⟩ := h
  rcases storeEvolved_cases hstored request with hsame | ⟨c, hc, hnames⟩
  · rw [hsame]
    exact ⟨⟨stored, hstored⟩, hdistinct⟩
  · refine ⟨⟨c, hc⟩, ?_⟩
    rw [NamesDistinct, fieldNames, hc, Option.getD_some, hnames]
    exact nodup_renamedNames hrequest.added hrequest.renamed

/-! ## Runs -/

/-- The names that a request of `create_table` brings in. -/
theorem fieldNames_initialSchema (fields : List ColumnSchema) :
    fieldNames (initialSchema fields) = fields.map (some ·.name) := by
  have hstored : storedFields (initialSchema fields) =
      some (fields.map ColumnSchema.toJson) := by
    simp [storedFields, initialSchema]
  rw [fieldNames, hstored, Option.getD_some, List.map_map]
  rfl

/-- **Column names stay unique as long as no request repeats one.** For a table that is created
with distinct names, through any sequence of updates of which none brings in a name that another
column has. -/
theorem names_stay_distinct {fields : List ColumnSchema}
    (hfields : (fields.map ColumnSchema.name).Nodup) {requests : List TableUpdateRequest}
    (hrequests : Along storeEvolved BringsNoDuplicate (initialSchema fields) requests) :
    Always storeEvolved NamesDistinct (initialSchema fields) requests := by
  have hshaped : Shaped (initialSchema fields) := by
    refine ⟨⟨fields.map ColumnSchema.toJson, by simp [storedFields, initialSchema]⟩, ?_⟩
    rw [NamesDistinct, fieldNames_initialSchema]
    have hnames := hfields.map (Option.some_injective String)
    rwa [List.map_map] at hnames
  rintro before rest rfl
  have hbefore := (along_append.mp hrequests).1
  exact (hbefore.preserves (fun _ _ h hrequest => shaped_storeEvolved h hrequest) hshaped).2

/-- `names_stay_distinct` at a table to which a column is added and whose first column is then
renamed. -/
theorem names_stay_distinct_sample :
    let fields : List ColumnSchema := [{ name := "id", type := "long" }]
    let requests : List TableUpdateRequest := [
      { addColumns := [{ name := "total", type := "double" }] },
      { renameColumns := [("id", "key")] }]
    Always storeEvolved NamesDistinct (initialSchema fields) requests := by
  intro fields requests
  have hadd : BringsNoDuplicate (initialSchema fields)
      { addColumns := [{ name := "total", type := "double" }] } := ⟨by decide, trivial⟩
  have hrename : BringsNoDuplicate
      (storeEvolved (initialSchema fields)
        { addColumns := [{ name := "total", type := "double" }] })
      { renameColumns := [("id", "key")] } := ⟨by decide, fun _ => .inr (by decide), trivial⟩
  exact names_stay_distinct (by decide) ⟨hadd, hrename, trivial⟩

/-- A second column `id` is added to a table with a column `id`. -/
theorem added_column_repeats_name : ¬ Always storeEvolved NamesDistinct
    (initialSchema [{ name := "id", type := "long" }])
    [{ addColumns := [{ name := "id", type := "string" }] }] := by
  intro h
  have hdistinct := h [{ addColumns := [{ name := "id", type := "string" }] }] [] rfl
  exact absurd hdistinct (by unfold NamesDistinct; decide)

end DataHarbour.Metadata
