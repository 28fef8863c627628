import DataHarbour.Metadata.DistinctNames
import DataHarbour.Text.Substitution

/-!
# What a schema update leaves alone

The loops return for every schema whose columns have a name. Of the stored and added columns
those stay that no dropped name names, and of these a rename changes no more than the name.
-/

namespace DataHarbour.Metadata

open Python

/-- The column is a `dict` with a text under `"name"`. -/
def Named (f : Json) : Prop := ∃ name, columnName f = some name

private theorem nameEquals_of_named {f : Json} (h : Named f) (name : String) :
    ∃ b, nameEquals name f = .ok b := by
  obtain ⟨stored, hstored⟩ := h
  cases f with
  | obj entries =>
    cases hentry : Dict.get? entries "name" with
    | none => simp [columnName, hentry] at hstored
    | some v => exact ⟨v.pyEq (.str name), by
        simp [nameEquals, Json.getItem, hentry, bind, Except.bind, pure, Except.pure]⟩
  | null | bool | int | float | infinity | str | arr => simp [columnName] at hstored

private theorem renameFirst_of_named (rename : String × String) {xs : List Json}
    (h : ∀ f ∈ xs, Named f) :
    ∃ found, renameFirst rename xs = .ok found := by
  induction xs with
  | nil => exact ⟨none, rfl⟩
  | cons f rest ih =>
    obtain ⟨hf, hrest⟩ := List.forall_mem_cons.mp h
    obtain ⟨b, hb⟩ := nameEquals_of_named hf rename.1
    obtain ⟨found, hfound⟩ := ih hrest
    cases b with
    | true =>
      obtain ⟨entries, v, rfl, -, -⟩ := nameEquals_eq_ok hb
      exact ⟨_, by rw [renameFirst, hb]; rfl⟩
    | false => exact ⟨_, by rw [renameFirst, hb]; simp only [hfound]; rfl⟩

private theorem named_of_renamed {f g : Json} (hf : Named f) (h : Renamed f g) : Named g := by
  rcases h with rfl | ⟨entries, old, new, rfl, -, rfl⟩
  · exact hf
  · exact ⟨new, by simp [columnName]⟩

private theorem named_of_forall₂ {xs ys : List Json} (hxs : ∀ f ∈ xs, Named f)
    (h : List.Forall₂ Renamed xs ys) : ∀ g ∈ ys, Named g := by
  induction h with
  | nil => exact hxs
  | cons hfg _ ih =>
    obtain ⟨hf, hrest⟩ := List.forall_mem_cons.mp hxs
    exact List.forall_mem_cons.mpr ⟨named_of_renamed hf hfg, ih hrest⟩

private theorem dropField_of_named {c : Columns} (h : ∀ f ∈ c.1, Named f) (name : String) :
    ∃ c', dropField c name = .ok c' ∧ ∀ f ∈ c'.1, Named f := by
  have htests : ∀ f ∈ c.1, ∃ b, nameDiffers name f = .ok b := by
    intro f hf
    obtain ⟨b, hb⟩ := nameEquals_of_named (h f hf) name
    exact ⟨!b, by rw [nameDiffers, hb]; rfl⟩
  obtain ⟨kept, hkept⟩ := filterE_returns htests
  refine ⟨(kept, c.2 ++ [droppedText name]), by rw [dropField, hkept]; rfl, fun f hf => ?_⟩
  exact h f ((filterE_sublist hkept).subset hf)

private theorem renameField_of_named {c : Columns} (h : ∀ f ∈ c.1, Named f)
    (rename : String × String) :
    ∃ c', renameField c rename = .ok c' ∧ ∀ f ∈ c'.1, Named f := by
  obtain ⟨found, hfound⟩ := renameFirst_of_named rename h
  cases found with
  | none => exact ⟨c, by rw [renameField, hfound]; rfl, h⟩
  | some fields =>
    refine ⟨(fields, c.2 ++ [renamedText rename]), by rw [renameField, hfound]; rfl, ?_⟩
    exact named_of_forall₂ h (renameFirst_eq_ok hfound).1

/-- The update computes its columns, and they are those of the loops by value. -/
theorem evolveSchema_of_named {entries : Dict} {stored : List Json}
    (hfields : Dict.get? entries "fields" = some (.arr stored)) (hstored : ∀ f ∈ stored, Named f)
    (request : TableUpdateRequest) :
    ∃ e c, evolveSchema (.obj entries) request = .ok e ∧ evolveFields stored request = .ok c ∧
      storedFields (e.schema.read e.heap) = some c.1 := by
  have hadded : ∀ f ∈ stored ++ request.addColumns.map ColumnSchema.toJson, Named f := by
    intro f hf
    rcases List.mem_append.mp hf with hf | hf
    · exact hstored f hf
    · obtain ⟨col, -, rfl⟩ := List.mem_map.mp hf
      exact ⟨col.name, rfl⟩
  obtain ⟨d, hdrop, hd⟩ := foldlM_returns (fun c name h => dropField_of_named h name)
    request.dropColumns (a := (stored ++ request.addColumns.map ColumnSchema.toJson,
      request.addColumns.map addedText)) hadded
  obtain ⟨c, hrename, -⟩ := foldlM_returns (fun c rename h => renameField_of_named h rename)
    request.renameColumns hd
  have hc : evolveFields stored request = .ok c := by
    rw [evolveFields, foldlM_addField]
    simp only [bind, Except.bind, List.nil_append]
    rw [hdrop]
    exact hrename
  have hagree := evolveFields_agree stored request
  rw [hc] at hagree
  obtain ⟨e', hrun, -⟩ := hagree.of_ok_right
  obtain ⟨e, he⟩ : ∃ e, evolveSchema (.obj entries) request = .ok e := by
    simp only [evolveSchema, loadSchema, hfields, fieldsOf, hrun, bind, Except.bind, pure,
      Except.pure]
    exact ⟨_, rfl⟩
  obtain ⟨c', hc', hschema, -⟩ := evolveSchema_of_fields hfields he
  obtain rfl : c = c' := Except.ok.inj (hc.symm.trans hc')
  exact ⟨e, c, he, hc, by simp [hschema, storedFields]⟩

/-! ## The frame -/

/-- The stored and added columns that no dropped name names. -/
def survivors (stored : List Json) (request : TableUpdateRequest) : List Json :=
  (stored ++ request.addColumns.map ColumnSchema.toJson).filter
    fun f => decide (∀ name ∈ request.dropColumns, columnName f ≠ some name)

/-- No entry of the rename map has the name of the column as its key. -/
def NotRenamed (request : TableUpdateRequest) (f : Json) : Prop :=
  ∀ rename ∈ request.renameColumns, columnName f ≠ some rename.1

instance (request : TableUpdateRequest) : DecidablePred (NotRenamed request) := fun f =>
  inferInstanceAs (Decidable (∀ rename ∈ request.renameColumns, columnName f ≠ some rename.1))

/-- There is one way to compare optional names. -/
theorem beq_optionString : (Option.instBEq : BEq (Option String)) = instBEqOfDecidableEq :=
  lawful_beq_subsingleton _ _

/-- The renames replace the names one entry at a time. -/
theorem renamedNames_eq_replaceEach (renames : List (String × String))
    (names : List (Option String)) :
    renamedNames renames names = Text.replaceEach (renames.map (Prod.map some some)) names := by
  rw [renamedNames, Text.replaceEach, List.foldl_map, beq_optionString]
  rfl

/-- A rename leaves the other entries of the `dict`. -/
theorem Renamed.getItem_eq {f g : Json} (h : Renamed f g) {key : String} (hkey : key ≠ "name") :
    g.getItem key = f.getItem key := by
  rcases h with rfl | ⟨entries, old, new, rfl, -, rfl⟩
  · rfl
  · rw [Json.getItem, Json.getItem, Dict.get?_set_of_ne hkey]

/-- The rename loop, column by column. -/
theorem forall₂_foldlM_renameField {request : TableUpdateRequest} {c c' : Columns}
    (h : request.renameColumns.foldlM renameField c = .ok c') :
    List.Forall₂ (fun f g => Renamed f g ∧ (NotRenamed request f → g = f)) c.1 c'.1 := by
  obtain ⟨hrel, hnames⟩ := foldlM_renameField h
  rw [renamedNames_eq_replaceEach] at hnames
  refine List.forall₂_iff_get.mpr ⟨hrel.length_eq, fun i hi hi' => ?_⟩
  have hrenamed := hrel.get hi hi'
  refine ⟨hrenamed, fun hnot => hrenamed.eq_of_columnName ?_⟩
  have hat : (c.1.map columnName)[i]? = some (columnName (c.1.get ⟨i, hi⟩)) := by
    rw [List.getElem?_map, List.getElem?_eq_getElem hi]
    rfl
  have hkey : columnName (c.1.get ⟨i, hi⟩) ∉
      (request.renameColumns.map (Prod.map some some)).map Prod.fst := by
    intro hmem
    rw [List.map_map] at hmem
    obtain ⟨rename, hrename, heq⟩ := List.mem_map.mp hmem
    exact hnot rename hrename heq.symm
  have hkept := Text.getElem?_replaceEach_of_notMem hat hkey
  rw [← hnames, List.getElem?_map, List.getElem?_eq_getElem hi'] at hkept
  exact Option.some.inj hkept

/-- Columns that stay as they are stay in order. -/
theorem filter_sublist_of_forall₂ {p : Json → Bool} {xs ys : List Json}
    (h : List.Forall₂ (fun f g => p f = true → g = f) xs ys) : (xs.filter p).Sublist ys := by
  induction h with
  | nil => exact .slnil
  | @cons f g xs ys hfg _ ih =>
    rw [List.filter_cons]
    split
    · next hf =>
      rw [hfg hf]
      exact ih.cons_cons f
    · exact ih.cons g

/-- **Schema evolution touches only what it names.** -/
theorem evolveSchema_frame {entries : Dict} {stored : List Json}
    (hfields : Dict.get? entries "fields" = some (.arr stored)) (hstored : ∀ f ∈ stored, Named f)
    (request : TableUpdateRequest) :
    ∃ e, ∃ columns : List Json, evolveSchema (.obj entries) request = .ok e ∧
      storedFields (e.schema.read e.heap) = some columns ∧
      columns.length = (survivors stored request).length ∧
      (∀ (i : ℕ) (f g : Json), (survivors stored request)[i]? = some f →
        columns[i]? = some g →
          (∀ key ≠ "name", g.getItem key = f.getItem key) ∧ (NotRenamed request f → g = f)) ∧
      ((survivors stored request).filter (NotRenamed request ·)).Sublist columns ∧
      ∀ g ∈ columns, ∀ dropped ∈ request.dropColumns, columnName g = some dropped →
        dropped ∈ request.renameColumns.map Prod.snd := by
  obtain ⟨e, c, he, hc, hcolumns⟩ := evolveSchema_of_named hfields hstored request
  obtain ⟨d, hdrop, hrename⟩ := evolveFields_eq_ok hc
  have hd : d.1 = survivors stored request := foldlM_dropField hdrop
  have hframe := forall₂_foldlM_renameField hrename
  have hnames := (foldlM_renameField hrename).2
  rw [renamedNames_eq_replaceEach] at hnames
  rw [hd] at hframe hnames
  refine ⟨e, c.1, he, hcolumns, hframe.length_eq.symm, ?_, ?_, ?_⟩
  · intro i f g hf hg
    obtain ⟨hi, rfl⟩ := List.getElem?_eq_some_iff.mp hf
    obtain ⟨hi', rfl⟩ := List.getElem?_eq_some_iff.mp hg
    obtain ⟨hrenamed, hkept⟩ := hframe.get hi hi'
    exact ⟨fun key hkey => hrenamed.getItem_eq hkey, hkept⟩
  · exact filter_sublist_of_forall₂ (hframe.imp fun f g h hf => h.2 (of_decide_eq_true hf))
  · intro g hg dropped hdropped hname
    have hmem : some dropped ∈ c.1.map columnName := hname ▸ List.mem_map_of_mem hg
    rw [hnames] at hmem
    rcases Text.mem_of_mem_replaceEach hmem with hmem | hmem
    · -- a survivor has no dropped name
      obtain ⟨f, hf, heq⟩ := List.mem_map.mp hmem
      exact absurd heq (of_decide_eq_true (List.mem_filter.mp hf).2 dropped hdropped)
    · rw [List.map_map] at hmem
      obtain ⟨rename, hrename, heq⟩ := List.mem_map.mp hmem
      exact List.mem_map.mpr ⟨rename, hrename, Option.some.inj heq⟩

/-- Columns of a table that has two columns of one name. -/
def repeatedColumns : List Json :=
  [ColumnSchema.toJson { name := "sku", type := "long" },
   ColumnSchema.toJson { name := "sku", type := "string" },
   ColumnSchema.toJson { name := "memo", type := "string", nullable := false }]

/-- A request that adds, drops and renames. -/
def mixedRequest : TableUpdateRequest where
  addColumns := [{ name := "price", type := "double" }]
  dropColumns := ["memo"]
  renameColumns := [("sku", "price"), ("price", "memo")]

/-- `evolveSchema_frame` at a request whose renames meet names that it adds and drops. -/
theorem evolveSchema_frame_mixed :
    ∃ e, ∃ columns : List Json,
      evolveSchema (.obj [("fields", .arr repeatedColumns)]) mixedRequest = .ok e ∧
      storedFields (e.schema.read e.heap) = some columns ∧
      columns.length = (survivors repeatedColumns mixedRequest).length ∧
      (∀ (i : ℕ) (f g : Json), (survivors repeatedColumns mixedRequest)[i]? = some f →
        columns[i]? = some g → (∀ key ≠ "name", g.getItem key = f.getItem key) ∧
          (NotRenamed mixedRequest f → g = f)) ∧
      ((survivors repeatedColumns mixedRequest).filter (NotRenamed mixedRequest ·)).Sublist
        columns ∧
      ∀ g ∈ columns, ∀ dropped ∈ mixedRequest.dropColumns, columnName g = some dropped →
        dropped ∈ mixedRequest.renameColumns.map Prod.snd := by
  refine evolveSchema_frame (by simp) ?_ mixedRequest
  simp [repeatedColumns, Named, ColumnSchema.toJson, columnName]

end DataHarbour.Metadata
