import DataHarbour.Metadata.SchemaEvolution

/-!
# What the loops do to the columns

Facts about `evolveFields` in terms of column names: dropping is filtering by name, and a
rename replaces the first occurrence of a name and changes nothing else.
-/

namespace DataHarbour.Metadata

open Python

/-- The text under `"name"`, if the column has one. -/
def columnName : Json → Option String
  | .obj entries =>
    match Dict.get? entries "name" with
    | some (.str name) => some name
    | _ => none
  | _ => none

/-- A name comparison that returns has looked at the `"name"` entry of a `dict`. -/
theorem nameEquals_eq_ok {name : String} {f : Json} {b : Bool}
    (h : nameEquals name f = .ok b) :
    ∃ entries v, f = .obj entries ∧ Dict.get? entries "name" = some v ∧
      b = v.pyEq (.str name) := by
  cases f with
  | obj entries =>
    cases hname : Dict.get? entries "name" with
    | none => simp [nameEquals, Json.getItem, hname, bind, Except.bind] at h
    | some v =>
      have hb : v.pyEq (.str name) = b := by
        simpa [nameEquals, Json.getItem, hname, bind, Except.bind, pure, Except.pure] using h
      exact ⟨entries, v, rfl, hname, hb.symm⟩
  | null | bool | int | float | infinity | str | arr =>
    simp [nameEquals, Json.getItem, bind, Except.bind] at h

/-- Only a string equals a string. -/
theorem pyEq_str_iff {v : Json} {s : String} : v.pyEq (.str s) = true ↔ v = .str s := by
  cases v <;> simp [Json.pyEq, Json.number?]

private theorem nameEquals_iff {name : String} {f : Json} {b : Bool}
    (h : nameEquals name f = .ok b) :
    b = true ↔ columnName f = some name := by
  obtain ⟨entries, v, rfl, hname, rfl⟩ := nameEquals_eq_ok h
  rw [pyEq_str_iff, columnName, hname]
  cases v <;> simp

private theorem nameDiffers_eq_ok {name : String} {f : Json} {b : Bool}
    (h : nameDiffers name f = .ok b) : b = decide (columnName f ≠ some name) := by
  cases hname : nameEquals name f with
  | error e => simp [nameDiffers, hname, bind, Except.bind] at h
  | ok b' =>
    have hb : (!b') = b := by
      simpa [nameDiffers, hname, bind, Except.bind, pure, Except.pure] using h
    have hiff := nameEquals_iff hname
    rw [← hb]
    cases b' <;> simp_all

/-! ### Dropping -/

/-- The drop loop keeps the columns that none of the names names. -/
theorem foldlM_dropField {names : List String} {c c' : Columns}
    (h : names.foldlM dropField c = .ok c') :
    c'.1 = c.1.filter fun f => decide (∀ name ∈ names, columnName f ≠ some name) := by
  induction names generalizing c with
  | nil =>
    have hc : c = c' := by simpa [pure, Except.pure] using h
    simp [hc]
  | cons name names ih =>
    rw [List.foldlM_cons, dropField] at h
    cases hkept : filterE (nameDiffers name) c.1 with
    | error e => simp [hkept, bind, Except.bind] at h
    | ok kept =>
      have hrest := ih (by simpa [hkept, bind, Except.bind, pure, Except.pure] using h)
      rw [hrest, filterE_eq_ok (fun f b => nameDiffers_eq_ok) hkept, List.filter_filter]
      apply List.filter_congr
      intro f _
      simp only [List.forall_mem_cons, Bool.decide_and, Bool.and_comm]

/-- The drop loop keeps every column exactly when no column has a dropped name. -/
theorem length_foldlM_dropField {names : List String} {c c' : Columns}
    (h : names.foldlM dropField c = .ok c') :
    c'.1.length = c.1.length ↔ ∀ f ∈ c.1, ∀ name ∈ names, columnName f ≠ some name := by
  rw [foldlM_dropField h, List.length_filter_eq_length_iff]
  simp only [decide_eq_true_eq]

/-! ### Renaming -/

/-- The columns differ at most in their names. -/
def Renamed (f g : Json) : Prop :=
  f = g ∨ ∃ entries old new, f = .obj entries ∧ Dict.get? entries "name" = some (.str old) ∧
    g = .obj (Dict.set entries "name" (.str new))

/-- Two renames of a column make one. -/
theorem Renamed.trans {f g h : Json} (hfg : Renamed f g) (hgh : Renamed g h) : Renamed f h := by
  rcases hfg with rfl | ⟨entries, old, new, rfl, hold, rfl⟩
  · exact hgh
  · rcases hgh with rfl | ⟨entries', old', new', hentries, -, rfl⟩
    · exact .inr ⟨entries, old, new, rfl, hold, rfl⟩
    · have heq : Dict.set entries "name" (.str new) = entries' := Json.obj.inj hentries
      exact .inr ⟨entries, old, new', rfl, hold, by rw [← heq, Dict.set_set]⟩

/-- A renamed column that has its old name is the old column. -/
theorem Renamed.eq_of_columnName {f g : Json} (h : Renamed f g)
    (hname : columnName g = columnName f) : g = f := by
  rcases h with rfl | ⟨entries, old, new, rfl, hold, rfl⟩
  · rfl
  · have hnames : new = old := by
      simpa [columnName, hold] using hname
    rw [hnames, Dict.set_get? hold]

/-- Columns renamed to their own names are unchanged. -/
theorem eq_of_renamed {xs ys : List Json} (h : List.Forall₂ Renamed xs ys)
    (hnames : ys.map columnName = xs.map columnName) : ys = xs := by
  induction h with
  | nil => rfl
  | cons hfg _ ih =>
    rw [List.map_cons, List.map_cons, List.cons.injEq] at hnames
    rw [hfg.eq_of_columnName hnames.1, ih hnames.2]

private theorem forall₂_renamed_refl (xs : List Json) : List.Forall₂ Renamed xs xs :=
  List.forall₂_same.mpr fun _ _ => .inl rfl

private theorem forall₂_renamed_trans {xs ys zs : List Json} (h : List.Forall₂ Renamed xs ys)
    (h' : List.Forall₂ Renamed ys zs) : List.Forall₂ Renamed xs zs := by
  induction h generalizing zs with
  | nil => exact h'
  | cons hfg _ ih =>
    cases h' with
    | cons hgh hrest => exact .cons (hfg.trans hgh) (ih hrest)

/-- One rename replaces the first occurrence of the old name. -/
theorem renameFirst_eq_ok {rename : String × String} {xs : List Json} {found : Option (List Json)}
    (h : renameFirst rename xs = .ok found) :
    List.Forall₂ Renamed xs (found.getD xs) ∧
      (found.getD xs).map columnName =
        (xs.map columnName).replace (some rename.1) (some rename.2) := by
  induction xs generalizing found with
  | nil =>
    have hfound : none = found := by simpa [renameFirst] using h
    simp [← hfound]
  | cons f rest ih =>
    rw [renameFirst] at h
    cases hname : nameEquals rename.1 f with
    | error e => simp [hname, bind, Except.bind] at h
    | ok b =>
      have hiff := nameEquals_iff hname
      cases b with
      | true =>
        obtain ⟨entries, v, rfl, hentry, hv⟩ := nameEquals_eq_ok hname
        have hold : v = .str rename.1 := pyEq_str_iff.mp hv.symm
        have hfound : some (.obj (Dict.set entries "name" (.str rename.2)) :: rest) = found := by
          simpa [hname, Json.setItem, bind, Except.bind, pure, Except.pure] using h
        rw [← hfound, Option.getD_some]
        constructor
        · exact .cons (.inr ⟨entries, rename.1, rename.2, rfl, hold ▸ hentry, rfl⟩)
            (forall₂_renamed_refl rest)
        · rw [List.map_cons, List.map_cons, hiff.mp rfl, List.replace_cons_self]
          simp [columnName]
      | false =>
        have hne : columnName f ≠ some rename.1 := by
          intro heq
          exact Bool.noConfusion (hiff.mpr heq)
        cases hrest : renameFirst rename rest with
        | error e => simp [hname, hrest, bind, Except.bind] at h
        | ok found' =>
          have hfound : found'.map (f :: ·) = found := by
            simpa [hname, hrest, bind, Except.bind, pure, Except.pure] using h
          obtain ⟨hrel, hnames⟩ := ih hrest
          have hgetD : found.getD (f :: rest) = f :: found'.getD rest := by
            rw [← hfound]
            cases found' <;> rfl
          rw [hgetD]
          constructor
          · exact .cons (.inl rfl) hrel
          · have hbeq : (some rename.1 == columnName f) = false := by
              simpa using fun heq => hne heq.symm
            rw [List.map_cons, List.map_cons, hnames, List.replace_cons, hbeq]

/-- The names after a list of renames, each of which replaces a first occurrence. -/
def renamedNames (renames : List (String × String)) (names : List (Option String)) :
    List (Option String) :=
  renames.foldl (fun names rename => names.replace (some rename.1) (some rename.2)) names

/-- The rename loop changes names only, and it changes them one after the other. -/
theorem foldlM_renameField {renames : List (String × String)} {c c' : Columns}
    (h : renames.foldlM renameField c = .ok c') :
    List.Forall₂ Renamed c.1 c'.1 ∧
      c'.1.map columnName = renamedNames renames (c.1.map columnName) := by
  induction renames generalizing c with
  | nil =>
    have hc : c = c' := by simpa [pure, Except.pure] using h
    exact hc ▸ ⟨forall₂_renamed_refl c.1, rfl⟩
  | cons rename renames ih =>
    rw [List.foldlM_cons, renameField] at h
    cases hfound : renameFirst rename c.1 with
    | error e => simp [hfound, bind, Except.bind] at h
    | ok found =>
      obtain ⟨hrel, hnames⟩ := renameFirst_eq_ok hfound
      cases found with
      | none =>
        obtain ⟨hrest, hend⟩ :=
          ih (by simpa [hfound, bind, Except.bind, pure, Except.pure] using h)
        exact ⟨forall₂_renamed_trans hrel hrest, by rw [hend, renamedNames, renamedNames,
          List.foldl_cons, ← hnames, Option.getD_none]⟩
      | some fields =>
        obtain ⟨hrest, hend⟩ :=
          ih (by simpa [hfound, bind, Except.bind, pure, Except.pure] using h)
        exact ⟨forall₂_renamed_trans hrel hrest, by rw [hend, renamedNames, renamedNames,
          List.foldl_cons, ← hnames, Option.getD_some]⟩

end DataHarbour.Metadata
