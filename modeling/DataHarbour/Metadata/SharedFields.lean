import DataHarbour.Metadata.ColumnNames

/-!
# The loops on shared objects compute the columns by value

While `fields` refers to a list object, the three loops on the heap mirror the loops by
value: they raise the same exceptions, and the list reads back as the computed columns. The
relation `Mirrors` also keeps what the loaded schema still shares with it: the columns of
`fields` are, in order, elements of the loaded list, which only the appends lengthen.
-/

namespace DataHarbour.Metadata

open Python

/-- The evolving objects read back as the columns `c`, and `fields` shares its elements with
the list object 0, which has `n` elements. -/
structure Mirrors (n : ℕ) (e : Evolving) (c : Columns) : Prop where
  /-- `fields` refers to a list that reads back as the columns. -/
  fields : ∃ r, e.fields = .list r ∧ e.heap.Shares 0 r ∧ e.heap.elems r = c.1
  changes : e.changes = c.2
  length : (e.heap.refs 0).length = n

/-- While columns are added, `fields` is the loaded list itself. -/
structure AddMirrors (e : Evolving) (c : Columns) : Prop where
  fields : e.fields = .list 0
  shares : e.heap.Shares 0 0
  elems : e.heap.elems 0 = c.1
  changes : e.changes = c.2

/-- Added columns mirror the fields from the first one on. -/
theorem AddMirrors.mirrors {e : Evolving} {c : Columns} (h : AddMirrors e c) :
    Mirrors c.1.length e c where
  fields := ⟨0, h.fields, h.shares, h.elems⟩
  changes := h.changes
  length := by rw [← h.elems, Heap.length_elems]

private theorem addColumn_agree {e : Evolving} {c : Columns} (h : AddMirrors e c)
    (col : ColumnSchema) :
    Agree AddMirrors (addColumn e col) (addField c col) := by
  simp only [addColumn, h.fields, addField]
  apply Agree.ok
  constructor
  · rfl
  · exact h.shares.append col.toJson
  · rw [Heap.elems_append_self h.shares, h.elems]
  · rw [h.changes]

/-- A comprehension over references keeps what the one over their elements keeps. -/
theorem filterE_refs (h : Heap Json) (r : ℕ) (p : Json → Except Exc Bool) :
    filterE p (h.elems r) =
      (filterE (fun i => p (h.get i)) (h.refs r)).map (List.map h.get) :=
  filterE_map h.get (h.refs r)

private theorem dropColumn_agree {n : ℕ} {e : Evolving} {c : Columns} (h : Mirrors n e c)
    (name : String) : Agree (Mirrors n) (dropColumn e name) (dropField c name) := by
  obtain ⟨r, hfields, hshares, helems⟩ := h.fields
  have hfilter := filterE_refs e.heap r (nameDiffers name)
  rw [helems] at hfilter
  rw [dropColumn, hfields, dropField, hfilter, keepColumns]
  cases hkept : filterE (fun i => nameDiffers name (e.heap.get i)) (e.heap.refs r) with
  | error err => exact .error err
  | ok kept =>
    have hsub := filterE_sublist hkept
    have helems' : (e.heap.share kept).elems e.heap.lists.length = kept.map e.heap.get := by
      rw [Heap.elems, Heap.refs_share_new]
      rfl
    have hrefs := Heap.refs_share_of_lt hshares.base_lt kept
    apply Agree.ok
    constructor
    · exact ⟨e.heap.lists.length, rfl, hshares.share hsub, helems'⟩
    · simp only [h.changes]
    · simp only [hrefs, h.length]

/-- The search through the references finds the element that the loop by value renames. -/
theorem findE_agree (h : Heap Json) (rename : String × String) {is : List ℕ}
    (hnodup : is.Nodup) (hvalid : ∀ i ∈ is, i < h.cells.length) :
    Agree
      (fun found fields => match found with
        | none => fields = none
        | some i => ∃ f, (h.get i).setItem "name" (.str rename.2) = .ok f ∧
            fields = some (is.map (h.write i f).get) ∧ i ∈ is)
      (findE (fun i => nameEquals rename.1 (h.get i)) is)
      (renameFirst rename (is.map h.get)) := by
  induction is with
  | nil => exact .ok rfl
  | cons i is ih =>
    obtain ⟨hi, hrest⟩ := List.nodup_cons.mp hnodup
    rw [findE, List.map_cons, renameFirst]
    cases hname : nameEquals rename.1 (h.get i) with
    | error err => exact .error err
    | ok b =>
      cases b with
      | true =>
        obtain ⟨entries, v, hget, -, -⟩ := nameEquals_eq_ok hname
        have hset : (h.get i).setItem "name" (.str rename.2) =
            .ok (.obj (Dict.set entries "name" (.str rename.2))) := by
          rw [hget]
          rfl
        simp only [bind, Except.bind, hset, if_true, pure, Except.pure]
        refine .ok ⟨_, hset, ?_, List.mem_cons_self⟩
        have hothers : ∀ f, is.map (h.write i f).get = is.map h.get := by
          intro f
          apply List.map_congr_left
          intro j hj
          have hji : j ≠ i := fun heq => hi (heq ▸ hj)
          exact Heap.get_write_of_ne hji f
        rw [List.map_cons, hothers, Heap.get_write_self (hvalid i List.mem_cons_self)]
      | false =>
        have hih := ih hrest fun j hj => hvalid j (List.mem_cons_of_mem i hj)
        simp only [bind, Except.bind, Bool.false_eq_true, if_false]
        generalize findE (fun i => nameEquals rename.1 (h.get i)) is = x at hih
        generalize renameFirst rename (is.map h.get) = y at hih
        cases hih with
        | error err => exact .error err
        | @ok found fields hfound =>
          apply Agree.ok
          cases found with
          | none => simp only [hfound, Option.map_none]
          | some j =>
            obtain ⟨f, hset, hfields, hj⟩ := hfound
            have hij : i ≠ j := fun heq => hi (heq ▸ hj)
            refine ⟨f, hset, ?_, List.mem_cons_of_mem i hj⟩
            rw [hfields, Option.map_some, List.map_cons, Heap.get_write_of_ne hij]

private theorem renameColumn_agree {n : ℕ} {e : Evolving} {c : Columns} (h : Mirrors n e c)
    (rename : String × String) :
    Agree (Mirrors n) (renameColumn e rename) (renameField c rename) := by
  obtain ⟨r, hfields, hshares, helems⟩ := h.fields
  have hnodup := hshares.sublist.nodup hshares.nodup
  have hvalid := fun i hi => hshares.valid i (hshares.sublist.subset hi)
  have hfind := findE_agree e.heap rename hnodup hvalid
  rw [← Heap.elems, helems] at hfind
  simp only [renameColumn, hfields, renameField, bind, Except.bind]
  generalize findE (fun i => nameEquals rename.1 (e.heap.get i)) (e.heap.refs r) = x at hfind
  generalize renameFirst rename c.1 = y at hfind
  cases hfind with
  | error err => exact .error err
  | @ok found fields hfound =>
    cases found with
    | none =>
      rw [hfound]
      exact .ok h
    | some i =>
      obtain ⟨f, hset, hrenamed, -⟩ := hfound
      simp only [hset, hrenamed]
      apply Agree.ok
      constructor
      · exact ⟨r, rfl, hshares.write i f, rfl⟩
      · simp only [h.changes]
      · exact h.length

/-- The loop over `add_columns`, by value, in closed form. -/
theorem foldlM_addField (cols : List ColumnSchema) (c : Columns) :
    cols.foldlM addField c =
      .ok (c.1 ++ cols.map ColumnSchema.toJson, c.2 ++ cols.map addedText) := by
  induction cols generalizing c with
  | nil => simp [pure, Except.pure]
  | cons col cols ih =>
    rw [List.foldlM_cons, addField]
    simp only [bind, Except.bind, ih, List.append_assoc, List.map_cons, List.singleton_append]

/-- **The loops on the loaded objects compute the columns by value.** When they return, the
loaded list has as many elements as there are stored and added columns. -/
theorem evolveFields_agree (stored : List Json) (request : TableUpdateRequest) :
    Agree (Mirrors (stored.length + request.addColumns.length))
      (runLoops request ⟨Heap.empty.alloc stored, .list 0, []⟩)
      (evolveFields stored request) := by
  have hstart : AddMirrors ⟨Heap.empty.alloc stored, .list 0, []⟩ (stored, []) :=
    ⟨rfl, Heap.shares_alloc_empty stored, Heap.elems_alloc_empty stored, rfl⟩
  have hadd := Agree.foldlM (fun e c col h => addColumn_agree h col) request.addColumns hstart
  rw [runLoops, evolveFields]
  rw [foldlM_addField] at hadd ⊢
  cases hadded : request.addColumns.foldlM addColumn ⟨Heap.empty.alloc stored, .list 0, []⟩ with
  | error err =>
    rw [hadded] at hadd
    cases hadd
  | ok e =>
    rw [hadded] at hadd
    obtain ⟨c, hc, hmirrors⟩ := hadd.of_ok
    have hlen : c.1.length = stored.length + request.addColumns.length := by
      cases hc
      simp
    cases hc
    have hdrop := Agree.foldlM (fun e c name h => dropColumn_agree h name) request.dropColumns
      (hlen ▸ hmirrors.mirrors)
    exact hdrop.bind fun e' c' h' =>
      Agree.foldlM (fun e c rename h => renameColumn_agree h rename) request.renameColumns h'

end DataHarbour.Metadata
