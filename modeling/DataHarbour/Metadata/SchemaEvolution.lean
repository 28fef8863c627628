import DataHarbour.Metadata.Model
import DataHarbour.Python.Loops
import DataHarbour.Python.Objects

/-!
# Schema evolution

`update_table` copies the loaded `schema_json` shallowly and then appends to, rebuilds and
renames inside the list under `"fields"`. `evolveSchema` runs its three loops on the objects
themselves, so that the loaded schema sees every change made through a shared reference.
`evolveFields` is what the loops compute by value; `evolveFields_agree` connects the two.
-/

namespace DataHarbour.Metadata

open Python

/-- `f["name"] == name`. -/
def nameEquals (name : String) (f : Json) : Except Exc Bool := do
  let stored ← f.getItem "name"
  return stored.pyEq (.str name)

/-- `f["name"] != name`. -/
def nameDiffers (name : String) (f : Json) : Except Exc Bool := do
  return !(← nameEquals name f)

/-- What the history says of an added column. -/
def addedText (col : ColumnSchema) : String := s!"Added column: {col.name} ({col.type})"

/-- What it says of a dropped one. -/
def droppedText (name : String) : String := s!"Dropped column: {name}"

/-- What it says of a renamed one. -/
def renamedText (rename : String × String) : String :=
  s!"Renamed column: {rename.1} -> {rename.2}"

/-- What the variable `fields` is bound to. -/
inductive Fields where
  /-- A list object. -/
  | list (ref : ℕ)
  /-- Any other object; nothing changes it. -/
  | value (v : Json)

/-- The variables of the three loops, with the objects they refer to. -/
structure Evolving where
  heap : Heap Json
  fields : Fields
  changes : List String

instance : Inhabited Json := ⟨.null⟩

/-- `fields` read back by value. -/
def Fields.read (h : Heap Json) : Fields → Json
  | .list r => .arr (h.elems r)
  | .value v => v

/-- One round of the loop over `add_columns`. -/
def addColumn (e : Evolving) (col : ColumnSchema) : Except Exc Evolving :=
  match e.fields with
  | .list r => .ok
      { e with
        heap := e.heap.append r col.toJson
        changes := e.changes ++ [addedText col] }
  | .value v => .error (v.noAttribute "append")

/-- The comprehension `[f for f in fields if f["name"] != name]`: a new list of the elements
that stay. -/
def keepColumns (h : Heap Json) (name : String) : Fields → Except Exc (Heap Json)
  | .list r => do
    let kept ← filterE (fun i => nameDiffers name (h.get i)) (h.refs r)
    return h.share kept
  | .value v => do
    let kept ← filterE (nameDiffers name) (← v.iterate)
    return h.alloc kept

/-- One round of the loop over `drop_columns`: `fields` is bound to the new list. -/
def dropColumn (e : Evolving) (name : String) : Except Exc Evolving := do
  let heap ← keepColumns e.heap name e.fields
  return {
    heap := heap
    fields := .list e.heap.lists.length
    changes := e.changes ++ [droppedText name] }

/-- One round of the loop over `rename_columns`: the first column with the old name changes
in place. -/
def renameColumn (e : Evolving) (rename : String × String) : Except Exc Evolving := do
  match e.fields with
  | .list r =>
    match ← findE (fun i => nameEquals rename.1 (e.heap.get i)) (e.heap.refs r) with
    | none => return e
    | some i => return {
        e with
        heap := e.heap.write i (← (e.heap.get i).setItem "name" (.str rename.2))
        changes := e.changes ++ [renamedText rename] }
  | .value v =>
    match ← findE (nameEquals rename.1) (← v.iterate) with
    | none => return e
    | some f => do
      let _ ← f.setItem "name" (.str rename.2)
      return e

/-- A schema `dict`: the entries it was loaded with, and the object that its `"fields"` entry
refers to, if it has one. The other entries are never touched, and a shallow copy holds the
very same objects. -/
structure SchemaObject where
  entries : Dict
  fields : Option Fields

/-- The `dict` read back by value. -/
def SchemaObject.read (h : Heap Json) (o : SchemaObject) : Json :=
  match o.fields with
  | none => .obj o.entries
  | some f => .obj (o.entries.set "fields" (f.read h))

/-- `table_record.schema_json` as the session loaded it: a list under `"fields"` becomes the
list object 0. -/
def loadSchema (entries : Dict) : Heap Json × SchemaObject :=
  match entries.get? "fields" with
  | none => (Heap.empty, ⟨entries, none⟩)
  | some (.arr xs) => (Heap.empty.alloc xs, ⟨entries, some (.list 0)⟩)
  | some v => (Heap.empty, ⟨entries, some (.value v)⟩)

/-- `schema.get("fields", [])`: a missing entry yields a new empty list. -/
def fieldsOf (h : Heap Json) (o : SchemaObject) : Heap Json × Fields :=
  match o.fields with
  | some f => (h, f)
  | none => (h.alloc [], .list h.lists.length)

/-- The session's objects when the loops are done. -/
structure Evolved where
  heap : Heap Json
  /-- The object that was loaded, which the session compares with. -/
  loaded : SchemaObject
  /-- The object assigned to `table_record.schema_json`. -/
  schema : SchemaObject
  changes : List String

/-- The three loops, in their order. -/
def runLoops (request : TableUpdateRequest) (e : Evolving) : Except Exc Evolving := do
  let e ← request.addColumns.foldlM addColumn e
  let e ← request.dropColumns.foldlM dropColumn e
  request.renameColumns.foldlM renameColumn e

/-- `update_table` from `schema_json.copy()` to the assignment of the new schema. -/
def evolveSchema (schemaJson : Json) (request : TableUpdateRequest) : Except Exc Evolved :=
  match schemaJson with
  | .obj entries => do
    let (heap, loaded) := loadSchema entries
    let schema := loaded
    let (heap, fields) := fieldsOf heap schema
    let e ← runLoops request { heap := heap, fields := fields, changes := [] }
    return {
      heap := e.heap
      loaded := loaded
      schema := { schema with fields := some e.fields }
      changes := e.changes }
  -- a list has the method, and fails at the next line
  | .arr elems => .error (Json.arr elems |>.noAttribute "get")
  | v => .error (v.noAttribute "copy")

/-- The schema after an `update_table` request, as if it were always stored; a request that
raises leaves it. -/
def storeEvolved (schemaJson : Json) (request : TableUpdateRequest) : Json :=
  match evolveSchema schemaJson request with
  | .ok e => e.schema.read e.heap
  | .error _ => schemaJson

/-! ### The loops by value -/

/-- The list of columns and the change texts. -/
abbrev Columns := List Json × List String

/-- `addColumn` by value. -/
def addField (c : Columns) (col : ColumnSchema) : Except Exc Columns :=
  .ok (c.1 ++ [col.toJson], c.2 ++ [addedText col])

/-- `dropColumn` by value. -/
def dropField (c : Columns) (name : String) : Except Exc Columns := do
  return (← filterE (nameDiffers name) c.1, c.2 ++ [droppedText name])

/-- The list with the first column of the old name renamed, if there is one. -/
def renameFirst (rename : String × String) : List Json → Except Exc (Option (List Json))
  | [] => .ok none
  | f :: rest => do
    if ← nameEquals rename.1 f then
      return some ((← f.setItem "name" (.str rename.2)) :: rest)
    else
      return (← renameFirst rename rest).map (f :: ·)

/-- `renameColumn` by value. -/
def renameField (c : Columns) (rename : String × String) : Except Exc Columns := do
  match ← renameFirst rename c.1 with
  | none => return c
  | some fields => return (fields, c.2 ++ [renamedText rename])

/-- The three loops by value: the columns that `update_table` computes from the stored
ones, with the change texts. -/
def evolveFields (stored : List Json) (request : TableUpdateRequest) : Except Exc Columns := do
  let c ← request.addColumns.foldlM addField (stored, [])
  let c ← request.dropColumns.foldlM dropField c
  request.renameColumns.foldlM renameField c

end DataHarbour.Metadata
