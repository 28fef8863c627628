import Mathlib.Logic.Function.Basic
import DataHarbour.Machine.Runs
import DataHarbour.Metadata.History
import DataHarbour.Metadata.Persistence

/-!
# Concurrent updates of one table

Transactions of `update_table` on one table under READ COMMITTED. The row is read without a
lock. The query for the latest version flushes the session first, so the `UPDATE` takes the row
lock before it, and versions are drawn one transaction at a time. The schema that the `UPDATE`
writes is older: it was computed from the row as it was read. In this file every assignment of
`schema_json` is written.
-/

namespace DataHarbour.Metadata

open Python Relational Machine

/-- The row that a session has read, and what the loops have made of its schema. -/
structure PendingUpdate where
  row : CatalogTable
  schema : Json
  changes : List String

/-- How far a transaction has come. -/
inductive UpdatePhase where
  | idle
  /-- The row is read and the new schema computed. -/
  | evolved (u : PendingUpdate)
  /-- The `UPDATE` is executed; it holds the row lock until the end of the transaction. -/
  | written (u : PendingUpdate)
  /-- The latest version is read and the history row inserted. -/
  | recorded (u : PendingUpdate) (history : List SchemaHistory)
  | committed
  /-- A loop has raised. -/
  | rolledBack

/-- What the session of a transaction holds. -/
def UpdatePhase.pending? : UpdatePhase → Option PendingUpdate
  | .evolved u => some u
  | .written u => some u
  | .recorded u _ => some u
  | _ => none

/-- The transaction holds the row lock. -/
def UpdatePhase.Locks : UpdatePhase → Prop
  | .written _ => True
  | .recorded _ _ => True
  | _ => False

/-- The committed catalog, the transactions, and the order in which they have committed. -/
structure ConcurrentUpdates (τ : Type*) where
  catalog : Catalog
  lock : Option τ := none
  phase : τ → UpdatePhase := fun _ => .idle
  committed : List τ := []

/-- A step of one transaction. -/
inductive UpdateAction (τ : Type*) where
  /-- The `SELECT` of the row, and the loops. -/
  | read (t : τ)
  /-- The `UPDATE`; it waits while another transaction holds the row lock. -/
  | write (t : τ)
  /-- The `SELECT` of the latest version and the `INSERT` of the history row, if there are
  changes. -/
  | record (t : τ) (now : Time)
  | commit (t : τ) (now : Time)

/-- What the `UPDATE` leaves of the version of the row that it finds. `schema_json` is written,
`properties` and `description` only if the session has given them a new value. -/
def overwrite (now : Time) (current loaded record : CatalogTable) : CatalogTable :=
  { current with
    schemaJson := record.schemaJson
    properties := if (Json.obj record.properties).pyEq (.obj loaded.properties)
      then current.properties else record.properties
    description := if record.description = loaded.description
      then current.description else record.description
    updatedAt := now }

/-- The catalog after the commit of an update with its history rows. -/
def Catalog.commitUpdate (c : Catalog) (dbName tableName : String) (now : Time)
    (request : TableUpdateRequest) (u : PendingUpdate) (history : List SchemaHistory) : Catalog :=
  match c.findTable dbName tableName with
  | some current =>
    { c with
      tables := c.tables.set (overwrite now current u.row (updatedRecord u.row request u.schema))
      history := c.history ++ history }
  | none => c

variable {τ : Type*} [DecidableEq τ]

/-- A transaction moves on. -/
def ConcurrentUpdates.enter (s : ConcurrentUpdates τ) (t : τ) (phase : UpdatePhase) :
    ConcurrentUpdates τ :=
  { s with phase := Function.update s.phase t phase }

/-- The state after a step; a step that is not the transaction's next one changes nothing. -/
def updateStep (dbName tableName : String) (requests : τ → TableUpdateRequest)
    (s : ConcurrentUpdates τ) : UpdateAction τ → ConcurrentUpdates τ
  | .read t =>
    match s.phase t, s.catalog.findTable dbName tableName with
    | .idle, some row =>
      match evolveSchema row.schemaJson (requests t) with
      | .ok e => s.enter t (.evolved ⟨row, e.schema.read e.heap, e.changes⟩)
      | .error _ => s.enter t .rolledBack
    | _, _ => s
  | .write t =>
    match s.phase t, s.lock with
    | .evolved u, none => { s with lock := some t }.enter t (.written u)
    | _, _ => s
  | .record t now =>
    match s.phase t with
    | .written u => s.enter t
        (.recorded u (historyRow now s.catalog u.row (requests t) u.schema u.changes))
    | _ => s
  | .commit t now =>
    match s.phase t with
    | .recorded u history =>
      { s with
        catalog := s.catalog.commitUpdate dbName tableName now (requests t) u history
        lock := none
        committed := s.committed ++ [t] }.enter t .committed
    | _ => s

/-- The committed state is that of the requests one after another: the versions count up from 1
in the order of the commits, and the schema is the result of all requests in this order. -/
structure Serialised (dbName tableName : String) (requests : τ → TableUpdateRequest)
    (start : CatalogTable) (s : ConcurrentUpdates τ) : Prop where
  versions : s.catalog.Numbered start.tableId
  schema : (s.catalog.findTable dbName tableName).map CatalogTable.schemaJson =
    some ((s.committed.map requests).foldl storeEvolved start.schemaJson)

/-- A transaction that commits has read the schema that it overwrites. -/
def OverwritesWhatItRead (dbName tableName : String) (s : ConcurrentUpdates τ) :
    UpdateAction τ → Prop
  | .commit t _ => ∀ u history current, s.phase t = .recorded u history →
    s.catalog.findTable dbName tableName = some current →
      u.row.schemaJson = current.schemaJson
  | _ => True

/-- The request of a transaction that commits makes the same schema of the one that was read and
of the one that is overwritten. -/
def OverwritesAlike (dbName tableName : String) (requests : τ → TableUpdateRequest)
    (s : ConcurrentUpdates τ) : UpdateAction τ → Prop
  | .commit t _ => ∀ u history current, s.phase t = .recorded u history →
    s.catalog.findTable dbName tableName = some current →
      storeEvolved u.row.schemaJson (requests t) = storeEvolved current.schemaJson (requests t)
  | _ => True

/-! ## Steps -/

section Steps

variable {dbName tableName : String} {requests : τ → TableUpdateRequest}
  {s s' : ConcurrentUpdates τ}

/-- What a step can do. -/
inductive Updates (dbName tableName : String) (requests : τ → TableUpdateRequest)
    (s : ConcurrentUpdates τ) : UpdateAction τ → ConcurrentUpdates τ → Prop
  | idle (a : UpdateAction τ) (h : ∀ t now, a = .commit t now → ∀ u history,
      s.phase t ≠ .recorded u history) : Updates dbName tableName requests s a s
  | read {t : τ} {row : CatalogTable} {e : Evolved} (hphase : s.phase t = .idle)
    (hrow : s.catalog.findTable dbName tableName = some row)
    (he : evolveSchema row.schemaJson (requests t) = .ok e) :
    Updates dbName tableName requests s (.read t)
      (s.enter t (.evolved ⟨row, e.schema.read e.heap, e.changes⟩))
  | raise {t : τ} (hphase : s.phase t = .idle) :
    Updates dbName tableName requests s (.read t) (s.enter t .rolledBack)
  | write {t : τ} {u : PendingUpdate} (hphase : s.phase t = .evolved u) (hlock : s.lock = none) :
    Updates dbName tableName requests s (.write t) ({ s with lock := some t }.enter t (.written u))
  | record {t : τ} {u : PendingUpdate} (now : Time) (hphase : s.phase t = .written u) :
    Updates dbName tableName requests s (.record t now) (s.enter t
      (.recorded u (historyRow now s.catalog u.row (requests t) u.schema u.changes)))
  | commit {t : τ} {u : PendingUpdate} {history : List SchemaHistory} (now : Time)
    (hphase : s.phase t = .recorded u history) :
    Updates dbName tableName requests s (.commit t now)
      ({ s with
        catalog := s.catalog.commitUpdate dbName tableName now (requests t) u history
        lock := none
        committed := s.committed ++ [t] }.enter t .committed)

private theorem updates_updateStep (dbName tableName : String) (requests : τ → TableUpdateRequest)
    (s : ConcurrentUpdates τ) (a : UpdateAction τ) :
    Updates dbName tableName requests s a (updateStep dbName tableName requests s a) := by
  cases a with
  | read t =>
    simp only [updateStep]
    split
    · next row hphase hrow =>
      split
      · next e he => exact .read hphase hrow he
      · exact .raise hphase
    · exact .idle _ (by simp)
  | write t =>
    simp only [updateStep]
    split
    · next u hphase hlock => exact .write hphase hlock
    · exact .idle _ (by simp)
  | record t now =>
    simp only [updateStep]
    split
    · next u hphase => exact .record now hphase
    · exact .idle _ (by simp)
  | commit t now =>
    simp only [updateStep]
    split
    · next u history hphase => exact .commit now hphase
    · next hnone =>
      refine .idle _ fun t' now' heq u history hphase => ?_
      cases heq
      exact hnone u history hphase

omit [DecidableEq τ] in
private theorem findTable_commitUpdate {c : Catalog} {current : CatalogTable}
    (h : c.findTable dbName tableName = some current) (now : Time) (request : TableUpdateRequest)
    (u : PendingUpdate) (history : List SchemaHistory) :
    (c.commitUpdate dbName tableName now request u history).findTable dbName tableName =
      some (overwrite now current u.row (updatedRecord u.row request u.schema)) := by
  rw [Catalog.commitUpdate, h]
  exact findTable_set h rfl

omit [DecidableEq τ] in
private theorem history_commitUpdate {c : Catalog} {current : CatalogTable}
    (h : c.findTable dbName tableName = some current) (now : Time) (request : TableUpdateRequest)
    (u : PendingUpdate) (history : List SchemaHistory) :
    (c.commitUpdate dbName tableName now request u history).history = c.history ++ history := by
  rw [Catalog.commitUpdate, h]

end Steps

/-! ## The invariant -/

section Invariant

variable {dbName tableName : String} {requests : τ → TableUpdateRequest} {tableId : TableId}
  {s s' : ConcurrentUpdates τ}

/-- What every interleaving keeps: sessions hold what their request makes of the schema that
they have read, at most one of them holds the row lock, and its history row has the version
after the latest one. -/
structure Coherent (dbName tableName : String) (requests : τ → TableUpdateRequest)
    (tableId : TableId) (s : ConcurrentUpdates τ) : Prop where
  stored : ∃ current, s.catalog.findTable dbName tableName = some current ∧
    current.tableId = tableId
  versions : s.catalog.Numbered tableId
  pending : ∀ t u, (s.phase t).pending? = some u → u.row.tableId = tableId ∧
    storeEvolved u.row.schemaJson (requests t) = u.schema
  locked : ∀ t, (s.phase t).Locks → s.lock = some t
  recorded : ∀ t u history, s.phase t = .recorded u history →
    ∃ now, history = historyRow now s.catalog u.row (requests t) u.schema u.changes

private theorem phase_enter (s : ConcurrentUpdates τ) (t t' : τ) (phase : UpdatePhase) :
    (s.enter t phase).phase t' = if t' = t then phase else s.phase t' := by
  by_cases h : t' = t <;> simp [ConcurrentUpdates.enter, h]

/-- A transaction moves on without a commit. -/
theorem Coherent.enter (h : Coherent dbName tableName requests tableId s) {t : τ}
    {phase : UpdatePhase} {lock : Option τ}
    (hothers : ∀ t' ≠ t, (s.phase t').Locks → lock = some t')
    (hpending : ∀ u, phase.pending? = some u → u.row.tableId = tableId ∧
      storeEvolved u.row.schemaJson (requests t) = u.schema)
    (hlocked : phase.Locks → lock = some t)
    (hrecorded : ∀ u history, phase = .recorded u history →
      ∃ now, history = historyRow now s.catalog u.row (requests t) u.schema u.changes) :
    Coherent dbName tableName requests tableId ({ s with lock := lock }.enter t phase) := by
  refine ⟨h.stored, h.versions, fun t' u hu => ?_, fun t' hl => ?_, fun t' u history hr => ?_⟩
  · rw [phase_enter] at hu
    split at hu
    · next ht => exact ht ▸ hpending u hu
    · exact h.pending t' u hu
  · rw [phase_enter] at hl
    split at hl
    · next ht => exact ht ▸ hlocked hl
    · next ht => exact hothers t' ht hl
  · rw [phase_enter] at hr
    split at hr
    · next ht => exact ht ▸ hrecorded u history hr
    · exact h.recorded t' u history hr

private theorem coherent_commit (h : Coherent dbName tableName requests tableId s) {t : τ}
    {u : PendingUpdate} {history : List SchemaHistory} (hphase : s.phase t = .recorded u history)
    (now : Time) : Coherent dbName tableName requests tableId
      ({ s with
        catalog := s.catalog.commitUpdate dbName tableName now (requests t) u history
        lock := none
        committed := s.committed ++ [t] }.enter t .committed) := by
  obtain ⟨current, hcurrent, hid⟩ := h.stored
  obtain ⟨recordedAt, hhistory⟩ := h.recorded t u history hphase
  have hrowId := (h.pending t u (by rw [hphase]; rfl)).1
  -- nobody else holds the lock
  have hothers : ∀ t' ≠ t, ¬ (s.phase t').Locks := by
    intro t' ht hl
    have hlock := h.locked t (by rw [hphase]; trivial)
    exact ht (Option.some.inj ((h.locked t' hl).symm.trans hlock))
  constructor
  · exact ⟨_, findTable_commitUpdate hcurrent now (requests t) u history, hid⟩
  · rw [← hrowId]
    apply numbered_append_historyRow (hrowId ▸ h.versions)
    exact (history_commitUpdate hcurrent now (requests t) u history).trans (by rw [hhistory])
  · intro t' u' hu'
    rw [phase_enter] at hu'
    split at hu'
    · cases hu'
    · exact h.pending t' u' hu'
  · intro t' hl
    rw [phase_enter] at hl
    split at hl
    · exact hl.elim
    · next ht => exact absurd hl (hothers t' ht)
  · intro t' u' history' hr
    rw [phase_enter] at hr
    split at hr
    · cases hr
    · next ht =>
      have hr' : s.phase t' = .recorded u' history' := hr
      exact absurd (by rw [hr']; trivial) (hothers t' ht)

private theorem coherent_updateStep (h : Coherent dbName tableName requests tableId s)
    (a : UpdateAction τ) : Coherent dbName tableName requests tableId
      (updateStep dbName tableName requests s a) := by
  have hstep := updates_updateStep dbName tableName requests s a
  generalize updateStep dbName tableName requests s a = s' at hstep
  have hlocked : ∀ t t' : τ, t' ≠ t → (s.phase t').Locks → s.lock = some t' :=
    fun _ t' _ => h.locked t'
  cases hstep with
  | idle _ _ => exact h
  | @read t row e _ hrow he =>
    obtain ⟨current, hcurrent, hid⟩ := h.stored
    obtain rfl := Option.some.inj (hcurrent.symm.trans hrow)
    refine h.enter (hlocked t) (fun u hu => ?_) False.elim (fun _ _ hr => by cases hr)
    obtain rfl := Option.some.inj hu
    exact ⟨hid, by simp only [storeEvolved, he]⟩
  | @raise t _ =>
    exact h.enter (hlocked t) (fun _ hu => by cases hu) False.elim (fun _ _ hr => by cases hr)
  | @write t u hphase hlock =>
    refine h.enter (fun t' _ hl => ?_) (fun u' hu => ?_) (fun _ => rfl) (fun _ _ hr => by cases hr)
    · rw [h.locked t' hl] at hlock
      cases hlock
    · obtain rfl := Option.some.inj hu
      exact h.pending t u (by rw [hphase]; rfl)
  | @record t u now hphase =>
    refine h.enter (hlocked t) (fun u' hu => ?_) (fun _ => ?_) (fun u' history hr => ?_)
    · obtain rfl := Option.some.inj hu
      exact h.pending t u (by rw [hphase]; rfl)
    · exact h.locked t (by rw [hphase]; trivial)
    · cases hr
      exact ⟨now, rfl⟩
  | commit now hphase => exact coherent_commit h hphase now

/-! ## Serial results -/

omit [DecidableEq τ] in
/-- A commit leaves the serial schema exactly if its request makes the same schema of what it
has read and of what it overwrites. -/
theorem schema_commit_iff {start : CatalogTable}
    (h : Coherent dbName tableName requests start.tableId s)
    (hserial : Serialised dbName tableName requests start s) {t : τ} {u : PendingUpdate}
    {history : List SchemaHistory} (hphase : s.phase t = .recorded u history) (now : Time) :
    ((s.catalog.commitUpdate dbName tableName now (requests t) u history).findTable dbName
        tableName).map CatalogTable.schemaJson =
      some (((s.committed ++ [t]).map requests).foldl storeEvolved start.schemaJson) ↔
    OverwritesAlike dbName tableName requests s (.commit t now) := by
  obtain ⟨current, hcurrent, -⟩ := h.stored
  have hschema := (h.pending t u (by rw [hphase]; rfl)).2
  have hserialSchema := hserial.schema
  rw [hcurrent, Option.map_some, Option.some.injEq] at hserialSchema
  rw [findTable_commitUpdate hcurrent, Option.map_some, Option.some.injEq, List.map_append,
    List.foldl_append, ← hserialSchema]
  change u.schema = storeEvolved current.schemaJson (requests t) ↔ _
  rw [← hschema]
  constructor
  · intro hsame u' history' current' hphase' hcurrent'
    rw [hphase] at hphase'
    obtain ⟨rfl, rfl⟩ := UpdatePhase.recorded.inj hphase'
    obtain rfl := Option.some.inj (hcurrent.symm.trans hcurrent')
    exact hsame
  · exact fun halike => halike u history current hphase hcurrent

private theorem serialised_updateStep_iff {start : CatalogTable}
    (h : Coherent dbName tableName requests start.tableId s)
    (hserial : Serialised dbName tableName requests start s) (a : UpdateAction τ) :
    Serialised dbName tableName requests start (updateStep dbName tableName requests s a) ↔
      OverwritesAlike dbName tableName requests s a := by
  have hafter := coherent_updateStep h a
  have hstep := updates_updateStep dbName tableName requests s a
  generalize updateStep dbName tableName requests s a = s' at hstep hafter ⊢
  cases hstep with
  | idle a hnone =>
    refine iff_of_true hserial ?_
    cases a with
    | commit t now =>
      intro u history current hphase
      exact absurd hphase (hnone t now rfl u history)
    | read | write | record => trivial
  | read | raise | write | record => exact iff_of_true ⟨hserial.versions, hserial.schema⟩ trivial
  | commit now hphase =>
    rw [← schema_commit_iff h hserial hphase now]
    exact ⟨fun hserial' => hserial'.schema, fun hschema => ⟨hafter.versions, hschema⟩⟩

end Invariant

/-! ## Runs -/

/-- In every interleaving of transactions on a table whose versions count up from 1, the
committed state is always that of the committed requests one after another exactly if no commit
overwrites a schema from which its request makes another one than from what was read. -/
theorem always_serialised_iff {dbName tableName : String} (requests : τ → TableUpdateRequest)
    {catalog : Catalog} {start : CatalogTable}
    (hstart : catalog.findTable dbName tableName = some start)
    (hversions : catalog.Numbered start.tableId)
    (actions : List (UpdateAction τ)) :
    Always (updateStep dbName tableName requests)
        (Serialised dbName tableName requests start) { catalog := catalog } actions ↔
      Along (updateStep dbName tableName requests)
        (OverwritesAlike dbName tableName requests) { catalog := catalog } actions := by
  refine always_iff_along
    (I := fun s _ => Coherent dbName tableName requests start.tableId s)
    (fun _ a _ h => coherent_updateStep h a) (fun _ a _ h => fun hserial =>
      serialised_updateStep_iff h hserial a) ?_ ⟨hversions, by rw [hstart]; rfl⟩
  refine ⟨⟨start, hstart, rfl⟩, hversions, fun t u hu => ?_, fun t hl => ?_,
    fun t u history hr => ?_⟩
  · cases hu
  · exact hl.elim
  · cases hr

omit [DecidableEq τ] in
/-- Updates that overwrite what they read overwrite alike, whatever the requests. -/
theorem OverwritesWhatItRead.alike {dbName tableName : String} {s : ConcurrentUpdates τ}
    {a : UpdateAction τ} (h : OverwritesWhatItRead dbName tableName s a)
    (requests : τ → TableUpdateRequest) : OverwritesAlike dbName tableName requests s a := by
  cases a with
  | commit t now =>
    intro u history current hphase hcurrent
    rw [h u history current hphase hcurrent]
  | read | write | record => trivial

/-- **When concurrent updates are not lost.** In every interleaving of transactions on a table
of a reachable catalog, the committed versions count up from 1 and the committed schema is that of
the committed requests one after another, as long as no transaction overwrites a schema that it
has not read. -/
theorem updates_serialised {dbName tableName : String} (requests : τ → TableUpdateRequest)
    {catalog : Catalog} (hreachable : catalog.Reachable) {start : CatalogTable}
    (hstart : catalog.findTable dbName tableName = some start)
    {actions : List (UpdateAction τ)}
    (hread : Along (updateStep dbName tableName requests)
      (OverwritesWhatItRead dbName tableName) { catalog := catalog } actions) :
    Always (updateStep dbName tableName requests)
      (Serialised dbName tableName requests start) { catalog := catalog } actions := by
  obtain ⟨-, -, hmem, -⟩ := findTable_eq_some hstart
  have hversions := hreachable.versioned.numbered start hmem
  have halike := hread.imp fun _ _ hstep => hstep.alike requests
  exact (always_serialised_iff requests hstart hversions actions).mpr halike

/-- The catalog of a service that has created one table. -/
def createdCatalog : Catalog :=
  (run (handle {}) emptyService [
    (0, .createDatabase salesRequest 1), (1, .createTable "sales" ordersRequest 1)]).catalog

/-- The table of `createdCatalog`. -/
def createdTable : CatalogTable := newTable 1 (newDatabase {} 0 salesRequest 1) ordersRequest 1

/-- Two requests that add a column each. -/
def addTwoColumns : Bool → TableUpdateRequest
  | false => { addColumns := [{ name := "total", type := "double" }] }
  | true => { addColumns := [{ name := "currency", type := "string" }] }

/-- One transaction after the other. -/
def serialUpdates : List (UpdateAction Bool) :=
  [.read false, .write false, .record false 2, .commit false 2, .read true, .write true,
    .record true 3, .commit true 3]

/-- `updates_serialised` at two updates one after the other. -/
theorem updates_serialised_two : Always (updateStep "sales" "orders" addTwoColumns)
    (Serialised "sales" "orders" addTwoColumns createdTable) { catalog := createdCatalog }
    serialUpdates := by
  refine updates_serialised addTwoColumns ⟨_, _, rfl⟩ rfl ?_
  refine ⟨trivial, trivial, trivial, ?_, trivial, trivial, trivial, ?_, trivial⟩ <;>
  · intro u history current hphase hcurrent
    obtain ⟨rfl, -⟩ := UpdatePhase.recorded.inj hphase
    obtain rfl := Option.some.inj hcurrent
    rfl

/-- Both transactions read the row before either has written it. -/
def overlappingUpdates : List (UpdateAction Bool) :=
  [.read false, .read true, .write false, .record false 2, .commit false 2, .write true,
    .record true 3, .commit true 3]

/-- Both are committed, with different versions, and only the second column is left. -/
theorem overlapping_update_lost : ¬ Always (updateStep "sales" "orders" addTwoColumns)
    (Serialised "sales" "orders" addTwoColumns createdTable) { catalog := createdCatalog }
    overlappingUpdates := by
  intro h
  have hschema := (h overlappingUpdates [] (List.append_nil _).symm).schema
  have hcounts := congrArg (fun schema => (schema.bind storedFields).map List.length) hschema
  exact absurd hcounts (by decide)

end DataHarbour.Metadata
