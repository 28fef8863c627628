import DataHarbour.Lineage.Ingest

/-!
# The states of lineage runs

The insert path of `ingest` sets `ended_at` for a terminal state and for no other; the update
path overwrites the state in any case but `ended_at` only for a terminal one. A run looks
finished and unfinished at once as soon as a late event reaches it.
-/

namespace DataHarbour.Lineage

open Python Relational Machine

variable {platform : Platform} {db : Database} {arrival : Arrival}

/-- `ended_at` is set for exactly the runs in a terminal state. -/
def EndedIffTerminal (db : Database) : Prop :=
  ∀ run ∈ db.runs.rows, run.endedAt.isSome = true ↔ run.state ∈ terminalStates

/-- An event that is accepted for a run in a terminal state is terminal itself. -/
def KeepsFinished (platform : Platform) (db : Database) (arrival : Arrival) : Prop :=
  ∀ run, db.runs.find? arrival.event.run.runId = some run → run.state ∈ terminalStates →
    accepted platform db arrival = true → arrival.event.isTerminal platform

/-- A request that fails leaves everything as it was, and any other has an outcome. -/
theorem handle_cases (platform : Platform) (db : Database) (arrival : Arrival) :
    accepted platform db arrival = false ∧ handle platform db arrival = db ∨
      accepted platform db arrival = true ∧
        ingest platform arrival.uuids arrival.event db = some (handle platform db arrival) := by
  unfold accepted handle
  cases ingest platform arrival.uuids arrival.event db with
  | none => exact .inl ⟨rfl, rfl⟩
  | some db' => exact .inr ⟨rfl, rfl⟩

/-- Without an earlier end, a run has ended exactly when its state is terminal. -/
theorem Records.ended_iff {event : OpenLineageEvent} {endedAt : Option Time} {run : LineageRun}
    (h : Records platform event endedAt run) (hended : endedAt = none) :
    run.endedAt.isSome = true ↔ run.state ∈ terminalStates := by
  rw [h.endedAt, h.state, hended]
  by_cases hterminal : event.isTerminal platform <;> simp [hterminal]

/-- A row written for an event agrees with itself unless the run had ended and the event is not
terminal. -/
theorem Records.ended_iff_of_some {event : OpenLineageEvent} {endedAt : Option Time}
    {run : LineageRun} (h : Records platform event endedAt run)
    (hended : endedAt.isSome = true) :
    (run.endedAt.isSome = true ↔ run.state ∈ terminalStates) ↔ event.isTerminal platform := by
  rw [h.endedAt, h.state]
  by_cases hterminal : event.isTerminal platform <;> simp [hterminal, hended]

/-- One request keeps the runs right exactly if it is no late event for a finished run. -/
theorem endedIffTerminal_handle_iff (h : EndedIffTerminal db) :
    EndedIffTerminal (handle platform db arrival) ↔ KeepsFinished platform db arrival := by
  rcases handle_cases platform db arrival with ⟨hrejected, hsame⟩ | ⟨haccepted, hingest⟩
  · rw [hsame]
    refine iff_of_true h fun run _ _ haccepted => ?_
    rw [hrejected] at haccepted
    cases haccepted
  · obtain ⟨runs, refs, hruns, -, hdb⟩ := ingest_cases hingest
    have hrows : (handle platform db arrival).runs = runs := by rw [hdb, runs_foldl_put]
    cases hruns with
    | @inserted run hrun hfresh =>
      have hrecords := records_insertedRun hrun
      constructor
      · intro _ run' hrun'
        rw [← hrecords.runId, hfresh] at hrun'
        cases hrun'
      · intro _ run' hrun'
        rw [hrows, Table.mem_insert] at hrun'
        rcases hrun' with rfl | hold
        · exact hrecords.ended_iff rfl
        · exact h run' hold
    | @updated existing run hexisting hrun =>
      have hkey := Table.key_of_find? hexisting
      have hmem := Table.mem_of_find? hexisting
      have hrecords := records_updatedRun hkey hrun
      have hset : ∀ run', run' ∈ (handle platform db arrival).runs.rows ↔
          run' = run ∨ run' ∈ db.runs.rows ∧ run' ≠ existing := fun run' => by
        rw [hrows]
        exact Table.mem_set_iff hmem (hrecords.runId.trans hkey.symm)
      constructor
      · intro hafter run' hrun' hterminal _
        obtain rfl := Option.some.inj (hexisting.symm.trans hrun')
        have hended := (h existing hmem).mpr hterminal
        exact (hrecords.ended_iff_of_some hended).mp (hafter run ((hset run).mpr (.inl rfl)))
      · intro hkeeps run' hrun'
        rcases (hset run').mp hrun' with rfl | ⟨hold, -⟩
        · by_cases hended : existing.endedAt.isSome = true
          · have hterminal := hkeeps existing hexisting ((h existing hmem).mp hended) haccepted
            exact (hrecords.ended_iff_of_some hended).mpr hterminal
          · exact hrecords.ended_iff (by simpa using hended)
        · exact h run' hold

/-- **When finished runs stay finished.** Along a sequence of events from an empty database,
`ended_at` and the state of every run agree at all times exactly if no event other than
COMPLETE, FAIL and ABORT is accepted for a run whose state is one of these. -/
theorem endedIffTerminal_iff (platform : Platform) (arrivals : List Arrival) :
    Always (handle platform) EndedIffTerminal {} arrivals ↔
      Along (handle platform) (KeepsFinished platform) {} arrivals := by
  refine always_iff_along (I := fun _ _ => True) (fun _ _ _ _ => trivial)
    (fun _ _ _ _ h => endedIffTerminal_handle_iff h) trivial ?_
  intro run hrun
  cases hrun

/-! ## A late start event -/

/-- The value of the float `1e23`, which is not a power of ten. -/
def largeFloat : ℚ := 99999999999999991611392

/-- `1e23` as an integer. -/
def largeInt : ℤ := 100000000000000000000000

/-- JSONB gives `1e23` back as an integer, and the other floats as they are. -/
def largeFloatAsInt : Json → Json
  | .float q => if q = largeFloat then .int largeInt else .float q
  | v => v

private theorem largeFloatAsInt_idem (v : Json) :
    largeFloatAsInt (largeFloatAsInt v) = largeFloatAsInt v := by
  cases v with
  | float q => by_cases hq : q = largeFloat <;> simp [largeFloatAsInt, hq]
  | _ => rfl

/-- A platform that accepts all documents and gives back `1e23` as an integer. -/
def samplePlatform : Platform where
  upper text := String.ofList (text.toList.map Char.toUpper)
  str v := match v with
    | .str text => text
    | _ => ""
  jsonb := largeFloatAsInt
  jsonb_jsonb := largeFloatAsInt_idem
  acceptsJson _ := true
  acceptsJson_jsonb _ := rfl
  acceptsDataset _ := true

/-- Ids that count up. -/
def countingUuids : UuidSource where
  draw stored := stored.foldr max 0 + 1
  fresh stored := by
    have hle : ∀ id ∈ stored, id ≤ stored.foldr max 0 := by
      induction stored with
      | nil => simp
      | cons id stored ih =>
        intro id' hid'
        rcases List.mem_cons.mp hid' with rfl | hid'
        · exact le_max_left _ _
        · exact (ih id' hid').trans (le_max_right _ _)
    intro hmem
    exact Nat.not_succ_le_self _ (hle _ hmem)

/-- An event of run 1 without datasets. -/
def runEvent (eventType : String) (eventTime : Time) : Arrival :=
  ⟨{ eventType, eventTime, run := { runId := 1 }, job := { nameSpace := "spark", name := "etl" } },
    countingUuids⟩

/-- An event of a run of `job-1`, which reads one dataset and writes another. -/
def jobEvent (runId : Uuid) (eventType : String) (eventTime : Time) : Arrival :=
  ⟨{ eventType, eventTime
     run := {
      runId, facets := ⟨[("dhp", .obj [("job_id", .str "job-1")])], List.nodup_singleton _⟩ }
     job := { nameSpace := "spark", name := "etl" }
     inputs := [{ nameSpace := "s3", name := "orders" }]
     outputs := [{ nameSpace := "s3", name := "totals" }] }, countingUuids⟩

/-- The `START` event arrives after the `COMPLETE` event that was sent later. -/
theorem late_start_reopens_run : ¬ Always (handle samplePlatform) EndedIffTerminal {}
    [runEvent "COMPLETE" 20, runEvent "START" 10] := by
  intro h
  have hend := h [runEvent "COMPLETE" 20, runEvent "START" 10] [] rfl
  have hrun := hend ⟨1, "spark", "etl", none, "START", some 10, some 20, Mapping.empty⟩
    List.mem_cons_self
  exact absurd hrun (by decide)

end DataHarbour.Lineage
