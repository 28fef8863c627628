import Mathlib.Data.Option.Basic
import DataHarbour.Lineage.Datasets

/-!
# Ingesting an event again

The first ingest leaves nothing for a second one. The run row has taken up the event. An event
may name a dataset several times, so a single statement of the second ingest can find facets to
change; its statements together merge the same entries once more, which changes nothing.
-/

namespace DataHarbour.Lineage

open Python Relational Machine Database

variable {platform : Platform} {uuids : UuidSource} {event : OpenLineageEvent}
  {db db' : Database} {runId : Uuid}

/-! ## The run row -/

private theorem updatedJobId_settled {existing run : LineageRun}
    (h : updatedJobId platform existing event = some run.dhpJobId) :
    updatedJobId platform run event = some run.dhpJobId := by
  unfold updatedJobId at h ⊢
  split at h
  · next jobId hjobId =>
    split at h
    · split
      · exact h
      · rfl
    · next hkept =>
      rw [← Option.some.inj h, if_neg hkept]
  · rfl

private theorem updatedJobId_of_inserted {run : LineageRun}
    (h : insertedJobId platform event = some run.dhpJobId) :
    updatedJobId platform run event = some run.dhpJobId := by
  unfold insertedJobId at h
  unfold updatedJobId
  split at h
  · split
    · exact h
    · rfl
  · rfl

private theorem updatedState_of_varchar {run : LineageRun}
    (h : varchar 32 (event.state platform) = some run.state) :
    updatedState platform run event = some run.state := by
  unfold updatedState
  split
  · rfl
  · exact h

private theorem updatedState_settled {existing run : LineageRun}
    (h : updatedState platform existing event = some run.state) :
    updatedState platform run event = some run.state := by
  rcases updatedState_eq_some h with ⟨hsame, hkept⟩ | hstored
  · exact if_pos (hsame.trans hkept.symm)
  · exact updatedState_of_varchar hstored

/-- Facets are stored when PostgreSQL takes them, each in its JSONB form. -/
theorem storedFacets_eq_some {facets stored : Facets} :
    storedFacets platform facets = some stored ↔
      platform.acceptsJson facets = true ∧ facets.mapValues platform.jsonb = stored := by
  simp [storedFacets]

/-- Facets that have been stored with those of the event in them are not changed by another
write. -/
theorem storedFacets_merge {facets stored : Facets}
    (hmerged : facets.merge event.mergedFacets = facets)
    (h : storedFacets platform facets = some stored) :
    storedFacets platform (stored.merge event.mergedFacets) = some stored := by
  obtain ⟨haccepts, rfl⟩ := storedFacets_eq_some.mp h
  have hmap : ((facets.mapValues platform.jsonb).merge event.mergedFacets).mapValues
      platform.jsonb = facets.mapValues platform.jsonb := by
    rw [Mapping.mapValues_merge, Mapping.mapValues_mapValues platform.jsonb_jsonb,
      ← Mapping.mapValues_merge, hmerged]
  refine storedFacets_eq_some.mpr ⟨?_, hmap⟩
  rw [← platform.acceptsJson_jsonb, hmap, platform.acceptsJson_jsonb, haccepts]

private theorem updatedFacets_of_stored {run : LineageRun} {facets : Facets}
    (hmerged : facets.merge event.mergedFacets = facets)
    (h : storedFacets platform facets = some run.facets) :
    updatedFacets platform run event = some run.facets := by
  unfold updatedFacets
  split
  · rfl
  · exact storedFacets_merge hmerged h

private theorem updatedFacets_settled {existing run : LineageRun}
    (h : updatedFacets platform existing event = some run.facets) :
    updatedFacets platform run event = some run.facets := by
  unfold updatedFacets at h
  split at h
  · next hkept =>
    have hsame : existing.facets = run.facets := Option.some.inj h
    unfold facetsKept at hkept
    rw [updatedFacets, facetsKept, if_pos (hsame ▸ hkept)]
  · exact updatedFacets_of_stored (Mapping.merge_merge_self _ _) h

/-- A row that agrees with the event in every column has nothing to take from it. -/
theorem updatedRun_eq_self {run : LineageRun}
    (hstate : updatedState platform run event = some run.state)
    (hjobId : updatedJobId platform run event = some run.dhpJobId)
    (hfacets : updatedFacets platform run event = some run.facets)
    (hstarted : event.state platform = "START" → run.startedAt = some event.eventTime)
    (hended : event.isTerminal platform → run.endedAt = some event.eventTime) :
    updatedRun platform run event = some run := by
  have hstarted' : (if event.state platform = "START" then some event.eventTime
      else run.startedAt) = run.startedAt := ite_eq_right_iff.mpr fun h => (hstarted h).symm
  have hended' : (if event.isTerminal platform then some event.eventTime
      else run.endedAt) = run.endedAt := ite_eq_right_iff.mpr fun h => (hended h).symm
  simp only [updatedRun, hstate, hjobId, hfacets, hstarted', hended']
  rfl

private theorem updatedRun_of_inserted {run : LineageRun}
    (h : insertedRun platform event = some run) :
    updatedRun platform run event = some run := by
  simp only [insertedRun, Option.bind_eq_bind, Option.bind_eq_some_iff] at h
  obtain ⟨jobNamespace, -, jobName, -, dhpJobId, hjobId, state, hstate, facets, hfacets, hrun⟩ :=
    h
  obtain rfl := Option.some.inj hrun
  refine updatedRun_eq_self (updatedState_of_varchar hstate) (updatedJobId_of_inserted hjobId)
    (updatedFacets_of_stored (Mapping.merge_self _) hfacets) ?_ ?_
  · exact fun hstart => if_pos hstart
  · exact fun hterminal => if_pos hterminal

private theorem updatedRun_of_updated {existing run : LineageRun}
    (h : updatedRun platform existing event = some run) :
    updatedRun platform run event = some run := by
  simp only [updatedRun, Option.bind_eq_bind, Option.bind_eq_some_iff] at h
  obtain ⟨state, hstate, dhpJobId, hjobId, facets, hfacets, hrun⟩ := h
  obtain rfl := Option.some.inj hrun
  refine updatedRun_eq_self (updatedState_settled hstate) (updatedJobId_settled hjobId)
    (updatedFacets_settled hfacets) ?_ ?_
  · exact fun hstart => if_pos hstart
  · exact fun hterminal => if_pos hterminal

/-- The run part of an ingest finds its own row and leaves it. -/
theorem upsertRun_settled {runs : Table LineageRun.runId}
    (h : RunUpserted platform event runs db.runs) : upsertRun platform event db = some db := by
  have hrow : ∃ run ∈ db.runs.rows, run.runId = event.run.runId ∧
      updatedRun platform run event = some run := by
    generalize db.runs = runs' at h
    cases h with
    | @inserted run hrun hfresh =>
      exact ⟨run, (Table.mem_insert hfresh).mpr (.inl rfl), (records_insertedRun hrun).runId,
        updatedRun_of_inserted hrun⟩
    | @updated existing run hexisting hrun =>
      have hkey := Table.key_of_find? hexisting
      have hid := (records_updatedRun hkey hrun).runId
      exact ⟨run, (Table.mem_set_iff (Table.mem_of_find? hexisting)
        (hid.trans hkey.symm)).mpr (.inl rfl), hid, updatedRun_of_updated hrun⟩
  obtain ⟨run, hmem, hid, hupdated⟩ := hrow
  have hfind : db.runs.find? event.run.runId = some run := hid ▸ Table.find?_of_mem hmem
  simp only [upsertRun, hfind, hupdated, Option.map_some, Table.set_of_mem hmem]

/-! ## The datasets -/

/-- The entries that the references to one dataset bring, in order. -/
def gather (key : DatasetKey) (refs : List (Direction × DatasetRef)) : Dict :=
  refs.flatMap fun ref => if ref.2.key = key then ref.2.facets.entries else []

/-- A dataset with all facets that the references bring to it. -/
def LineageDataset.absorb (refs : List (Direction × DatasetRef)) (row : LineageDataset) :
    LineageDataset :=
  { row with facets := row.facets.mergeDict (gather row.key refs) }

/-- References are absorbed one after the other. -/
theorem LineageDataset.absorb_append (refs refs' : List (Direction × DatasetRef))
    (row : LineageDataset) : row.absorb (refs ++ refs') = (row.absorb refs).absorb refs' := by
  simp only [absorb, gather, List.flatMap_append, Mapping.mergeDict_append]
  rfl

/-- References that say nothing of a dataset leave its row. -/
theorem LineageDataset.absorb_of_nothing {refs : List (Direction × DatasetRef)}
    {row : LineageDataset} (h : gather row.key refs = []) : row.absorb refs = row := by
  rw [absorb, h]
  rfl

/-- A reference to another dataset leaves the row. -/
theorem LineageDataset.absorb_of_ne {ref : Direction × DatasetRef} {row : LineageDataset}
    (h : ref.2.key ≠ row.key) : row.absorb [ref] = row :=
  absorb_of_nothing (by simp [gather, h])

/-- A reference to the dataset merges its facets into the row. -/
theorem LineageDataset.absorb_of_eq {ref : Direction × DatasetRef} {row : LineageDataset}
    (h : ref.2.key = row.key) :
    row.absorb [ref] = { row with facets := row.facets.merge ref.2.facets } := by
  simp [absorb, gather, h, Mapping.merge]

/-- Absorbing the same references again changes nothing. -/
theorem LineageDataset.absorb_absorb_self (refs : List (Direction × DatasetRef))
    (row : LineageDataset) : (row.absorb refs).absorb refs = row.absorb refs := by
  have hfacets := Mapping.mergeDict_mergeDict_self row.facets (gather row.key refs)
  exact congrArg (fun facets => { row with facets }) hfacets

/-- A first pass leaves every dataset with the facets that the references bring. -/
theorem exists_absorb_of_mem {refs : List (Direction × DatasetRef)} {row : LineageDataset}
    (h : row ∈ (refs.foldl (put uuids runId) db).datasets.rows) :
    ∃ old : LineageDataset, row = old.absorb refs := by
  induction refs using List.reverseRecOn generalizing row with
  | nil => exact ⟨row, rfl⟩
  | append_singleton refs ref ih =>
    rw [List.foldl_append, List.foldl_cons, List.foldl_nil, put, datasets_link] at h
    have hlinked : ∀ ref' ∈ refs, (refs.foldl (put uuids runId) db).HasEdge runId ref'.2.key
        ref'.1 := fun ref' => hasEdge_foldl_put
    generalize refs.foldl (put uuids runId) db = db₁ at h ih hlinked
    have hput := datasetPut_putDataset uuids ref.2 db₁
    generalize putDataset uuids ref.2 db₁ = result at h hput
    -- a row with another key is one of the rows before, and has nothing new to absorb
    have hother : row ∈ db₁.datasets.rows → ref.2.key ≠ row.key →
        ∃ old : LineageDataset, row = old.absorb (refs ++ [ref]) := by
      intro hrow hne
      obtain ⟨old, rfl⟩ := ih hrow
      exact ⟨old, by rw [LineageDataset.absorb_append, LineageDataset.absorb_of_ne hne]⟩
    cases hput with
    | @stored old new hold hnew =>
      have hmem := Table.mem_of_find? hold
      have hkey := Table.key_of_find? hold
      rcases (Table.mem_set_iff hmem (hnew ▸ rfl)).mp h with rfl | ⟨hrow, hne⟩
      · obtain ⟨older, rfl⟩ := ih hmem
        refine ⟨older, ?_⟩
        rw [LineageDataset.absorb_append, LineageDataset.absorb_of_eq hkey.symm, hnew]
      · exact hother hrow fun heq => hne (Table.eq_of_key_eq hrow hmem (hkey.trans heq).symm)
    | @fresh new hnew hkey hfacets hid =>
      rcases (Table.mem_insert hnew).mp h with rfl | hrow
      · have hnothing : gather row.key refs = [] := by
          simp only [gather, List.flatMap_eq_nil_iff]
          intro ref' href'
          obtain ⟨id, hdataset, -⟩ := hlinked ref' href'
          obtain ⟨old, hold, -⟩ := hdataset.find?
          have hne : ref'.2.key ≠ row.key := by
            intro heq
            rw [heq, hnew] at hold
            cases hold
          rw [if_neg hne]
        let blank : LineageDataset := { row with facets := Mapping.empty }
        have hblank : blank.absorb refs = blank := LineageDataset.absorb_of_nothing hnothing
        have hblankKey : ref.2.key = blank.key := hkey.symm
        refine ⟨blank, ?_⟩
        rw [LineageDataset.absorb_append, hblank, LineageDataset.absorb_of_eq hblankKey,
          Mapping.empty_merge, ← hfacets]
      · refine hother hrow fun heq => ?_
        have hfind := Table.find?_of_mem hrow
        rw [← heq, ← hkey, hnew] at hfind
        cases hfind

/-- A dataset that is stored and linked only has its facets merged. -/
theorem put_of_hasEdge (uuids : UuidSource) {ref : Direction × DatasetRef}
    (h : db.HasEdge runId ref.2.key ref.1) :
    ∃ datasets : Table LineageDataset.key,
      datasets.rows = db.datasets.rows.map (LineageDataset.absorb [ref]) ∧
        put uuids runId db ref = { db with datasets } := by
  obtain ⟨id, hdataset, hlink⟩ := h
  obtain ⟨found, hfound, rfl⟩ := hdataset.find?
  have hput := datasetPut_putDataset uuids ref.2 db
  unfold put
  generalize putDataset uuids ref.2 db = result at hput ⊢
  cases hput with
  | @stored old row hold hrow =>
    obtain rfl := Option.some.inj (hold.symm.trans hfound)
    have hmem := Table.mem_of_find? hold
    have hkey := Table.key_of_find? hold
    have hsame : row.key = old.key := hrow ▸ rfl
    have hid : row.datasetId = old.datasetId := hrow ▸ rfl
    refine ⟨db.datasets.set row, List.map_congr_left fun x hx => ?_, ?_⟩
    · by_cases hxkey : x.key = row.key
      · obtain rfl := Table.eq_of_key_eq hx hmem (hxkey.trans hsame)
        rw [if_pos hxkey, LineageDataset.absorb_of_eq hkey.symm, hrow]
      · have hne : ref.2.key ≠ x.key := fun heq => hxkey (heq ▸ hsame.trans hkey).symm
        rw [if_neg hxkey, LineageDataset.absorb_of_ne hne]
    · rw [hid]
      exact link_of_mem hlink
  | fresh hnew hkey _ _ =>
    rw [hkey, hfound] at hnew
    cases hnew

/-- So a second pass merges the facets once more. -/
theorem foldl_put_of_hasEdge (uuids : UuidSource) {refs : List (Direction × DatasetRef)}
    (h : ∀ ref ∈ refs, db.HasEdge runId ref.2.key ref.1) :
    ∃ datasets : Table LineageDataset.key,
      datasets.rows = db.datasets.rows.map (LineageDataset.absorb refs) ∧
        refs.foldl (put uuids runId) db = { db with datasets } := by
  induction refs generalizing db with
  | nil => exact ⟨db.datasets, (List.map_id' _).symm, rfl⟩
  | cons ref refs ih =>
    obtain ⟨datasets, hrows, hput⟩ := put_of_hasEdge uuids (h ref List.mem_cons_self)
    have hrest : ∀ ref' ∈ refs,
        (put uuids runId db ref).HasEdge runId ref'.2.key ref'.1 := fun ref' href' =>
      hasEdge_put_of_hasEdge (h ref' (List.mem_cons_of_mem ref href'))
    obtain ⟨datasets', hrows', hfold⟩ := ih hrest
    refine ⟨datasets', ?_, ?_⟩
    · rw [hrows', hput, hrows, List.map_map]
      refine List.map_congr_left fun row _ => ?_
      exact (LineageDataset.absorb_append [ref] refs row).symm
    · rw [List.foldl_cons, hfold, hput]

/-- A second pass changes nothing. -/
theorem foldl_put_foldl_put (uuids uuids' : UuidSource) (runId : Uuid)
    (refs : List (Direction × DatasetRef)) (db : Database) :
    refs.foldl (put uuids' runId) (refs.foldl (put uuids runId) db) =
      refs.foldl (put uuids runId) db := by
  have habsorbed : ∀ row ∈ (refs.foldl (put uuids runId) db).datasets.rows,
      row.absorb refs = row := by
    intro row hrow
    obtain ⟨old, rfl⟩ := exists_absorb_of_mem hrow
    exact LineageDataset.absorb_absorb_self refs old
  have hlinked : ∀ ref ∈ refs, (refs.foldl (put uuids runId) db).HasEdge runId ref.2.key
      ref.1 := fun ref => hasEdge_foldl_put
  obtain ⟨datasets, hrows, hfold⟩ := foldl_put_of_hasEdge uuids' hlinked
  rw [List.map_congr_left habsorbed, List.map_id'] at hrows
  rw [hfold, Table.ext_rows hrows]

/-! ## The request -/

/-- Whether an event can be stored does not depend on the ids that are drawn. -/
theorem ingest_eq_none_of_eq_none (uuids' : UuidSource)
    (h : ingest platform uuids event db = none) : ingest platform uuids' event db = none := by
  rw [ingest_eq] at h ⊢
  cases hrun : upsertRun platform event db with
  | none => rfl
  | some db₁ =>
    rw [hrun, Option.bind_some, Option.map_eq_none_iff] at h
    rw [Option.bind_some, h, Option.map_none]

/-- What an event has done, it does not do again. -/
theorem ingest_ingested (uuids' : UuidSource) (h : ingest platform uuids event db = some db') :
    ingest platform uuids' event db' = some db' := by
  obtain ⟨runs, refs, hruns, hrefs, rfl⟩ := ingest_cases h
  have hrun : upsertRun platform event (refs.foldl (put uuids event.run.runId) { db with runs }) =
      some _ := upsertRun_settled (by rw [runs_foldl_put]; exact hruns)
  rw [ingest_eq, hrun, hrefs, Option.bind_some, Option.map_some, foldl_put_foldl_put]

/-- A repeated request changes nothing, whatever is stored and whether or not it succeeds. -/
theorem handle_handle_self (first second : Arrival) (h : second.event = first.event) :
    handle platform (handle platform db first) second = handle platform db first := by
  unfold handle
  rw [h]
  cases hingest : ingest platform first.uuids first.event db with
  | none => rw [Option.getD_none, ingest_eq_none_of_eq_none second.uuids hingest, Option.getD_none]
  | some db' => rw [Option.getD_some, ingest_ingested second.uuids hingest, Option.getD_some]

end DataHarbour.Lineage
