import Mathlib.Data.Prod.Lex
import DataHarbour.Lineage.Datasets
import DataHarbour.Lineage.RunStates
import DataHarbour.Relational.RecursiveQuery

/-!
# Walking the lineage graph

`graph` runs one of two recursive queries. Each starts with the row of a dataset and joins
every row of the last round with the edges of its dataset, the edges of their runs on the other
side and the datasets of these, as long as the depth allows; the rows are then grouped by
dataset, with the least depth of each.
-/

namespace DataHarbour.Lineage

open Relational

/-- A row of the common table expression `walk`. -/
structure WalkRow where
  datasetId : Uuid
  nameSpace : String
  name : String
  depth : ℕ

/-- A row of the result. -/
structure LineageNode where
  nameSpace : String
  name : String
  depth : ℕ
  deriving DecidableEq

/-- The two directions that the routes ask for. -/
inductive Traversal
  | upstream
  | downstream
  deriving DecidableEq

namespace Database

variable (db : Database)

/-- The first term of both queries: the dataset itself. -/
def rootRows (ns name : String) : List WalkRow :=
  (db.datasets.rows.filter fun d => d.nameSpace = ns ∧ d.name = name).map fun d =>
    ⟨d.datasetId, d.nameSpace, d.name, 0⟩

/-- The joins of a recursive term: the links of the dataset on the one side of their runs, the
links of these runs on the other side, and the datasets that those lead to. -/
def joinedRows (near far : Direction) (maxDepth : ℕ) (walk : WalkRow) : List WalkRow :=
  if walk.depth < maxDepth then
    ((db.links near).rows.filter (·.datasetId = walk.datasetId)).flatMap fun l =>
      ((db.links far).rows.filter (·.runId = l.runId)).flatMap fun l' =>
        (db.datasets.rows.filter (·.datasetId = l'.datasetId)).map fun d =>
          ⟨d.datasetId, d.nameSpace, d.name, walk.depth + 1⟩
  else []

/-- The recursive term of the upstream query: outputs of a run, then inputs. -/
def upstreamRows : ℕ → WalkRow → List WalkRow := db.joinedRows .output .input

/-- The recursive term of the downstream query: inputs of a run, then outputs. -/
def downstreamRows : ℕ → WalkRow → List WalkRow := db.joinedRows .input .output

/-- The recursive term of a direction. -/
def walkRows : Traversal → ℕ → WalkRow → List WalkRow
  | .upstream => db.upstreamRows
  | .downstream => db.downstreamRows

end Database

section Query

variable {κ : Type} [LinearOrder κ] (collate : String → κ)

/-- What the result is ordered by; texts compare by the keys that the collation gives them. -/
def LineageNode.sortKey (node : LineageNode) : ℕ ×ₗ κ ×ₗ κ :=
  toLex (node.depth, toLex (collate node.nameSpace, collate node.name))

/-- `SELECT DISTINCT namespace, name, MIN(depth) ... GROUP BY ... ORDER BY ...`. -/
def selectNodes (walk : List WalkRow) : List LineageNode :=
  let groups := groupMin (fun row => (row.nameSpace, row.name)) WalkRow.depth
    (walk.filter (0 < ·.depth))
  ((groups.map fun group => ⟨group.1.1, group.1.2, group.2⟩).dedup).mergeSort fun node node' =>
    decide (node.sortKey collate ≤ node'.sortKey collate)

/-- `graph`, with the number of rounds bounded by the fuel. -/
def graph (db : Database) (ns name : String) (direction : Traversal) (maxDepth fuel : ℕ) :
    Option (List LineageNode) :=
  (withRecursive (db.walkRows direction maxDepth) fuel (db.rootRows ns name)).map
    (selectNodes collate)

end Query

/-! ## Edges between datasets -/

/-- An edge in a direction: some run has the two datasets on the one and on the other side. -/
def Database.Edge (db : Database) : Traversal → DatasetKey → DatasetKey → Prop
  | .upstream, key, key' => ∃ runId, db.HasEdge runId key .output ∧ db.HasEdge runId key' .input
  | .downstream, key, key' => ∃ runId, db.HasEdge runId key .input ∧ db.HasEdge runId key' .output

/-- The opposite direction. -/
def Traversal.opposite : Traversal → Traversal
  | .upstream => .downstream
  | .downstream => .upstream

private theorem edge_opposite (db : Database) (direction : Traversal) (key key' : DatasetKey) :
    db.Edge direction key key' ↔ db.Edge direction.opposite key' key := by
  cases direction with
  | upstream => exact exists_congr fun _ => and_comm
  | downstream => exact exists_congr fun _ => and_comm

/-! ## The rows of the recursive query -/

/-- The key of the row's dataset. -/
def WalkRow.key (row : WalkRow) : DatasetKey := (row.nameSpace, row.name)

/-- The row shows a stored dataset. -/
def WalkRow.Stored (db : Database) (row : WalkRow) : Prop := db.HasDataset row.key row.datasetId

/-- A key has one dataset id. -/
theorem Database.HasDataset.id_eq {db : Database} {key : DatasetKey} {id id' : Uuid}
    (h : db.HasDataset key id) (h' : db.HasDataset key id') : id = id' := by
  obtain ⟨row, hrow, hkey, rfl⟩ := h
  obtain ⟨row', hrow', hkey', rfl⟩ := h'
  rw [Table.eq_of_key_eq hrow hrow' (hkey.trans hkey'.symm)]

variable {db : Database} {direction : Traversal} {maxDepth : ℕ}

private theorem mem_rootRows_iff {ns name : String} {row : WalkRow} :
    row ∈ db.rootRows ns name ↔ row.key = (ns, name) ∧ row.depth = 0 ∧ row.Stored db := by
  constructor
  · intro h
    obtain ⟨d, hd, rfl⟩ := List.mem_map.mp h
    obtain ⟨hmem, hkey⟩ := List.mem_filter.mp hd
    obtain ⟨hns, hname⟩ := of_decide_eq_true hkey
    exact ⟨Prod.ext hns hname, rfl, d, hmem, rfl, rfl⟩
  · rintro ⟨hkey, hdepth, d, hmem, hd, hid⟩
    obtain ⟨id, ns', name', depth⟩ := row
    obtain ⟨hns, hname⟩ := Prod.mk.inj (hd.trans hkey)
    refine List.mem_map.mpr ⟨d, List.mem_filter.mpr ⟨hmem, decide_eq_true ⟨hns, hname⟩⟩, ?_⟩
    obtain ⟨hns', hname'⟩ := Prod.mk.inj hd
    rw [hid, hns', hname']
    exact congrArg (WalkRow.mk id ns' name') hdepth.symm

/-- The joins, for one link on either side. -/
theorem mem_joinedRows_iff {near far : Direction} {row row' : WalkRow} :
    row' ∈ db.joinedRows near far maxDepth row ↔
      row.depth < maxDepth ∧ row'.depth = row.depth + 1 ∧ row'.Stored db ∧
        ∃ runId, ⟨runId, row.datasetId⟩ ∈ (db.links near).rows ∧
          ⟨runId, row'.datasetId⟩ ∈ (db.links far).rows := by
  unfold Database.joinedRows
  split
  · next hdepth =>
    simp only [List.mem_flatMap, List.mem_filter, List.mem_map, decide_eq_true_eq]
    constructor
    · rintro ⟨⟨runId, id⟩, ⟨hl, rfl⟩, ⟨runId', id'⟩, ⟨hl', rfl⟩, d, ⟨hd, rfl⟩, rfl⟩
      exact ⟨hdepth, rfl, ⟨d, hd, rfl, rfl⟩, runId', hl, hl'⟩
    · rintro ⟨-, hdepth', ⟨d, hd, hkey, hid⟩, runId, hl, hl'⟩
      obtain ⟨id', ns', name', depth'⟩ := row'
      obtain ⟨rfl, rfl⟩ := Prod.mk.inj hkey
      obtain rfl : depth' = row.depth + 1 := hdepth'
      obtain rfl : d.datasetId = id' := hid
      exact ⟨_, ⟨hl, rfl⟩, _, ⟨hl', rfl⟩, d, ⟨hd, rfl⟩, rfl⟩
  · next hdepth =>
    constructor
    · intro h
      cases h
    · rintro ⟨hlt, -⟩
      exact absurd hlt hdepth

/-- One round follows the edges of the direction. -/
theorem mem_walkRows_iff {row row' : WalkRow} (hrow : row.Stored db) :
    row' ∈ db.walkRows direction maxDepth row ↔
      row.depth < maxDepth ∧ row'.depth = row.depth + 1 ∧ row'.Stored db ∧
        db.Edge direction row.key row'.key := by
  -- the ids of the links are those of the two rows
  have hedge (near far : Direction) (hrow' : row'.Stored db) :
      (∃ runId, ⟨runId, row.datasetId⟩ ∈ (db.links near).rows ∧
        ⟨runId, row'.datasetId⟩ ∈ (db.links far).rows) ↔
      ∃ runId, db.HasEdge runId row.key near ∧ db.HasEdge runId row'.key far := by
    refine exists_congr fun runId => and_congr ?_ ?_
    · exact ⟨fun h => ⟨_, hrow, h⟩, fun ⟨_, hd, h⟩ => hrow.id_eq hd ▸ h⟩
    · exact ⟨fun h => ⟨_, hrow', h⟩, fun ⟨_, hd, h⟩ => hrow'.id_eq hd ▸ h⟩
  cases direction with
  | upstream =>
    refine mem_joinedRows_iff.trans ?_
    exact and_congr_right fun _ => and_congr_right fun _ => and_congr_right (hedge .output .input)
  | downstream =>
    refine mem_joinedRows_iff.trans ?_
    exact and_congr_right fun _ => and_congr_right fun _ => and_congr_right (hedge .input .output)

/-- Both ends of an edge are stored. -/
theorem Database.Edge.exists_stored {key key' : DatasetKey} (h : db.Edge direction key key') :
    (∃ id, db.HasDataset key id) ∧ ∃ id, db.HasDataset key' id := by
  cases direction with
  | upstream =>
    obtain ⟨runId, ⟨id, hid, -⟩, ⟨id', hid', -⟩⟩ := h
    exact ⟨⟨id, hid⟩, id', hid'⟩
  | downstream =>
    obtain ⟨runId, ⟨id, hid, -⟩, ⟨id', hid', -⟩⟩ := h
    exact ⟨⟨id, hid⟩, id', hid'⟩

/-- The rounds from the root follow the walks from its dataset up to the depth. -/
theorem walk_follows_iff {root row : WalkRow} (hroot : root.Stored db) (hdepth : root.depth = 0)
    {n : ℕ} : Walk (Follows (db.walkRows direction maxDepth)) n root row ↔
      n ≤ maxDepth ∧ row.depth = n ∧ row.Stored db ∧
        Walk (db.Edge direction) n root.key row.key := by
  induction n generalizing row with
  | zero =>
    rw [walk_zero_iff, walk_zero_iff]
    constructor
    · rintro rfl
      exact ⟨Nat.zero_le _, hdepth, hroot, rfl⟩
    · rintro ⟨-, hrow, hstored, hkey⟩
      obtain ⟨id, ns, name, depth⟩ := root
      obtain ⟨id', ns', name', depth'⟩ := row
      obtain ⟨rfl, rfl⟩ := Prod.mk.inj hkey
      obtain rfl : id = id' := hroot.id_eq hstored
      obtain rfl : depth = depth' := hdepth.trans hrow.symm
      rfl
  | succ n ih =>
    rw [walk_succ_iff, walk_succ_iff]
    constructor
    · rintro ⟨row', hwalk, hfollows⟩
      obtain ⟨-, hrow', hstored', hwalk'⟩ := ih.mp hwalk
      obtain ⟨hlt, hnext, hstored, hedge⟩ := (mem_walkRows_iff hstored').mp hfollows
      rw [hrow'] at hlt hnext
      exact ⟨hlt, hnext, hstored, row'.key, hwalk', hedge⟩
    · rintro ⟨hn, hrow, hstored, key, hwalk, hedge⟩
      obtain ⟨id, hid⟩ := hedge.exists_stored.1
      refine ⟨⟨id, key.1, key.2, n⟩, ih.mpr ⟨Nat.le_of_succ_le hn, rfl, hid, hwalk⟩, ?_⟩
      have hstart : WalkRow.Stored db ⟨id, key.1, key.2, n⟩ := hid
      exact (mem_walkRows_iff hstart).mpr ⟨hn, hrow, hstored, hedge⟩

/-- The query ends: each round is one deeper. -/
theorem withRecursive_walkRows_returns (db : Database) (direction : Traversal) (ns name : String)
    {maxDepth fuel : ℕ} (hfuel : maxDepth < fuel) :
    ∃ walk, withRecursive (db.walkRows direction maxDepth) fuel (db.rootRows ns name) =
      some walk := by
  refine withRecursive_returns (fun row => maxDepth - row.depth) ?_ fun row hrow => ?_
  · intro row row' hrow'
    have hdeeper : row.depth < maxDepth ∧ row'.depth = row.depth + 1 := by
      cases direction with
      | upstream => exact ⟨(mem_joinedRows_iff.mp hrow').1, (mem_joinedRows_iff.mp hrow').2.1⟩
      | downstream => exact ⟨(mem_joinedRows_iff.mp hrow').1, (mem_joinedRows_iff.mp hrow').2.1⟩
    omega
  · rw [(mem_rootRows_iff.mp hrow).2.1]
    exact hfuel

/-- The rows of the query that are not the root: the ends of the walks from it. -/
theorem mem_walk_iff {ns name : String} {fuel : ℕ} {walk : List WalkRow}
    (h : withRecursive (db.walkRows direction maxDepth) fuel (db.rootRows ns name) = some walk)
    {key : DatasetKey} {n : ℕ} (hn : 0 < n) :
    (∃ row ∈ walk, row.key = key ∧ row.depth = n) ↔
      n ≤ maxDepth ∧ Walk (db.Edge direction) n (ns, name) key := by
  constructor
  · rintro ⟨row, hrow, rfl, rfl⟩
    obtain ⟨root, hroot, m, hwalk⟩ := (mem_withRecursive_iff h).mp hrow
    obtain ⟨hkey, hdepth, hstored⟩ := mem_rootRows_iff.mp hroot
    obtain ⟨hle, rfl, -, hsteps⟩ := (walk_follows_iff hstored hdepth).mp hwalk
    exact ⟨hle, hkey ▸ hsteps⟩
  · rintro ⟨hle, hwalk⟩
    -- both ends of the walk are stored datasets
    obtain ⟨id, hid⟩ : ∃ id, db.HasDataset (ns, name) id := by
      rcases hwalk.eq_or_cons with ⟨rfl, -⟩ | ⟨m, b, -, hedge, -⟩
      · exact absurd hn (Nat.lt_irrefl 0)
      · exact hedge.exists_stored.1
    obtain ⟨id', hid'⟩ : ∃ id, db.HasDataset key id := by
      obtain ⟨m, rfl⟩ := Nat.exists_eq_succ_of_ne_zero hn.ne'
      obtain ⟨b, -, hedge⟩ := walk_succ_iff.mp hwalk
      exact hedge.exists_stored.2
    let root : WalkRow := ⟨id, ns, name, 0⟩
    let row : WalkRow := ⟨id', key.1, key.2, n⟩
    have hstored : root.Stored db := hid
    have hroot : root ∈ db.rootRows ns name := mem_rootRows_iff.mpr ⟨rfl, rfl, hstored⟩
    have hfollows : Walk (Follows (db.walkRows direction maxDepth)) n root row :=
      (walk_follows_iff hstored rfl).mpr ⟨hle, rfl, hid', hwalk⟩
    exact ⟨row, (mem_withRecursive_iff h).mpr ⟨root, hroot, n, hfollows⟩, rfl, rfl⟩

/-! ## The result -/

section Result

variable {κ : Type} [LinearOrder κ] {collate : String → κ}

private theorem mem_selectNodes_iff {walk : List WalkRow} {node : LineageNode} :
    node ∈ selectNodes collate walk ↔
      (∃ row ∈ walk, 0 < row.depth ∧ row.key = (node.nameSpace, node.name) ∧
        row.depth = node.depth) ∧
      ∀ row ∈ walk, 0 < row.depth → row.key = (node.nameSpace, node.name) →
        node.depth ≤ row.depth := by
  have hgroup : node ∈ selectNodes collate walk ↔
      ((node.nameSpace, node.name), node.depth) ∈
        groupMin WalkRow.key WalkRow.depth (walk.filter (0 < ·.depth)) := by
    rw [selectNodes, List.mem_mergeSort, List.mem_dedup, List.mem_map]
    constructor
    · rintro ⟨⟨⟨ns, name⟩, depth⟩, hmem, rfl⟩
      exact hmem
    · intro hmem
      exact ⟨_, hmem, rfl⟩
  rw [hgroup, mem_groupMin_iff]
  simp only [List.mem_filter, decide_eq_true_eq, and_assoc, and_imp]

/-- Each dataset is shown once. -/
theorem nodup_selectNodes (walk : List WalkRow) :
    ((selectNodes collate walk).map fun node => (node.nameSpace, node.name)).Nodup := by
  have hperm := List.mergeSort_perm
    ((groupMin (fun row : WalkRow => (row.nameSpace, row.name)) WalkRow.depth
      (walk.filter (0 < ·.depth))).map
        (fun group => (⟨group.1.1, group.1.2, group.2⟩ : LineageNode))).dedup
    (fun node node' => decide (node.sortKey collate ≤ node'.sortKey collate))
  refine (hperm.map _).nodup_iff.mpr ?_
  refine List.Nodup.sublist ((List.dedup_sublist _).map _) ?_
  rw [List.map_map]
  exact nodup_keys_groupMin _ _ _

/-- The result is in the order of its keys. -/
theorem pairwise_selectNodes (walk : List WalkRow) :
    (selectNodes collate walk).Pairwise fun node node' =>
      node.sortKey collate ≤ node'.sortKey collate := by
  refine List.Pairwise.imp of_decide_eq_true (List.pairwise_mergeSort ?_ ?_ _)
  · intro a b c hab hbc
    exact decide_eq_true ((of_decide_eq_true hab).trans (of_decide_eq_true hbc))
  · intro a b
    rw [Bool.or_eq_true, decide_eq_true_eq, decide_eq_true_eq]
    exact le_total _ _

/-- The nodes of the result: the datasets with a walk from the root, each with the length of
the shortest one. -/
theorem mem_graph_iff {ns name : String} {fuel : ℕ} {nodes : List LineageNode}
    (h : graph collate db ns name direction maxDepth fuel = some nodes) {node : LineageNode} :
    node ∈ nodes ↔ node.depth ≤ maxDepth ∧
      Shortest (db.Edge direction) (ns, name) (node.nameSpace, node.name) node.depth := by
  obtain ⟨walk, hwalk, rfl⟩ := Option.map_eq_some_iff.mp h
  rw [mem_selectNodes_iff]
  constructor
  · rintro ⟨⟨row, hrow, hpos, hkey, hdepth⟩, hleast⟩
    rw [hdepth] at hpos
    obtain ⟨hle, hsteps⟩ := (mem_walk_iff hwalk hpos).mp ⟨row, hrow, hkey, hdepth⟩
    refine ⟨hle, hpos, hsteps, fun m hm hwalk' => ?_⟩
    by_cases hmax : m ≤ maxDepth
    · obtain ⟨row', hrow', hkey', rfl⟩ := (mem_walk_iff hwalk hm).mpr ⟨hmax, hwalk'⟩
      exact hleast row' hrow' hm hkey'
    · exact hle.trans (Nat.le_of_not_le hmax)
  · rintro ⟨hle, hpos, hsteps, hleast⟩
    obtain ⟨row, hrow, hkey, hdepth⟩ := (mem_walk_iff hwalk hpos).mpr ⟨hle, hsteps⟩
    refine ⟨⟨row, hrow, hdepth ▸ hpos, hkey, hdepth⟩, fun row' hrow' hpos' hkey' => ?_⟩
    have hwalk' := (mem_walk_iff hwalk hpos').mp ⟨row', hrow', hkey', rfl⟩
    exact hleast row'.depth hpos' hwalk'.2

private theorem graph_returns (collate : String → κ) (db : Database) (ns name : String)
    (direction : Traversal) {maxDepth fuel : ℕ} (hfuel : maxDepth < fuel) :
    ∃ nodes, graph collate db ns name direction maxDepth fuel = some nodes := by
  obtain ⟨walk, hwalk⟩ := withRecursive_walkRows_returns db direction ns name hfuel
  exact ⟨selectNodes collate walk, by rw [graph, hwalk, Option.map_some]⟩

/-- **Lineage traversal is bounded shortest-path search.** -/
theorem graph_shortest_paths (collate : String → κ) (db : Database) (ns name : String)
    (direction : Traversal) {maxDepth fuel : ℕ} (hfuel : maxDepth < fuel) :
    ∃ nodes, graph collate db ns name direction maxDepth fuel = some nodes ∧
      (∀ node, node ∈ nodes ↔ node.depth ≤ maxDepth ∧
        Shortest (db.Edge direction) (ns, name) (node.nameSpace, node.name) node.depth) ∧
      (nodes.map fun node => (node.nameSpace, node.name)).Nodup ∧
      nodes.Pairwise fun node node' => node.sortKey collate ≤ node'.sortKey collate := by
  obtain ⟨nodes, hnodes⟩ := graph_returns collate db ns name direction hfuel
  refine ⟨nodes, hnodes, fun node => mem_graph_iff hnodes, ?_, ?_⟩
  · obtain ⟨walk, -, rfl⟩ := Option.map_eq_some_iff.mp hnodes
    exact nodup_selectNodes walk
  · obtain ⟨walk, -, rfl⟩ := Option.map_eq_some_iff.mp hnodes
    exact pairwise_selectNodes walk

/-- A run that refreshes the dataset that it reads and writes another one. -/
def refreshingRun : Arrival :=
  ⟨{ eventType := "COMPLETE", eventTime := 30, run := { runId := 4 },
     job := { nameSpace := "spark", name := "refresh" },
     inputs := [{ nameSpace := "dhp", name := "raw" }],
     outputs := [{ nameSpace := "dhp", name := "raw" },
       { nameSpace := "dhp", name := "curated" }] },
    countingUuids⟩

/-- `graph_shortest_paths` on a graph with a loop. -/
theorem graph_shortest_paths_of_refresh :
    ∃ nodes, graph id (handle samplePlatform {} refreshingRun) "dhp" "curated" .upstream 3 4 =
        some nodes ∧
      (∀ node, node ∈ nodes ↔ node.depth ≤ 3 ∧
        Shortest ((handle samplePlatform {} refreshingRun).Edge .upstream) ("dhp", "curated")
          (node.nameSpace, node.name) node.depth) ∧
      (nodes.map fun node => (node.nameSpace, node.name)).Nodup ∧
      nodes.Pairwise fun node node' => node.sortKey id ≤ node'.sortKey id :=
  graph_shortest_paths id (handle samplePlatform {} refreshingRun) "dhp" "curated" .upstream
    (by decide)

/-- **Upstream and downstream are mirror images.** -/
theorem graph_mirrored (collate : String → κ) (db : Database) (key key' : DatasetKey)
    {maxDepth fuel : ℕ} (hfuel : maxDepth < fuel) :
    ∃ up down, graph collate db key.1 key.2 .upstream maxDepth fuel = some up ∧
      graph collate db key'.1 key'.2 .downstream maxDepth fuel = some down ∧
      ∀ d, ⟨key'.1, key'.2, d⟩ ∈ up ↔ ⟨key.1, key.2, d⟩ ∈ down := by
  obtain ⟨up, hup⟩ := graph_returns collate db key.1 key.2 .upstream hfuel
  obtain ⟨down, hdown⟩ := graph_returns collate db key'.1 key'.2 .downstream hfuel
  refine ⟨up, down, hup, hdown, fun d => ?_⟩
  rw [mem_graph_iff hup, mem_graph_iff hdown]
  refine and_congr_right fun _ => ⟨fun h => ?_, fun h => ?_⟩
  · exact h.converse (edge_opposite db .upstream)
  · exact h.converse (edge_opposite db .downstream)

/-- `curated` is refreshed from `raw`, and each graph shows it from its own end. -/
theorem graph_mirrored_of_refresh :
    ∃ up down,
      graph id (handle samplePlatform {} refreshingRun) "dhp" "curated" .upstream 3 4 = some up ∧
      graph id (handle samplePlatform {} refreshingRun) "dhp" "raw" .downstream 3 4 = some down ∧
      ∀ d, ⟨"dhp", "raw", d⟩ ∈ up ↔ ⟨"dhp", "curated", d⟩ ∈ down :=
  graph_mirrored id (handle samplePlatform {} refreshingRun) ("dhp", "curated") ("dhp", "raw")
    (by decide)

end Result

end DataHarbour.Lineage
