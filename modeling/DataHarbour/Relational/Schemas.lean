import Mathlib.Data.Finset.Lattice.Lemmas

/-!
# Schemas and data definition

Tables, indexes, functions and triggers of a PostgreSQL schema, and the statements that create and
drop them. A statement that fails has no result; its transaction is rolled back.

Statements are local: what a script does to a schema it does in the same way beside any objects
that it does not name.
-/

namespace Relational

/-! ## Schemas -/

/-- The default of a column. -/
inductive ColumnDefault
  | value (text : String)
  | now
  /-- A function of the extension `uuid-ossp`. -/
  | uuidGenerateV4
  deriving DecidableEq

/-- A column of a table. -/
structure ColumnDef where
  name : String
  type : String
  nullable : Bool := true
  default : Option ColumnDefault := none
  /-- `CHECK (column IN (...))` -/
  oneOf : Option (List String) := none
  deriving DecidableEq

/-- `UNIQUE (columns)`, perhaps named. -/
structure UniqueKey where
  columns : List String
  name : Option String := none
  deriving DecidableEq

/-- `FOREIGN KEY (column) REFERENCES target (key) ON DELETE CASCADE` -/
structure Reference where
  column : String
  target : String
  key : String
  deriving DecidableEq

/-- A table with its columns and constraints. -/
structure TableDef where
  columns : List ColumnDef
  primaryKey : String
  uniqueKeys : List UniqueKey := []
  references : List Reference := []
  deriving DecidableEq

/-- What a name in a schema stands for: tables and indexes share one space of names. -/
inductive Relation
  | table (definition : TableDef)
  | index (on : String) (columns : List String) (predicate : Option String)
  /-- The index of a named constraint. -/
  | constraintIndex (on : String)
  deriving DecidableEq

/-- A trigger that runs a function before every update of a row. -/
structure Trigger where
  name : String
  table : String
  function : String
  deriving DecidableEq

/-- The objects of a schema, by their names. -/
structure Schema where
  extensions : Finset String := ∅
  relations : List (String × Relation) := []
  /-- The functions with their bodies. -/
  functions : List (String × String) := []
  triggers : List Trigger := []
  deriving DecidableEq

namespace Schema

/-- The table that a relation is or belongs to. -/
def table? (s : Schema) (name : String) : Option TableDef :=
  match s.relations.lookup name with
  | some (.table definition) => some definition
  | _ => none

/-- A foreign key needs a key to refer to. -/
def hasKey (s : Schema) (r : Reference) : Bool :=
  match s.table? r.target with
  | some t => decide (t.primaryKey = r.key ∨ [r.key] ∈ t.uniqueKeys.map UniqueKey.columns)
  | none => false

/-- `CREATE TABLE` with this definition does not fail. -/
def accepts (s : Schema) (name : String) (t : TableDef) : Bool :=
  t.columns.all (fun c => decide (c.default = some .uuidGenerateV4 → "uuid-ossp" ∈ s.extensions)) &&
    t.references.all s.hasKey &&
    (t.uniqueKeys.filterMap UniqueKey.name).all fun constraint =>
      decide (constraint ≠ name) && (s.relations.lookup constraint).isNone

/-- The relations that come with a table. -/
def tableRelations (name : String) (t : TableDef) : List (String × Relation) :=
  (name, .table t) ::
    (t.uniqueKeys.filterMap UniqueKey.name).map fun constraint =>
      (constraint, .constraintIndex name)

/-- The relation is the table, or one of its indexes. -/
def belongsTo (name : String) : String × Relation → Bool
  | (n, .table _) => decide (n = name)
  | (_, .index on _ _) => decide (on = name)
  | (_, .constraintIndex on) => decide (on = name)

/-- The foreign keys of a relation. -/
def referencesOf : Relation → List Reference
  | .table t => t.references
  | _ => []

/-- Another table has a foreign key to the table. -/
def isReferenced (s : Schema) (name : String) : Bool :=
  s.relations.any fun r => decide (r.1 ≠ name) && (referencesOf r.2).any (·.target = name)

/-- The relation without its foreign keys to a table. -/
def withoutReferences (name : String) : Relation → Relation
  | .table t => .table { t with references := t.references.filter (·.target ≠ name) }
  | r => r

/-- Drops a table, its indexes, its triggers and the foreign keys to it. -/
def eraseTable (s : Schema) (name : String) : Schema :=
  { s with
    relations := (s.relations.filter (!belongsTo name ·)).map fun r =>
      (r.1, withoutReferences name r.2)
    triggers := s.triggers.filter (·.table ≠ name) }

end Schema

/-! ## Statements -/

/-- The statements that are used in scripts. -/
inductive Definition
  /-- `CREATE EXTENSION IF NOT EXISTS` -/
  | createExtension (name : String)
  /-- `CREATE TABLE IF NOT EXISTS` -/
  | createTable (name : String) (definition : TableDef)
  /-- `CREATE INDEX [IF NOT EXISTS]` -/
  | createIndex (ifNotExists : Bool) (name on : String) (columns : List String)
    (predicate : Option String)
  /-- `CREATE OR REPLACE FUNCTION` -/
  | replaceFunction (name body : String)
  /-- `CREATE TRIGGER`, perhaps only if no table has a trigger of the name. -/
  | createTrigger (ifNotExists : Bool) (trigger : Trigger)
  /-- `DROP TRIGGER IF EXISTS name ON table` -/
  | dropTrigger (name table : String)
  /-- `DROP FUNCTION IF EXISTS` -/
  | dropFunction (name : String)
  /-- `DROP TABLE IF EXISTS [CASCADE]` -/
  | dropTable (cascade : Bool) (name : String)
  /-- `DROP INDEX IF EXISTS` -/
  | dropIndex (name : String)

open Schema

/-- The schema after a statement, or `none` if it fails. -/
def define (s : Schema) : Definition → Option Schema
  | .createExtension name => some { s with extensions := insert name s.extensions }
  | .createTable name t =>
    if (s.relations.lookup name).isSome then some s
    else if s.accepts name t then
      some { s with relations := tableRelations name t ++ s.relations }
    else none
  | .createIndex ifNotExists name on columns predicate =>
    match s.table? on with
    | none => none
    | some t =>
      if columns.all fun c => decide (c ∈ t.columns.map ColumnDef.name) then
        if (s.relations.lookup name).isNone then
          some { s with relations := (name, .index on columns predicate) :: s.relations }
        else if ifNotExists then some s
        else none
      else none
  | .replaceFunction name body =>
    some { s with functions := (name, body) :: s.functions.filter (·.1 ≠ name) }
  | .createTrigger ifNotExists trigger =>
    if ifNotExists && s.triggers.any (·.name = trigger.name) then some s
    else if (s.table? trigger.table).isSome && (s.functions.lookup trigger.function).isSome &&
        !s.triggers.any (fun t => decide (t.name = trigger.name ∧ t.table = trigger.table)) then
      some { s with triggers := trigger :: s.triggers }
    else none
  | .dropTrigger name table =>
    some { s with triggers := s.triggers.filter fun t => decide ¬(t.name = name ∧ t.table = table) }
  | .dropFunction name =>
    if s.triggers.any (·.function = name) then none
    else some { s with functions := s.functions.filter (·.1 ≠ name) }
  | .dropTable cascade name =>
    match s.relations.lookup name with
    | none => some s
    | some (.table _) =>
      if !cascade && s.isReferenced name then none else some (s.eraseTable name)
    | some _ => none
  | .dropIndex name =>
    match s.relations.lookup name with
    | none => some s
    | some (.index ..) => some { s with relations := s.relations.filter (·.1 ≠ name) }
    | some _ => none

/-- The schema after a script, or `none` if a statement fails. -/
def defineAll (s : Schema) : List Definition → Option Schema
  | [] => some s
  | d :: rest => (define s d).bind (defineAll · rest)

/-! ## Names -/

namespace Schema

/-- The objects of both schemas; what the first has comes first. -/
def beside (s base : Schema) : Schema where
  extensions := s.extensions ∪ base.extensions
  relations := s.relations ++ base.relations
  functions := s.functions ++ base.functions
  triggers := s.triggers ++ base.triggers

/-- The names in a relation. -/
def relationNames : String × Relation → List String
  | (name, .table t) => name :: t.references.map Reference.target
  | (name, .index on _ _) => [name, on]
  | (name, .constraintIndex on) => [name, on]

/-- The names of a schema: those of its objects, and those to which its objects refer. -/
def names (s : Schema) : List String :=
  s.relations.flatMap relationNames ++ s.functions.map Prod.fst ++
    s.triggers.flatMap fun t => [t.name, t.table, t.function]

end Schema

/-- The names in a statement, apart from that of an extension. -/
def Definition.names : Definition → List String
  | .createExtension _ => []
  | .createTable name t =>
    name :: t.references.map Reference.target ++ t.uniqueKeys.filterMap UniqueKey.name
  | .createIndex _ name on _ _ => [name, on]
  | .replaceFunction name _ => [name]
  | .createTrigger _ t => [t.name, t.table, t.function]
  | .dropTrigger name table => [name, table]
  | .dropFunction name => [name]
  | .dropTable _ name => [name]
  | .dropIndex name => [name]

section Frame

variable {s s' base : Schema} {name : String}

/-- The triggers of a schema that does not use the name. -/
theorem trigger_of_not_mem (h : name ∉ base.names) {t : Trigger} (ht : t ∈ base.triggers) :
    t.name ≠ name ∧ t.table ≠ name ∧ t.function ≠ name := by
  simp only [Schema.names, List.mem_append, not_or] at h
  have hnone := List.mem_flatMap.not.mp h.2
  have hnot : name ∉ [t.name, t.table, t.function] := fun hmem => hnone ⟨t, ht, hmem⟩
  simp only [List.mem_cons, List.not_mem_nil, or_false, not_or] at hnot
  exact ⟨Ne.symm hnot.1, Ne.symm hnot.2.1, Ne.symm hnot.2.2⟩

private theorem function_of_not_mem (h : name ∉ base.names) {f : String × String}
    (hf : f ∈ base.functions) : f.1 ≠ name := by
  simp only [Schema.names, List.mem_append, not_or] at h
  rintro rfl
  exact h.1.2 (List.mem_map_of_mem hf)

private theorem relation_of_not_mem (h : name ∉ base.names) {r : String × Relation}
    (hr : r ∈ base.relations) : name ∉ relationNames r := by
  simp only [Schema.names, List.mem_append, not_or] at h
  exact fun hmem => h.1.1 (List.mem_flatMap.mpr ⟨r, hr, hmem⟩)

/-- A relation that does not use the name of a table is untouched when the table is dropped. -/
theorem erase_relation {r : String × Relation} (h : name ∉ relationNames r) :
    belongsTo name r = false ∧ r.1 ≠ name ∧ withoutReferences name r.2 = r.2 ∧
      ∀ x ∈ referencesOf r.2, x.target ≠ name := by
  obtain ⟨n, relation⟩ := r
  cases relation with
  | table t =>
    simp only [relationNames, List.mem_cons, not_or] at h
    have htargets : ∀ x ∈ t.references, x.target ≠ name := by
      rintro x hx rfl
      exact h.2 (List.mem_map_of_mem hx)
    refine ⟨decide_eq_false (Ne.symm h.1), Ne.symm h.1, ?_, htargets⟩
    have hall : t.references.filter (·.target ≠ name) = t.references :=
      List.filter_eq_self.mpr fun x hx => decide_eq_true (htargets x hx)
    simp only [withoutReferences, hall]
  | index on columns predicate =>
    simp only [relationNames, List.mem_cons, List.not_mem_nil, or_false, not_or] at h
    exact ⟨decide_eq_false (Ne.symm h.2), Ne.symm h.1, rfl, by simp [referencesOf]⟩
  | constraintIndex on =>
    simp only [relationNames, List.mem_cons, List.not_mem_nil, or_false, not_or] at h
    exact ⟨decide_eq_false (Ne.symm h.2), Ne.symm h.1, rfl, by simp [referencesOf]⟩

private theorem lookup_eq_none_of_not_mem (h : name ∉ base.names) :
    base.relations.lookup name = none ∧ base.functions.lookup name = none := by
  refine ⟨List.lookup_eq_none_iff.mpr fun r hr => ?_, List.lookup_eq_none_iff.mpr fun f hf => ?_⟩
  · exact bne_iff_ne.mpr (erase_relation (relation_of_not_mem h hr)).2.1.symm
  · exact bne_iff_ne.mpr (function_of_not_mem h hf).symm

private theorem lookup_beside (h : name ∉ base.names) :
    (s.beside base).relations.lookup name = s.relations.lookup name ∧
      (s.beside base).functions.lookup name = s.functions.lookup name := by
  obtain ⟨hrelations, hfunctions⟩ := lookup_eq_none_of_not_mem h
  constructor
  · rw [beside, List.lookup_append, hrelations, Option.or_none]
  · rw [beside, List.lookup_append, hfunctions, Option.or_none]

private theorem table?_beside (h : name ∉ base.names) :
    (s.beside base).table? name = s.table? name := by
  rw [Schema.table?, Schema.table?, (lookup_beside h).1]

/-- A schema accepts a table beside objects that the table does not name. -/
theorem accepts_beside {t : TableDef}
    (hnames : ∀ n ∈ (Definition.createTable name t).names, n ∉ base.names)
    (h : s.accepts name t = true) : (s.beside base).accepts name t = true := by
  simp only [Definition.names, List.mem_cons, List.mem_append] at hnames
  simp only [accepts, Bool.and_eq_true, List.all_eq_true] at h ⊢
  obtain ⟨⟨hcolumns, hreferences⟩, hkeys⟩ := h
  refine ⟨⟨fun c hc => ?_, fun r hr => ?_⟩, fun k hk => ?_⟩
  · have hdefault := of_decide_eq_true (hcolumns c hc)
    exact decide_eq_true fun huuid => Finset.mem_union_left _ (hdefault huuid)
  · have htarget : r.target ∉ base.names :=
      hnames r.target (.inl (.inr (List.mem_map_of_mem hr)))
    rw [hasKey, table?_beside htarget]
    exact hreferences r hr
  · rw [(lookup_beside (hnames k (.inr hk))).1]
    exact hkeys k hk

/-- What is filtered out of the objects of a schema leaves alone the objects beside them that do
not have the property. -/
theorem filter_append_of_none {α : Type*} {p : α → Bool} {l base : List α}
    (h : ∀ x ∈ base, p x = true) : (l ++ base).filter p = l.filter p ++ base := by
  rw [List.filter_append, List.filter_eq_self.mpr h]

private theorem any_append_of_none {α : Type*} {p : α → Bool} {l base : List α}
    (h : ∀ x ∈ base, ¬ p x = true) : (l ++ base).any p = l.any p := by
  rw [List.any_append, List.any_eq_false.mpr h, Bool.or_false]

private theorem eraseTable_beside (h : name ∉ base.names) :
    (s.beside base).eraseTable name = (s.eraseTable name).beside base := by
  have hrelations : ∀ r ∈ base.relations, (!belongsTo name r) = true := fun r hr => by
    rw [(erase_relation (relation_of_not_mem h hr)).1, Bool.not_false]
  have hmap : base.relations.map (fun r => (r.1, withoutReferences name r.2)) =
      base.relations := by
    refine (List.map_congr_left fun r hr => ?_).trans (List.map_id _)
    exact Prod.ext rfl (erase_relation (relation_of_not_mem h hr)).2.2.1
  have htriggers : ∀ t ∈ base.triggers, decide (t.table ≠ name) = true := fun t ht =>
    decide_eq_true (trigger_of_not_mem h ht).2.1
  simp only [eraseTable, beside, filter_append_of_none hrelations,
    filter_append_of_none htriggers, List.map_append, hmap]

private theorem isReferenced_beside (h : name ∉ base.names) :
    (s.beside base).isReferenced name = s.isReferenced name := by
  refine any_append_of_none fun r hr hp => ?_
  obtain ⟨-, -, -, htargets⟩ := erase_relation (relation_of_not_mem h hr)
  obtain ⟨-, hany⟩ := (Bool.and_eq_true _ _).mp hp
  obtain ⟨x, hx, htarget⟩ := List.any_eq_true.mp hany
  exact htargets x hx (of_decide_eq_true htarget)

/-- **One statement.** What it does to a schema it does beside objects that it does not name. -/
theorem define_beside {d : Definition} (hnames : ∀ n ∈ d.names, n ∉ base.names)
    (h : define s d = some s') : define (s.beside base) d = some (s'.beside base) := by
  have hfunctions : ∀ name ∈ d.names, (s.functions ++ base.functions).filter (·.1 ≠ name) =
      s.functions.filter (·.1 ≠ name) ++ base.functions := fun name hname =>
    filter_append_of_none fun f hf => decide_eq_true (function_of_not_mem (hnames name hname) hf)
  cases d with
  | createExtension name =>
    obtain rfl := Option.some.inj h
    simp only [define, beside, Finset.insert_union]
  | createTable name t =>
    have hlookup := (lookup_beside (s := s) (hnames name List.mem_cons_self)).1
    simp only [define, hlookup] at h ⊢
    split at h
    · next hold =>
      rw [if_pos hold]
      exact congrArg (some <| ·.beside base) (Option.some.inj h)
    · next hnew =>
      rw [if_neg hnew]
      split at h
      · next haccepts =>
        rw [if_pos (accepts_beside hnames haccepts)]
        obtain rfl := Option.some.inj h
        simp only [beside, List.append_assoc]
      · cases h
  | createIndex ifNotExists name on columns predicate =>
    have hlookup := (lookup_beside (s := s) (hnames name List.mem_cons_self)).1
    have htable : (s.beside base).table? on = s.table? on :=
      table?_beside (hnames on (List.mem_cons_of_mem _ List.mem_cons_self))
    simp only [define, hlookup, htable] at h ⊢
    cases hon : s.table? on with
    | none =>
      rw [hon] at h
      cases h
    | some t =>
      simp only [hon] at h ⊢
      split at h
      · next hcolumns =>
        rw [if_pos hcolumns]
        split at h
        · next hnew =>
          rw [if_pos hnew]
          obtain rfl := Option.some.inj h
          rfl
        · next hold =>
          rw [if_neg hold]
          split at h
          · next hexists =>
            rw [if_pos hexists]
            exact congrArg (some <| ·.beside base) (Option.some.inj h)
          · cases h
      · cases h
  | replaceFunction name body =>
    obtain rfl := Option.some.inj h
    simp only [define, beside, hfunctions name List.mem_cons_self, List.cons_append]
  | createTrigger ifNotExists t =>
    have hname := hnames t.name List.mem_cons_self
    have htable : (s.beside base).table? t.table = s.table? t.table :=
      table?_beside (hnames t.table (by simp [Definition.names]))
    have hfunction := (lookup_beside (s := s) (hnames t.function (by simp [Definition.names]))).2
    have hsame : (s.beside base).triggers.any (·.name = t.name) =
        s.triggers.any (·.name = t.name) :=
      any_append_of_none fun x hx h => (trigger_of_not_mem hname hx).1 (of_decide_eq_true h)
    have hboth : (s.beside base).triggers.any
          (fun x => decide (x.name = t.name ∧ x.table = t.table)) =
        s.triggers.any fun x => decide (x.name = t.name ∧ x.table = t.table) :=
      any_append_of_none fun x hx h => (trigger_of_not_mem hname hx).1 (of_decide_eq_true h).1
    simp only [define, htable, hfunction, hsame, hboth] at h ⊢
    split at h
    · next hold =>
      rw [if_pos hold]
      exact congrArg (some <| ·.beside base) (Option.some.inj h)
    · next hnew =>
      rw [if_neg hnew]
      split at h
      · next hfits =>
        rw [if_pos hfits]
        obtain rfl := Option.some.inj h
        rfl
      · cases h
  | dropTrigger name table =>
    obtain rfl := Option.some.inj h
    have htriggers : ∀ t ∈ base.triggers, decide (¬(t.name = name ∧ t.table = table)) = true :=
      fun t ht => decide_eq_true fun hboth =>
        (trigger_of_not_mem (hnames name List.mem_cons_self) ht).1 hboth.1
    simp only [define, beside, filter_append_of_none htriggers]
  | dropFunction name =>
    have hname := hnames name List.mem_cons_self
    have hused : (s.beside base).triggers.any (·.function = name) =
        s.triggers.any (·.function = name) :=
      any_append_of_none fun x hx h => (trigger_of_not_mem hname hx).2.2 (of_decide_eq_true h)
    simp only [define, hused] at h ⊢
    split at h
    · cases h
    · next hfree =>
      rw [if_neg hfree]
      obtain rfl := Option.some.inj h
      simp only [beside, hfunctions name List.mem_cons_self]
  | dropTable cascade name =>
    have hname := hnames name List.mem_cons_self
    simp only [define, (lookup_beside (s := s) hname).1, isReferenced_beside hname,
      eraseTable_beside hname] at h ⊢
    split at h
    · obtain rfl := Option.some.inj h
      rfl
    · split at h
      · cases h
      · next hfree =>
        rw [if_neg hfree]
        obtain rfl := Option.some.inj h
        rfl
    · cases h
  | dropIndex name =>
    have hname := hnames name List.mem_cons_self
    have hrelations : ∀ r ∈ base.relations, decide (r.1 ≠ name) = true := fun r hr =>
      decide_eq_true (erase_relation (relation_of_not_mem hname hr)).2.1
    simp only [define, (lookup_beside (s := s) hname).1] at h ⊢
    split at h
    · obtain rfl := Option.some.inj h
      rfl
    · obtain rfl := Option.some.inj h
      simp only [beside, filter_append_of_none hrelations]
    · cases h

/-- **Scripts are local.** What a script does to a schema it does beside objects that it does not
name. -/
theorem defineAll_beside {script : List Definition}
    (hnames : ∀ d ∈ script, ∀ n ∈ d.names, n ∉ base.names) (h : defineAll s script = some s') :
    defineAll (s.beside base) script = some (s'.beside base) := by
  induction script generalizing s with
  | nil => exact congrArg (some <| ·.beside base) (Option.some.inj h)
  | cons d script ih =>
    obtain ⟨hd, hscript⟩ := List.forall_mem_cons.mp hnames
    obtain ⟨s₁, hfirst, hrest⟩ := Option.bind_eq_some_iff.mp h
    rw [defineAll, define_beside hd hfirst, Option.bind_some]
    exact ih hscript hrest

end Frame

end Relational
