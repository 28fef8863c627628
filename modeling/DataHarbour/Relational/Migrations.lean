import DataHarbour.Machine.Runs
import DataHarbour.Relational.Schemas

/-!
# Chains of migrations

A database records the revision it is at. A migration leads from one revision to the next by a
script and back by another; either takes place in a transaction, so that a script that fails
leaves the database as it is.

If every script of a chain leads from the objects of one revision to those of the next and back, in
a schema that holds nothing else, then in any schema that does not use their names no script ever
fails, and the objects of the recorded revision are there, whatever way led to it.
-/

namespace Relational

open Machine

/-- A revision with the definitions that lead to it and back. -/
structure Migration where
  revision : String
  /-- The revision before. -/
  downRevision : Option String
  upgrade : List Definition
  downgrade : List Definition

/-- A schema with the revision that is recorded in it; `none` before the first one. -/
structure Database where
  schema : Schema
  revision : Option String
  deriving DecidableEq

/-- To the next revision, or back to the one before. -/
inductive Move
  | upgrade
  | downgrade
  deriving DecidableEq

/-- The migration from the recorded revision, its script and the revision that it leads to. -/
def nextMove (migrations : List Migration) (revision : Option String) :
    Move → Option (List Definition × Option String)
  | .upgrade => (migrations.find? (·.downRevision = revision)).map fun m =>
    (m.upgrade, some m.revision)
  | .downgrade => (migrations.find? (some ·.revision = revision)).map fun m =>
    (m.downgrade, m.downRevision)

/-- The database after a move; it stays as it is at the end of the chain and when a script
fails. -/
def migrate (migrations : List Migration) (d : Database) (move : Move) : Database :=
  match nextMove migrations d.revision move with
  | none => d
  | some (script, revision) =>
    match defineAll d.schema script with
    | none => d
    | some schema => ⟨schema, revision⟩

/-- The revision after a move that does not fail. -/
def moveRevision (migrations : List Migration) (revision : Option String) (move : Move) :
    Option String :=
  ((nextMove migrations revision move).map Prod.snd).getD revision

/-- The names in the scripts of the migrations. -/
def migrationNames (migrations : List Migration) : List String :=
  migrations.flatMap fun m => (m.upgrade ++ m.downgrade).flatMap Definition.names

/-- The scripts lead from the objects of one revision to those of the next, and back. -/
structure Reversible (migrations : List Migration) (objects : Option String → Schema) : Prop where
  upgrade : ∀ m ∈ migrations,
    defineAll (objects m.downRevision) m.upgrade = some (objects (some m.revision))
  downgrade : ∀ m ∈ migrations,
    defineAll (objects (some m.revision)) m.downgrade = some (objects m.downRevision)

variable {migrations : List Migration} {objects : Option String → Schema} {base : Schema}

/-- A move along reversible migrations defines exactly the objects of the revision it ends in. -/
theorem Reversible.nextMove (h : Reversible migrations objects) {revision next : Option String}
    {move : Move} {script : List Definition}
    (hmove : nextMove migrations revision move = some (script, next)) :
    defineAll (objects revision) script = some (objects next) ∧
      ∀ d ∈ script, ∀ n ∈ d.names, n ∈ migrationNames migrations := by
  have hnames : ∀ m ∈ migrations, ∀ d ∈ m.upgrade ++ m.downgrade, ∀ n ∈ d.names,
      n ∈ migrationNames migrations := fun m hm d hd n hn =>
    List.mem_flatMap.mpr ⟨m, hm, List.mem_flatMap.mpr ⟨d, hd, hn⟩⟩
  cases move with
  | upgrade =>
    obtain ⟨m, hm, heq⟩ := Option.map_eq_some_iff.mp hmove
    obtain ⟨rfl, rfl⟩ := Prod.mk.inj heq
    have hmem := List.mem_of_find?_eq_some hm
    have hdown : m.downRevision = revision := by simpa using List.find?_some hm
    exact ⟨hdown ▸ h.upgrade m hmem,
      fun d hd => hnames m hmem d (List.mem_append_left _ hd)⟩
  | downgrade =>
    obtain ⟨m, hm, heq⟩ := Option.map_eq_some_iff.mp hmove
    obtain ⟨rfl, rfl⟩ := Prod.mk.inj heq
    have hmem := List.mem_of_find?_eq_some hm
    have hrevision : some m.revision = revision := by simpa using List.find?_some hm
    exact ⟨hrevision ▸ h.downgrade m hmem,
      fun d hd => hnames m hmem d (List.mem_append_right _ hd)⟩

/-- **One move.** No script fails, and the objects of the new revision are there. -/
theorem Reversible.migrate (h : Reversible migrations objects)
    (hfree : ∀ n ∈ migrationNames migrations, n ∉ base.names) (revision : Option String)
    (move : Move) :
    Relational.migrate migrations ⟨(objects revision).beside base, revision⟩ move =
      ⟨(objects (moveRevision migrations revision move)).beside base,
        moveRevision migrations revision move⟩ := by
  unfold Relational.migrate moveRevision
  cases hmove : Relational.nextMove migrations revision move with
  | none => rfl
  | some answer =>
    obtain ⟨script, next⟩ := answer
    obtain ⟨hscript, hnames⟩ := h.nextMove hmove
    have hbeside : defineAll ((objects revision).beside base) script =
        some ((objects next).beside base) :=
      defineAll_beside (fun d hd n hn => hfree n (hnames d hd n hn)) hscript
    simp only [hbeside]
    rfl

/-- **Any way through the chain** leads to the objects of the revision that it leads to. -/
theorem Reversible.run (h : Reversible migrations objects)
    (hfree : ∀ n ∈ migrationNames migrations, n ∉ base.names) (revision : Option String)
    (moves : List Move) :
    Machine.run (Relational.migrate migrations) ⟨(objects revision).beside base, revision⟩ moves =
      ⟨(objects (Machine.run (moveRevision migrations) revision moves)).beside base,
        Machine.run (moveRevision migrations) revision moves⟩ := by
  induction moves generalizing revision with
  | nil => rfl
  | cons move moves ih => rw [run_cons, run_cons, h.migrate hfree, ih]

end Relational
