import Mathlib.Logic.Function.Basic
import DataHarbour.Machine.LockOrders
import DataHarbour.Machine.Runs

/-!
# Two transactions under strict two-phase locking

A transaction reads the committed data once, runs the statements that follow from what it has
read, and commits. A statement may take a lock, which its transaction keeps to the end; it waits
while the other transaction holds the lock, and when both wait one of them is aborted.

Nothing fails in a pair whose statements succeed on the data at the start and on the data after
the other commit, with the old view and with a new one, and whose first shared lock is the same
for both.
-/

namespace Locking

/-! ## The machine -/

/-- A transaction that decides on its statements by what it reads first. -/
structure Transaction (δ ρ σ κ : Type*) where
  /-- What it reads of the committed data. -/
  read : δ → ρ
  /-- The statements that follow. -/
  statements : ρ → List σ
  /-- The lock that a statement takes. -/
  lock : σ → Option κ
  /-- Whether a statement succeeds on the committed data. -/
  succeeds : ρ → δ → σ → Bool
  /-- What its commit makes of the committed data. -/
  commit : ρ → δ → δ

/-- How far a transaction has come. -/
inductive Phase (ρ σ : Type*) where
  | idle
  | running (view : ρ) (done todo : List σ)
  | committed
  | failed

/-- The two transactions. -/
inductive Side where
  | left
  | right
  deriving DecidableEq

/-- The other transaction. -/
def Side.other : Side → Side
  | .left => .right
  | .right => .left

/-- There are two sides. -/
@[simp] theorem Side.other_other (side : Side) : side.other.other = side := by cases side <;> rfl

/-- A side is not its own opponent. -/
theorem Side.other_ne (side : Side) : side.other ≠ side := by cases side <;> decide

/-- Every side is the given one or the other one. -/
theorem Side.eq_or_eq_other (side side' : Side) : side' = side ∨ side' = side.other := by
  cases side <;> cases side' <;> decide

/-- A property of both sides, split at a given side. -/
theorem Side.forall_iff (side : Side) {P : Side → Prop} :
    (∀ side', P side') ↔ P side ∧ P side.other := by
  constructor
  · exact fun h => ⟨h side, h side.other⟩
  · rintro ⟨hself, hother⟩ side'
    rcases side.eq_or_eq_other side' with rfl | rfl
    · exact hself
    · exact hother

/-- The committed data, and both transactions. -/
structure State (δ ρ σ : Type*) where
  db : δ
  phase : Side → Phase ρ σ

/-- A step of one transaction, or the end of a cycle of waits. -/
inductive Action where
  | advance (side : Side)
  | abort (side : Side)

section Machine

variable {δ ρ σ κ : Type*}

/-- The state with one transaction in another phase. -/
def State.enter (s : State δ ρ σ) (side : Side) (phase : Phase ρ σ) : State δ ρ σ :=
  { s with phase := Function.update s.phase side phase }

/-- The state after a commit that leaves the given data. -/
def State.commit (s : State δ ρ σ) (side : Side) (db : δ) : State δ ρ σ :=
  ⟨db, Function.update s.phase side .committed⟩

/-- Entering a phase leaves the database. -/
@[simp] theorem State.db_enter (s : State δ ρ σ) (side : Side) (phase : Phase ρ σ) :
    (s.enter side phase).db = s.db := rfl

/-- A side is in the phase it enters. -/
@[simp] theorem State.phase_enter_self (s : State δ ρ σ) (side : Side) (phase : Phase ρ σ) :
    (s.enter side phase).phase side = phase :=
  Function.update_self ..

/-- Entering a phase leaves the other side's. -/
@[simp] theorem State.phase_enter_other (s : State δ ρ σ) (side : Side) (phase : Phase ρ σ) :
    (s.enter side phase).phase side.other = s.phase side.other :=
  Function.update_of_ne side.other_ne ..

/-- Before both transactions. -/
def State.initial (db : δ) : State δ ρ σ := ⟨db, fun _ => .idle⟩

/-- A side that commits is committed. -/
@[simp] theorem State.phase_commit_self (s : State δ ρ σ) (side : Side) (db : δ) :
    (s.commit side db).phase side = .committed :=
  Function.update_self ..

/-- A commit leaves the other side's phase. -/
@[simp] theorem State.phase_commit_other (s : State δ ρ σ) (side : Side) (db : δ) :
    (s.commit side db).phase side.other = s.phase side.other :=
  Function.update_of_ne side.other_ne ..

/-- A commit forgets the phase the side was in. -/
@[simp] theorem State.commit_enter (s : State δ ρ σ) (side : Side) (phase : Phase ρ σ) (db : δ) :
    (s.enter side phase).commit side db = s.commit side db :=
  congrArg (State.mk db) (Function.update_idem ..)

variable {T : Side → Transaction δ ρ σ κ} {db : δ} {s s' : State δ ρ σ} {side : Side}

/-- The locks of a transaction that has not ended. -/
def held (T : Side → Transaction δ ρ σ κ) (s : State δ ρ σ) (side : Side) : List κ :=
  match s.phase side with
  | .running _ done _ => done.filterMap (T side).lock
  | _ => []

/-- A running transaction holds the locks of the statements it has done. -/
theorem held_of_running {view : ρ} {done todo : List σ}
    (h : s.phase side = .running view done todo) :
    held T s side = done.filterMap (T side).lock := by
  rw [held, h]

/-- A side that enters a phase leaves the other side's locks. -/
@[simp] theorem held_enter_other (phase : Phase ρ σ) :
    held T (s.enter side phase) side.other = held T s side.other := by
  rw [held, held, State.phase_enter_other]

/-- A commit releases every lock of its side. -/
@[simp] theorem held_commit_self (db : δ) : held T (s.commit side db) side = [] := by
  rw [held, State.phase_commit_self]

/-- Entering the phase a side is already in changes nothing. -/
theorem State.enter_of_phase {phase : Phase ρ σ} (h : s.phase side = phase) :
    s.enter side phase = s := by
  subst h
  exact congrArg (State.mk s.db) (Function.update_eq_self ..)

/-- Of two phases entered in a row the second stays. -/
@[simp] theorem State.enter_enter (s : State δ ρ σ) (side : Side) (phase phase' : Phase ρ σ) :
    (s.enter side phase).enter side phase' = s.enter side phase' :=
  congrArg (State.mk s.db) (Function.update_idem ..)

private theorem not_committed_of_running {view : ρ} {done todo : List σ}
    (h : s.phase side = .running view done todo) : s.phase side ≠ .committed := by
  rw [h]
  intro heq
  cases heq

variable [DecidableEq κ]

section Definitions

variable (T)

/-- The next statement needs a lock that the other transaction holds. -/
def waits (s : State δ ρ σ) (side : Side) : Bool :=
  match s.phase side with
  | .running _ _ (st :: _) => ((T side).lock st).any (· ∈ held T s side.other)
  | _ => false

/-- The next step of a transaction: its read, a statement, or its commit. -/
def advance (s : State δ ρ σ) (side : Side) : State δ ρ σ :=
  match s.phase side with
  | .idle =>
    s.enter side (.running ((T side).read s.db) [] ((T side).statements ((T side).read s.db)))
  | .running view done (st :: todo) =>
    if waits T s side then s
    else if (T side).succeeds view s.db st then s.enter side (.running view (done ++ [st]) todo)
    else s.enter side .failed
  | .running view _ [] => s.commit side ((T side).commit view s.db)
  | .committed | .failed => s

/-- One action: a side advances, or the database aborts one side of a deadlock. -/
def step (s : State δ ρ σ) : Action → State δ ρ σ
  | .advance side => advance T s side
  | .abort side => if waits T s .left && waits T s .right then s.enter side .failed else s

/-- Both transactions have ended. -/
def Complete (s : State δ ρ σ) : Prop := ∀ side, s.phase side = .committed ∨ s.phase side = .failed

end Definitions

/-! ## What a step does -/

/-- A step that changes the state. -/
inductive Stepped (T : Side → Transaction δ ρ σ κ) (s : State δ ρ σ) : State δ ρ σ → Prop
  | began {side : Side} (hphase : s.phase side = .idle) : Stepped T s
    (s.enter side (.running ((T side).read s.db) [] ((T side).statements ((T side).read s.db))))
  | executed {side : Side} {view : ρ} {done todo : List σ} {st : σ}
    (hphase : s.phase side = .running view done (st :: todo)) (hfree : waits T s side = false)
    (hsucceeds : (T side).succeeds view s.db st = true) :
    Stepped T s (s.enter side (.running view (done ++ [st]) todo))
  | refused {side : Side} {view : ρ} {done todo : List σ} {st : σ}
    (hphase : s.phase side = .running view done (st :: todo))
    (hrefused : (T side).succeeds view s.db st = false) : Stepped T s (s.enter side .failed)
  | ended {side : Side} {view : ρ} {done : List σ} (hphase : s.phase side = .running view done []) :
    Stepped T s (s.commit side ((T side).commit view s.db))
  | aborted {side : Side} (hwaits : ∀ side, waits T s side = true) :
    Stepped T s (s.enter side .failed)

/-- What an action can do: nothing, or one of the moves of `Stepped`. -/
theorem step_cases (T : Side → Transaction δ ρ σ κ) (s : State δ ρ σ) (a : Action) :
    step T s a = s ∨ Stepped T s (step T s a) := by
  cases a with
  | advance side =>
    rw [step, advance]
    split
    · next hphase => exact .inr (.began hphase)
    · next view done st todo hphase =>
      split
      · exact .inl rfl
      · next hfree =>
        split
        · next hsucceeds => exact .inr (.executed hphase (by simpa using hfree) hsucceeds)
        · next hrefused => exact .inr (.refused hphase (by simpa using hrefused))
    · next hphase => exact .inr (.ended hphase)
    · exact .inl rfl
    · exact .inl rfl
  | abort side =>
    rw [step]
    split
    · next hwaits =>
      rw [Bool.and_eq_true] at hwaits
      refine .inr (.aborted fun side => ?_)
      cases side
      · exact hwaits.1
      · exact hwaits.2
    · exact .inl rfl

/-- A running side waits exactly when its next statement asks for a lock that the other side holds.
-/
theorem waits_iff {view : ρ} {done todo : List σ} {st : σ}
    (h : s.phase side = .running view done (st :: todo)) :
    waits T s side = true ↔ ∃ k ∈ held T s side.other, (T side).lock st = some k := by
  simp only [waits, h]
  cases hlock : (T side).lock st <;> simp

/-- Only a running side with a statement left waits. -/
theorem running_of_waits (h : waits T s side = true) :
    ∃ view done st todo, s.phase side = .running view done (st :: todo) := by
  unfold waits at h
  split at h
  · next view done st todo hphase => exact ⟨view, done, st, todo, hphase⟩
  · cases h

/-! ## What makes a pair of transactions harmless -/

section Conditions

variable (T)

/-- The committed data after one of the transactions alone. -/
def after (db : δ) (side : Side) : δ := (T side).commit ((T side).read db) db

/-- The locks of a transaction, in the order in which it takes them. -/
def locks (db : δ) (side : Side) : List κ :=
  ((T side).statements ((T side).read db)).filterMap (T side).lock

/-- All statements that follow from a view succeed on the committed data. -/
def AllSucceed (side : Side) (view : ρ) (db : δ) : Prop :=
  ∀ st ∈ (T side).statements view, (T side).succeeds view db st = true

/-- No statement can fail, and the first shared lock is the same for both. -/
structure Harmless (db : δ) : Prop where
  fresh : ∀ side, AllSucceed T side ((T side).read db) db
  stale : ∀ side, AllSucceed T side ((T side).read db) (after T db side.other)
  later : ∀ side, AllSucceed T side ((T side).read (after T db side.other))
    (after T db side.other)
  order : firstShared (locks T db .left) (locks T db .right) =
    firstShared (locks T db .right) (locks T db .left)

/-- What holds of one transaction as long as nothing has failed. -/
structure SideSound (db : δ) (s : State δ ρ σ) (side : Side) : Prop where
  notFailed : s.phase side ≠ .failed
  statements : ∀ view done todo, s.phase side = .running view done todo →
    (T side).statements view = done ++ todo
  view : ∀ view done todo, s.phase side = .running view done todo →
    view = (T side).read db ∨
      s.phase side.other = .committed ∧ view = (T side).read (after T db side.other)
  untouched : s.phase side ≠ .committed → s.phase side.other ≠ .committed → s.db = db
  first : s.phase side = .committed → s.phase side.other ≠ .committed → s.db = after T db side

/-- What holds as long as nothing has failed. -/
structure Sound (db : δ) (s : State δ ρ σ) : Prop where
  sides : ∀ side, SideSound T db s side
  disjoint : ∀ side, ∀ k ∈ held T s side, k ∉ held T s side.other

end Conditions

omit [DecidableEq κ] in
private theorem sound_initial (T : Side → Transaction δ ρ σ κ) (db : δ) :
    Sound T db (State.initial db) where
  sides side := {
    notFailed := fun h => by cases h
    statements := fun _ _ _ h => by cases h
    view := fun _ _ _ h => by cases h
    untouched := fun _ _ => rfl
    first := fun h => by cases h }
  disjoint _ _ h := by cases h

omit [DecidableEq κ] in
/-- The data that a transaction works on: those at the start, or those after the other one. -/
theorem Sound.db_cases (hsound : Sound T db s) (hopen : s.phase side ≠ .committed) :
    s.phase side.other ≠ .committed ∧ s.db = db ∨
      s.phase side.other = .committed ∧ s.db = after T db side.other := by
  by_cases hother : s.phase side.other = .committed
  · exact .inr ⟨hother, (hsound.sides side.other).first hother (by rwa [Side.other_other])⟩
  · exact .inl ⟨hother, (hsound.sides side).untouched hopen hother⟩

/-- The statements of a running transaction succeed. -/
theorem Sound.succeeds (hsound : Sound T db s) (h : Harmless T db) {view : ρ}
    {done todo : List σ} {st : σ} (hphase : s.phase side = .running view done (st :: todo)) :
    (T side).succeeds view s.db st = true := by
  have hmem : st ∈ (T side).statements view := by
    rw [(hsound.sides side).statements view done _ hphase]
    simp
  have hview := (hsound.sides side).view view done _ hphase
  rcases hsound.db_cases (not_committed_of_running hphase) with ⟨hother, hdb⟩ | ⟨hother, hdb⟩
  · rw [hdb]
    rcases hview with rfl | ⟨hcommitted, -⟩
    · exact h.fresh side st hmem
    · exact absurd hcommitted hother
  · rw [hdb]
    rcases hview with rfl | ⟨-, rfl⟩
    · exact h.stale side st hmem
    · exact h.later side st hmem

/-- What a waiting transaction holds and waits for. -/
theorem Sound.locks_of_waits (hsound : Sound T db s) (hwaits : waits T s side = true)
    (hother : s.phase side.other ≠ .committed) :
    ∃ k rest, locks T db side = held T s side ++ k :: rest ∧ k ∈ held T s side.other := by
  obtain ⟨view, done, st, todo, hphase⟩ := running_of_waits hwaits
  obtain ⟨k, hk, hlock⟩ := (waits_iff hphase).mp hwaits
  refine ⟨k, todo.filterMap (T side).lock, ?_, hk⟩
  rcases (hsound.sides side).view view done _ hphase with rfl | ⟨hcommitted, -⟩
  · rw [locks, (hsound.sides side).statements _ done _ hphase, held_of_running hphase,
      List.filterMap_append, List.filterMap_cons_some hlock]
  · exact absurd hcommitted hother

/-- Two harmless transactions never deadlock. -/
theorem Sound.not_both_wait (hsound : Sound T db s) (h : Harmless T db) :
    ¬ ∀ side, waits T s side = true := by
  intro hwaits
  have hrunning (side : Side) : s.phase side ≠ .committed := by
    obtain ⟨view, done, st, todo, hphase⟩ := running_of_waits (hwaits side)
    exact not_committed_of_running hphase
  obtain ⟨k, rest, hleft, hk⟩ := hsound.locks_of_waits (hwaits .left) (hrunning .right)
  obtain ⟨k', rest', hright, hk'⟩ := hsound.locks_of_waits (hwaits .right) (hrunning .left)
  have horder := h.order
  rw [hleft, hright] at horder
  exact firstShared_ne_of_cycle hk hk' (hsound.disjoint .left) horder

omit [DecidableEq κ] in
/-- A transaction sees nothing of the other one before that commits. -/
theorem SideSound.of_other (h : SideSound T db s side) (hphase : s'.phase side = s.phase side)
    (hbefore : s.phase side.other ≠ .committed)
    (hdb : s'.phase side.other ≠ .committed → s'.db = s.db) : SideSound T db s' side where
  notFailed := hphase ▸ h.notFailed
  statements := hphase ▸ h.statements
  view view done todo hrunning := by
    rw [hphase] at hrunning
    exact .inl ((h.view view done todo hrunning).resolve_right fun hother => hbefore hother.1)
  untouched hopen hother := (hdb hother).trans (h.untouched (hphase ▸ hopen) hbefore)
  first hcommitted hother := (hdb hother).trans (h.first (hphase ▸ hcommitted) hbefore)

omit [DecidableEq κ] in
/-- A transaction may begin, or take locks that the other one does not hold. -/
theorem Sound.enter_running (hsound : Sound T db s) {view : ρ} {done todo : List σ}
    (hstatements : (T side).statements view = done ++ todo)
    (hview : view = (T side).read db ∨
      s.phase side.other = .committed ∧ view = (T side).read (after T db side.other))
    (hopen : s.phase side ≠ .committed)
    (hfree : ∀ k ∈ done.filterMap (T side).lock, k ∉ held T s side.other) :
    Sound T db (s.enter side (.running view done todo)) := by
  have hself : (s.enter side (.running view done todo)).phase side = .running view done todo :=
    State.phase_enter_self ..
  have hother : (s.enter side (.running view done todo)).phase side.other = s.phase side.other :=
    State.phase_enter_other ..
  have hheld : held T (s.enter side (.running view done todo)) side =
      done.filterMap (T side).lock := held_of_running hself
  refine ⟨side.forall_iff.mpr ⟨?_, ?_⟩, side.forall_iff.mpr ⟨?_, ?_⟩⟩
  · refine ⟨?_, ?_, ?_, fun _ hrest => ?_, fun hcommitted => ?_⟩
    · rw [hself]
      intro heq
      cases heq
    · rw [hself]
      rintro _ _ _ heq
      obtain ⟨rfl, rfl, rfl⟩ := Phase.running.inj heq
      exact hstatements
    · rw [hself, hother]
      rintro _ _ _ heq
      obtain ⟨rfl, rfl, rfl⟩ := Phase.running.inj heq
      exact hview
    · exact (hsound.sides side).untouched hopen (hother ▸ hrest)
    · exact absurd hcommitted (not_committed_of_running hself)
  · exact (hsound.sides side.other).of_other hother (by rwa [Side.other_other]) fun _ => rfl
  · rw [hheld, held_enter_other]
    exact hfree
  · rw [Side.other_other, hheld, held_enter_other]
    exact fun k hk hk' => hfree k hk' hk

omit [DecidableEq κ] in
/-- A side at its last statement commits into a sound state. -/
theorem Sound.ended (hsound : Sound T db s) {view : ρ} {done : List σ}
    (hphase : s.phase side = .running view done []) :
    Sound T db (s.commit side ((T side).commit view s.db)) := by
  have hself := s.phase_commit_self side ((T side).commit view s.db)
  have hother := s.phase_commit_other side ((T side).commit view s.db)
  have hopen : s.phase side ≠ .committed := not_committed_of_running hphase
  refine ⟨side.forall_iff.mpr ⟨?_, ?_⟩, side.forall_iff.mpr ⟨?_, ?_⟩⟩
  · refine ⟨?_, ?_, ?_, fun hnot => absurd hself hnot, fun _ hrest => ?_⟩
    · rw [hself]
      intro heq
      cases heq
    · rw [hself]
      intro _ _ _ heq
      cases heq
    · rw [hself]
      intro _ _ _ heq
      cases heq
    · rw [hother] at hrest
      have hdb : s.db = db := (hsound.sides side).untouched hopen hrest
      rcases (hsound.sides side).view view done [] hphase with rfl | ⟨hcommitted, -⟩
      · exact congrArg ((T side).commit _) hdb
      · exact absurd hcommitted hrest
  · refine (hsound.sides side.other).of_other hother (by rwa [Side.other_other]) fun hnot => ?_
    rw [Side.other_other] at hnot
    exact absurd hself hnot
  · rw [held_commit_self]
    intro k hk
    cases hk
  · rw [Side.other_other, held_commit_self]
    intro k _ hk
    cases hk

/-- Nothing fails in a harmless pair. -/
theorem Sound.stepped (hsound : Sound T db s) (h : Harmless T db) (hstep : Stepped T s s') :
    Sound T db s' := by
  cases hstep with
  | @began side hphase =>
    have hopen : s.phase side ≠ .committed := by
      rw [hphase]
      intro heq
      cases heq
    refine hsound.enter_running rfl ?_ hopen (fun k hk => by cases hk)
    rcases hsound.db_cases hopen with ⟨-, hdb⟩ | ⟨hother, hdb⟩
    · exact .inl (by rw [hdb])
    · exact .inr ⟨hother, by rw [hdb]⟩
  | @executed side view done todo st hphase hfree hsucceeds =>
    have hstatements : (T side).statements view = (done ++ [st]) ++ todo := by
      rw [(hsound.sides side).statements view done _ hphase, List.append_assoc,
        List.singleton_append]
    refine hsound.enter_running hstatements ((hsound.sides side).view view done _ hphase)
      (not_committed_of_running hphase) fun k hk hheld => ?_
    rw [List.filterMap_append, List.mem_append] at hk
    rcases hk with hk | hk
    · exact hsound.disjoint side k (held_of_running hphase ▸ hk) hheld
    · have hlock : (T side).lock st = some k := by simpa using hk
      have hwaits := (waits_iff hphase).mpr ⟨k, hheld, hlock⟩
      rw [hfree] at hwaits
      cases hwaits
  | @refused side view done todo st hphase hrefused =>
    rw [hsound.succeeds h hphase] at hrefused
    cases hrefused
  | ended hphase => exact hsound.ended hphase
  | aborted hwaits => exact absurd hwaits (hsound.not_both_wait h)

/-- Every run of a harmless pair stays sound. -/
theorem Harmless.sound (h : Harmless T db) (actions : List Action) :
    Sound T db (Machine.run (step T) (State.initial db) actions) := by
  have hinv : Machine.Invariant (step T) (Sound T db) := by
    intro s a hsound
    rcases step_cases T s a with hsame | hstep
    · rw [hsame]
      exact hsound
    · exact hsound.stepped h hstep
  exact hinv.run (sound_initial T db) actions

end Machine

end Locking
