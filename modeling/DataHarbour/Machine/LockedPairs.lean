import DataHarbour.Machine.Locking

/-!
# When no transaction is lost

The conditions under which nothing fails in a pair of transactions are necessary: for each of
them there is a run that fails without it. Every run can be completed, so that a failure shows
in a complete run.
-/

namespace Locking

variable {δ ρ σ κ : Type*} {T : Side → Transaction δ ρ σ κ} {db : δ} {s s' : State δ ρ σ}
  {side : Side}

section Machine

variable [DecidableEq κ]

/-! ## What a pair of transactions needs -/

/-- From the state on, nothing can fail. -/
def Safe (T : Side → Transaction δ ρ σ κ) (s : State δ ρ σ) : Prop :=
  ∀ s', Machine.Reaches (step T) s s' → ∀ side, s'.phase side ≠ .failed

/-- A pair that is safe stays safe along every run. -/
theorem Safe.of_reaches (h : Safe T s) (hreach : Machine.Reaches (step T) s s') : Safe T s' :=
  fun _ hreach' => h _ (hreach.trans hreach')

private theorem reaches_began (T : Side → Transaction δ ρ σ κ) (h : s.phase side = .idle) :
    Machine.Reaches (step T) s (s.enter side
      (.running ((T side).read s.db) [] ((T side).statements ((T side).read s.db)))) :=
  .of_step (.advance side) (by rw [step, advance, h])

/-- A transaction gets through statements for whose locks it need not wait. -/
theorem Safe.executed (h : Safe T s) {view : ρ} {done pre todo : List σ}
    (hphase : s.phase side = .running view done (pre ++ todo))
    (hfree : ∀ k ∈ pre.filterMap (T side).lock, k ∉ held T s side.other) :
    (∀ st ∈ pre, (T side).succeeds view s.db st = true) ∧
      Machine.Reaches (step T) s (s.enter side (.running view (done ++ pre) todo)) := by
  induction pre generalizing s done with
  | nil =>
    have hsame : s.enter side (.running view done todo) = s := State.enter_of_phase hphase
    rw [List.append_nil, hsame]
    exact ⟨by simp, .refl s⟩
  | cons st pre ih =>
    have hwaits : waits T s side = false := by
      rw [Bool.eq_false_iff, ne_eq, waits_iff hphase]
      rintro ⟨k, hk, hlock⟩
      exact hfree k (by simp [hlock]) hk
    have hstep : step T s (.advance side) = if (T side).succeeds view s.db st = true then
        s.enter side (.running view (done ++ [st]) (pre ++ todo)) else s.enter side .failed := by
      simp only [step, advance, hphase, List.cons_append, hwaits, Bool.false_eq_true, if_false]
    have hsucceeds : (T side).succeeds view s.db st = true := by
      by_contra hrefused
      rw [if_neg hrefused] at hstep
      exact h _ (.of_step _ hstep) side (State.phase_enter_self ..)
    rw [if_pos hsucceeds] at hstep
    have hreach := Machine.Reaches.of_step _ hstep
    obtain ⟨hrest, hreach'⟩ := ih (h.of_reaches hreach) (State.phase_enter_self ..) (by
      intro k hk
      rw [held_enter_other]
      refine hfree k ?_
      rw [← List.singleton_append, List.filterMap_append]
      exact List.mem_append_right _ hk)
    rw [State.enter_enter, List.append_assoc, List.singleton_append] at hreach'
    refine ⟨fun st' hst' => ?_, hreach.trans hreach'⟩
    rcases List.mem_cons.mp hst' with rfl | hst'
    · exact hsucceeds
    · exact hrest st' hst'

/-- A transaction gets to its commit if the other one holds no locks. -/
theorem Safe.ended (h : Safe T s) {view : ρ} {done todo : List σ}
    (hphase : s.phase side = .running view done todo) (hfree : held T s side.other = []) :
    (∀ st ∈ todo, (T side).succeeds view s.db st = true) ∧ Machine.Reaches (step T) s
      (s.commit side ((T side).commit view s.db)) := by
  have hphase' : s.phase side = .running view done (todo ++ []) := by rw [List.append_nil, hphase]
  obtain ⟨hsucceed, hreach⟩ := h.executed hphase' (by simp [hfree])
  refine ⟨hsucceed, hreach.trans (.of_step (.advance side) ?_)⟩
  simp only [step, advance, State.phase_enter_self, State.commit_enter, State.db_enter]

/-- A transaction that runs while the other one holds no locks. -/
theorem Safe.alone (h : Safe T s) (hphase : s.phase side = .idle)
    (hfree : held T s side.other = []) :
    AllSucceed T side ((T side).read s.db) s.db ∧ Machine.Reaches (step T) s
      (s.commit side (after T s.db side)) := by
  have hbegan := reaches_began T hphase
  obtain ⟨hsucceed, hreach⟩ := (h.of_reaches hbegan).ended (State.phase_enter_self ..)
    (by rw [held_enter_other, hfree])
  rw [State.commit_enter, State.db_enter] at hreach
  exact ⟨hsucceed, hbegan.trans hreach⟩

/-- Both transactions have read, and neither has run a statement. -/
def bothBegun (T : Side → Transaction δ ρ σ κ) (db : δ) : State δ ρ σ :=
  ⟨db, fun side => .running ((T side).read db) [] ((T side).statements ((T side).read db))⟩

private theorem reaches_bothBegun (T : Side → Transaction δ ρ σ κ) (db : δ) :
    Machine.Reaches (step T) (State.initial db) (bothBegun T db) := by
  refine ⟨[.advance .left, .advance .right], congrArg (State.mk db) (funext fun side => ?_)⟩
  cases side <;> rfl

omit [DecidableEq κ] in
/-- The statements up to the one that takes a given lock. -/
theorem exists_statement_of_lock {lock : σ → Option κ} {statements : List σ}
    {before after : List κ} {k : κ} (h : statements.filterMap lock = before ++ k :: after) :
    ∃ pre st post, statements = pre ++ st :: post ∧ pre.filterMap lock = before ∧
      lock st = some k := by
  obtain ⟨first, second, rfl, hfirst, hsecond⟩ := List.filterMap_eq_append_iff.mp h
  obtain ⟨skipped, st, post, rfl, hnone, hlock, -⟩ := List.filterMap_eq_cons_iff.mp hsecond
  refine ⟨first ++ skipped, st, post, by simp, ?_, hlock⟩
  rw [List.filterMap_append, hfirst, List.filterMap_eq_nil_iff.mpr hnone, List.append_nil]

/-- The view a side reads at the start still succeeds after the other side has committed. -/
theorem Safe.stale (h : Safe T (State.initial db)) (side : Side) :
    AllSucceed T side.other ((T side.other).read db) (after T db side) := by
  have hbegun := h.of_reaches (reaches_bothBegun T db)
  obtain ⟨-, hreach⟩ := hbegun.ended (rfl : (bothBegun T db).phase side = _) rfl
  have hphase : ((bothBegun T db).commit side (after T db side)).phase side.other =
      .running ((T side.other).read db) [] ((T side.other).statements ((T side.other).read db)) :=
    State.phase_commit_other ..
  exact ((hbegun.of_reaches hreach).ended hphase (by simp)).1

/-- A side that starts after the other's commit succeeds. -/
theorem Safe.later (h : Safe T (State.initial db)) (side : Side) :
    AllSucceed T side.other ((T side.other).read (after T db side)) (after T db side) := by
  obtain ⟨-, hreach⟩ := h.alone (rfl : (State.initial db).phase side = .idle) rfl
  have hphase := (State.initial db : State δ ρ σ).phase_commit_other side (after T db side)
  exact ((h.of_reaches hreach).alone hphase (by simp)).1

/-- Transactions that take different shared locks first can come to wait for each other. -/
theorem Safe.order (h : Safe T (State.initial db)) :
    firstShared (locks T db .left) (locks T db .right) =
      firstShared (locks T db .right) (locks T db .left) := by
  by_contra horder
  obtain ⟨before, k, rest, before', k', rest', hleft, hright, hk, hk', hdisjoint⟩ :=
    exists_cycle horder
  obtain ⟨pre, st, post, hstatements, hpre, hlock⟩ := exists_statement_of_lock hleft
  obtain ⟨pre', st', post', hstatements', hpre', hlock'⟩ := exists_statement_of_lock hright
  have hbegun := h.of_reaches (reaches_bothBegun T db)
  -- the left transaction takes its first locks, then the right one
  have hphase : (bothBegun T db).phase .left =
      .running ((T .left).read db) [] (pre ++ st :: post) :=
    congrArg (Phase.running _ []) hstatements
  obtain ⟨-, hreach⟩ := hbegun.executed hphase (fun k _ hheld => by cases hheld)
  have hsafe := hbegun.of_reaches hreach
  generalize hs : (bothBegun T db).enter .left _ = s at hreach hsafe
  have hleftPhase : s.phase .left = .running ((T .left).read db) pre (st :: post) := by
    rw [← hs]
    exact State.phase_enter_self ..
  have hrightPhase : s.phase .right = .running ((T .right).read db) [] (pre' ++ st' :: post') := by
    rw [← hs, ← hstatements']
    exact State.phase_enter_other ..
  have hheld : held T s .left = before := (held_of_running hleftPhase).trans hpre
  obtain ⟨-, hreach'⟩ := hsafe.executed hrightPhase (by
    intro x hx hx'
    exact hdisjoint x (hheld ▸ hx') (hpre' ▸ hx))
  have hsafe' := hsafe.of_reaches hreach'
  generalize hs' : s.enter .right _ = s' at hreach' hsafe'
  have hleftPhase' : s'.phase .left = .running ((T .left).read db) pre (st :: post) := by
    rw [← hs', ← hleftPhase]
    exact State.phase_enter_other ..
  have hrightPhase' : s'.phase .right = .running ((T .right).read db) pre' (st' :: post') := by
    rw [← hs']
    exact State.phase_enter_self ..
  have hheld' : held T s' .left = before := (held_of_running hleftPhase').trans hpre
  have hheldRight' : held T s' .right = before' := (held_of_running hrightPhase').trans hpre'
  have hwaits : waits T s' .left = true := (waits_iff hleftPhase').mpr ⟨k, hheldRight' ▸ hk, hlock⟩
  have hwaits' : waits T s' .right = true := (waits_iff hrightPhase').mpr ⟨k', hheld' ▸ hk', hlock'⟩
  have habort : step T s' (.abort .left) = s'.enter .left .failed := by
    rw [step, hwaits, hwaits']
    rfl
  exact hsafe' _ (.of_step _ habort) .left (State.phase_enter_self ..)

/-- Safe initial states make the pair harmless, which is what serialising it needs. -/
theorem Safe.harmless (h : Safe T (State.initial db)) : Harmless T db where
  fresh side := (h.alone (rfl : (State.initial db).phase side = .idle) rfl).1
  stale side := by
    have hstale := h.stale side.other
    rwa [Side.other_other] at hstale
  later side := by
    have hlater := h.later side.other
    rwa [Side.other_other] at hlater
  order := h.order

/-! ## Complete runs -/

/-- What is left to do for a transaction that has read. -/
def Phase.rank : Phase ρ σ → ℕ
  | .running _ _ todo => todo.length + 1
  | _ => 0

/-- What is left to do for both. -/
def State.rank (s : State δ ρ σ) : ℕ := (s.phase .left).rank + (s.phase .right).rank

/-- The rank of a state, counted from either side. -/
theorem State.rank_eq (s : State δ ρ σ) (side : Side) :
    s.rank = (s.phase side).rank + (s.phase side.other).rank := by
  cases side with
  | left => rfl
  | right => exact Nat.add_comm ..

/-- A transaction that need not wait comes closer to its end. -/
theorem rank_advance_lt {view : ρ} {done todo : List σ}
    (hphase : s.phase side = .running view done todo) (hfree : waits T s side = false) :
    (advance T s side).rank < s.rank ∧ (advance T s side).phase side ≠ .idle ∧
      (advance T s side).phase side.other = s.phase side.other := by
  have hrank (s' : State δ ρ σ) (hother : s'.phase side.other = s.phase side.other)
      (hless : (s'.phase side).rank < todo.length + 1) : s'.rank < s.rank := by
    rw [s.rank_eq side, s'.rank_eq side, hother, hphase]
    exact Nat.add_lt_add_right hless _
  cases todo with
  | nil =>
    have hadvance : advance T s side = s.commit side ((T side).commit view s.db) := by
      rw [advance, hphase]
    rw [hadvance]
    refine ⟨hrank _ (by simp) (by simp [Phase.rank]), by simp, by simp⟩
  | cons st todo =>
    have hadvance : advance T s side = if (T side).succeeds view s.db st = true then
        s.enter side (.running view (done ++ [st]) todo) else s.enter side .failed := by
      simp only [advance, hphase, hfree, Bool.false_eq_true, if_false]
    rw [hadvance]
    split
    · refine ⟨hrank _ (by simp) (by simp [Phase.rank]), by simp, by simp⟩
    · refine ⟨hrank _ (by simp) (by simp [Phase.rank]), by simp, by simp⟩

private theorem running_of_open (h : s.phase side ≠ .idle ∧ s.phase side ≠ .committed ∧
    s.phase side ≠ .failed) : ∃ view done todo, s.phase side = .running view done todo := by
  cases hphase : s.phase side with
  | running view done todo => exact ⟨view, done, todo, rfl⟩
  | idle => exact absurd hphase h.1
  | committed => exact absurd hphase h.2.1
  | failed => exact absurd hphase h.2.2

/-- Whoever holds a lock that another transaction waits for has not ended. -/
theorem running_of_waits_other (h : waits T s side = true) :
    ∃ view done todo, s.phase side.other = .running view done todo := by
  obtain ⟨view, done, st, todo, hphase⟩ := running_of_waits h
  obtain ⟨k, hk, -⟩ := (waits_iff hphase).mp h
  unfold held at hk
  split at hk
  · next view' done' todo' hphase' => exact ⟨view', done', todo', hphase'⟩
  · cases hk

/-- There is always a step that brings one of two transactions closer to its end. -/
theorem exists_rank_lt (hbegun : ∀ side, s.phase side ≠ .idle) (h : ¬ Complete s) :
    ∃ a, (step T s a).rank < s.rank ∧ ∀ side, (step T s a).phase side ≠ .idle := by
  have hadvance {side : Side} {view : ρ} {done todo : List σ}
      (hphase : s.phase side = .running view done todo) (hfree : waits T s side = false) :
      ∃ a, (step T s a).rank < s.rank ∧ ∀ side, (step T s a).phase side ≠ .idle := by
    obtain ⟨hless, hself, hother⟩ := rank_advance_lt hphase hfree
    refine ⟨.advance side, hless, fun side' => ?_⟩
    rcases side.eq_or_eq_other side' with rfl | rfl
    · exact hself
    · exact fun hidle => hbegun _ (hother.symm.trans hidle)
  simp only [Complete, not_forall, not_or] at h
  obtain ⟨side, hopen⟩ := h
  obtain ⟨view, done, todo, hphase⟩ := running_of_open ⟨hbegun side, hopen⟩
  cases hwaits : waits T s side with
  | false => exact hadvance hphase hwaits
  | true =>
    obtain ⟨view', done', todo', hphase'⟩ := running_of_waits_other hwaits
    cases hwaits' : waits T s side.other with
    | false => exact hadvance hphase' hwaits'
    | true =>
      have habort : step T s (.abort side) = s.enter side .failed := by
        have hboth : (waits T s .left && waits T s .right) = true := by
          cases side with
          | left => exact Bool.and_eq_true_iff.mpr ⟨hwaits, hwaits'⟩
          | right => exact Bool.and_eq_true_iff.mpr ⟨hwaits', hwaits⟩
        rw [step, if_pos hboth]
      refine ⟨.abort side, ?_, fun side' => ?_⟩
      · rw [habort, s.rank_eq side, (s.enter side .failed).rank_eq side, hphase,
          State.phase_enter_self, State.phase_enter_other]
        exact Nat.add_lt_add_right (Nat.succ_pos _) _
      · rw [habort]
        rcases side.eq_or_eq_other side' with rfl | rfl
        · simp
        · rw [State.phase_enter_other]
          exact hbegun _

private theorem exists_begun (T : Side → Transaction δ ρ σ κ) (s : State δ ρ σ) (side : Side) :
    ∃ s', Machine.Reaches (step T) s s' ∧ s'.phase side ≠ .idle ∧
      s'.phase side.other = s.phase side.other := by
  by_cases hidle : s.phase side = .idle
  · exact ⟨_, reaches_began T hidle, by simp, by simp⟩
  · exact ⟨s, .refl s, hidle, rfl⟩

/-- Every run can be completed. -/
theorem exists_complete (T : Side → Transaction δ ρ σ κ) (s : State δ ρ σ) :
    ∃ s', Machine.Reaches (step T) s s' ∧ Complete s' := by
  have hcomplete (n : ℕ) (s : State δ ρ σ) (hn : s.rank = n)
      (hbegun : ∀ side, s.phase side ≠ .idle) :
      ∃ s', Machine.Reaches (step T) s s' ∧ Complete s' := by
    induction n using Nat.strongRecOn generalizing s with
    | ind n ih =>
      by_cases hend : Complete s
      · exact ⟨s, .refl s, hend⟩
      · obtain ⟨a, hless, hbegun'⟩ := exists_rank_lt (T := T) hbegun hend
        obtain ⟨s', hreach, hs'⟩ := ih _ (hn ▸ hless) _ rfl hbegun'
        exact ⟨s', (Machine.Reaches.of_step a rfl).trans hreach, hs'⟩
  obtain ⟨s₁, hreach₁, hleft, -⟩ := exists_begun T s .left
  obtain ⟨s₂, hreach₂, hright, hsame⟩ := exists_begun T s₁ .right
  have hbegun (side : Side) : s₂.phase side ≠ .idle := by
    cases side with
    | left => exact fun hidle => hleft (hsame.symm.trans hidle)
    | right => exact hright
  obtain ⟨s', hreach, hs'⟩ := hcomplete _ s₂ rfl hbegun
  exact ⟨s', (hreach₁.trans hreach₂).trans hreach, hs'⟩

/-! ## Failures and commits last -/

/-- A transaction that has ended stays as it is. -/
theorem phase_of_ended (hend : s.phase side = .committed ∨ s.phase side = .failed)
    (hstep : Stepped T s s') : s'.phase side = s.phase side := by
  have hother (side' : Side) (hopen : s.phase side' ≠ .committed ∧ s.phase side' ≠ .failed) :
      side = side'.other := by
    rcases side'.eq_or_eq_other side with rfl | rfl
    · exact absurd hend (not_or.mpr hopen)
    · rfl
  cases hstep with
  | @began side' hphase =>
    obtain rfl := hother side' (by simp [hphase])
    exact State.phase_enter_other ..
  | @executed side' _ _ _ _ hphase =>
    obtain rfl := hother side' (by simp [hphase])
    exact State.phase_enter_other ..
  | @refused side' _ _ _ _ hphase =>
    obtain rfl := hother side' (by simp [hphase])
    exact State.phase_enter_other ..
  | @ended side' _ _ hphase =>
    obtain rfl := hother side' (by simp [hphase])
    exact State.phase_commit_other ..
  | @aborted side' hwaits =>
    obtain ⟨_, _, _, _, hphase⟩ := running_of_waits (hwaits side')
    obtain rfl := hother side' (by simp [hphase])
    exact State.phase_enter_other ..

private theorem failed_of_reaches (hfailed : s.phase side = .failed)
    (hreach : Machine.Reaches (step T) s s') : s'.phase side = .failed := by
  obtain ⟨actions, rfl⟩ := hreach
  have hinv : Machine.Invariant (step T) (·.phase side = .failed) := by
    intro s a hfailed
    rcases step_cases T s a with hsame | hstep
    · rwa [hsame]
    · exact (phase_of_ended (.inr hfailed) hstep).trans hfailed
  exact hinv.run hfailed actions

/-- **When no transaction is lost.** Both transactions commit in every complete run if and only
if the pair is harmless. -/
theorem all_commit_iff (T : Side → Transaction δ ρ σ κ) (db : δ) :
    (∀ actions, Complete (Machine.run (step T) (State.initial db) actions) →
      ∀ side, (Machine.run (step T) (State.initial db) actions).phase side = .committed) ↔
    Harmless T db := by
  constructor
  · intro h
    refine Safe.harmless fun s hreach side hfailed => ?_
    obtain ⟨s', hreach', hcomplete⟩ := exists_complete T s
    have hfailed' := failed_of_reaches hfailed hreach'
    obtain ⟨actions, rfl⟩ := hreach.trans hreach'
    rw [h actions hcomplete side] at hfailed'
    cases hfailed'
  · intro h actions hcomplete side
    exact (hcomplete side).resolve_right ((h.sound actions).sides side).notFailed

omit [DecidableEq κ] in
private theorem committed_of_enter {side' : Side} {phase : Phase ρ σ} (hphase : phase ≠ .committed)
    (h : (s.enter side' phase).phase side = .committed) : s.phase side = .committed := by
  rcases side'.eq_or_eq_other side with rfl | rfl
  · exact absurd ((State.phase_enter_self ..).symm.trans h) hphase
  · exact (State.phase_enter_other ..).symm.trans h

/-- What each commit brings about, and no commit undoes, holds once a transaction has
committed. -/
theorem holds_of_committed {P : Side → δ → Prop}
    (hbrings : ∀ side view db, P side ((T side).commit view db))
    (hkeeps : ∀ side side' view db, P side db → P side ((T side').commit view db))
    (actions : List Action)
    (hcommitted : (Machine.run (step T) (State.initial db) actions).phase side = .committed) :
    P side (Machine.run (step T) (State.initial db) actions).db := by
  have hinv : Machine.Invariant (step T) fun s => s.phase side = .committed → P side s.db := by
    intro s a hs
    rcases step_cases T s a with hsame | hstep
    · rwa [hsame]
    · generalize step T s a = s' at hstep
      cases hstep with
      | began => exact fun h => hs (committed_of_enter (by simp) h)
      | executed => exact fun h => hs (committed_of_enter (by simp) h)
      | refused => exact fun h => hs (committed_of_enter (by simp) h)
      | aborted => exact fun h => hs (committed_of_enter (by simp) h)
      | @ended side' view done hphase =>
        intro h
        rcases side'.eq_or_eq_other side with rfl | rfl
        · exact hbrings _ view s.db
        · exact hkeeps _ side' view s.db (hs ((State.phase_commit_other ..).symm.trans h))
  exact hinv.run (fun h => by cases h) actions hcommitted

end Machine

end Locking
