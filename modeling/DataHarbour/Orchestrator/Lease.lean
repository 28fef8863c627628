import DataHarbour.Orchestrator.Replicas

/-!
# The scheduler lease

The advisory lock belongs to the session of the pooled connection: a rollback does not release
it, and every acquisition has to be undone by an unlock of its own. The unlock of a tick stands
in a `finally` block, but it runs in the tick's own transaction. After a failed statement that
transaction accepts no other, the unlock fails with it, and the connection goes back to the pool
with the lock.
-/

namespace DataHarbour.Orchestrator

open Python Relational Machine JobService

variable {ι : Type*}

/-! ## The lock -/

/-- The advisory lock: `some (i, n)` if connection `i` has acquired it `n + 1` times more often
than it has released it. -/
abbrev AdvisoryLock (ι : Type*) := Option (ι × ℕ)

namespace AdvisoryLock

/-- The connection holds the lock. -/
def HeldBy (lock : AdvisoryLock ι) (i : ι) : Prop := lock.map Prod.fst = some i

variable [DecidableEq ι]

/-- `pg_try_advisory_lock`: the lock after it, `none` if another connection holds it. -/
def tryLock (lock : AdvisoryLock ι) (i : ι) : Option (AdvisoryLock ι) :=
  match lock with
  | none => some (some (i, 0))
  | some (k, n) => if k = i then some (some (i, n + 1)) else none

/-- `pg_advisory_unlock`: one acquisition less. -/
def unlock (lock : AdvisoryLock ι) (i : ι) : AdvisoryLock ι :=
  match lock with
  | some (k, n) =>
    if k = i then
      match n with
      | 0 => none
      | n + 1 => some (k, n)
    else some (k, n)
  | none => none

/-- A free lock is taken. -/
@[simp] theorem tryLock_none (i : ι) : tryLock none i = some (some (i, 0)) := rfl

/-- The holder takes the lock once more. -/
@[simp] theorem tryLock_self (i : ι) (n : ℕ) :
    tryLock (some (i, n)) i = some (some (i, n + 1)) := by
  simp [tryLock]

/-- A lock that is held is refused to every other connection. -/
theorem tryLock_of_ne {i k : ι} (h : k ≠ i) (n : ℕ) : tryLock (some (k, n)) i = none := by
  simp [tryLock, h]

/-- The last acquisition given back frees the lock. -/
@[simp] theorem unlock_zero (i : ι) : unlock (some (i, 0)) i = none := by
  simp [unlock]

/-- An earlier acquisition stays when a later one is given back. -/
@[simp] theorem unlock_succ (i : ι) (n : ℕ) : unlock (some (i, n + 1)) i = some (i, n) := by
  simp [unlock]

private theorem unlock_of_ne {i k : ι} (h : k ≠ i) (n : ℕ) :
    unlock (some (k, n)) i = some (k, n) := by
  simp [unlock, h]

end AdvisoryLock

/-! ## The ticks -/

/-- Whether the database carries out a statement. -/
inductive Statement where
  | succeeds
  | fails
  deriving DecidableEq

/-- The session of a tick. -/
inductive TickSession where
  /-- Closed: the connection is back in the pool. -/
  | closed
  /-- The lock is acquired. -/
  | leased
  /-- In the loop, with the rows that are still to be fired. -/
  | looping (rows : List ScheduledJob)
  /-- The event for a row is published; `rows` are still to be fired. -/
  | advancing (rows : List ScheduledJob)
  /-- In the `finally` block. A failed statement has aborted the transaction. -/
  | leaving (aborted : Bool)

/-- The lock and the sessions of the replicas. -/
structure Pool (ι : Type*) where
  lock : AdvisoryLock ι := none
  session : ι → TickSession := fun _ => .closed

/-- A step of one replica. -/
inductive PoolStep (ι : Type*) where
  /-- A new session, and `pg_try_advisory_lock` in it. -/
  | tryLock (i : ι) (statement : Statement)
  /-- The `SELECT`, with the rows it finds if it succeeds. -/
  | select (i : ι) (rows : List ScheduledJob) (statement : Statement)
  | publish (i : ι) (delivery : Delivery)
  /-- An exception from `_fire` that is no failed statement, such as one of the next-run
  computation. -/
  | raise (i : ι)
  | update (i : ι) (statement : Statement)
  | commit (i : ι) (statement : Statement)
  /-- `pg_advisory_unlock`, after which the session is closed. -/
  | unlock (i : ι) (statement : Statement)

/-- Whether the transaction is aborted after the statement. -/
def Statement.aborts : Statement → Bool
  | .succeeds => false
  | .fails => true

section Steps

variable [DecidableEq ι]

/-- A session moves on. -/
def Pool.enter (s : Pool ι) (i : ι) (session : TickSession) : Pool ι :=
  { s with session := Function.update s.session i session }

/-- A replica is in the session it enters. -/
@[simp] theorem session_enter_self (s : Pool ι) (i : ι) (session : TickSession) :
    (s.enter i session).session i = session := by
  simp [Pool.enter]

private theorem session_enter_of_ne {i k : ι} (h : k ≠ i) (s : Pool ι) (session : TickSession) :
    (s.enter i session).session k = s.session k := by
  simp [Pool.enter, h]

/-- The state after a step; a step that is not enabled changes nothing. -/
def poolStep (s : Pool ι) : PoolStep ι → Pool ι
  | .tryLock i statement =>
    match s.session i, statement with
    | .closed, .succeeds =>
      match s.lock.tryLock i with
      | some lock => { s with lock }.enter i .leased
      | none => s
    | _, _ => s
  | .select i rows statement =>
    match s.session i, statement with
    | .leased, .succeeds => s.enter i (.looping rows)
    | .leased, .fails => s.enter i (.leaving true)
    | _, _ => s
  | .publish i delivery =>
    match s.session i, delivery with
    | .looping (_ :: rows), .delivered => s.enter i (.advancing rows)
    | .looping (_ :: rows), .failed => s.enter i (.looping rows)
    | _, _ => s
  | .raise i =>
    match s.session i with
    | .looping (_ :: _) => s.enter i (.leaving false)
    | .advancing _ => s.enter i (.leaving false)
    | _ => s
  | .update i statement =>
    match s.session i, statement with
    | .advancing rows, .succeeds => s.enter i (.looping rows)
    | .advancing _, .fails => s.enter i (.leaving true)
    | _, _ => s
  | .commit i statement =>
    match s.session i with
    | .looping [] => s.enter i (.leaving statement.aborts)
    | _ => s
  | .unlock i statement =>
    match s.session i with
    | .leaving aborted =>
      if aborted = false ∧ statement = .succeeds then
        { s with lock := s.lock.unlock i }.enter i .closed
      else s.enter i .closed
    | _ => s

/-- What a step can do. -/
inductive PoolMoves (s : Pool ι) : PoolStep ι → Pool ι → Prop
  | stay {a : PoolStep ι} (hunlock : ∀ i statement, a = .unlock i statement →
      ∀ aborted, s.session i ≠ .leaving aborted) : PoolMoves s a s
  | acquire {i : ι} {lock : AdvisoryLock ι} {statement : Statement}
    (hclosed : s.session i = .closed) (hlock : s.lock.tryLock i = some lock) :
    PoolMoves s (.tryLock i statement) ({ s with lock }.enter i .leased)
  /-- Between the acquisition and the `finally` block. -/
  | proceed {a : PoolStep ι} {i : ι} {session : TickSession}
    (hunlock : ∀ i statement, a ≠ .unlock i statement)
    (hopen : s.session i ≠ .closed) (hopen' : session ≠ .closed) :
    PoolMoves s a (s.enter i session)
  | unlock {i : ι} (hleaving : s.session i = .leaving false) :
    PoolMoves s (.unlock i .succeeds) ({ s with lock := s.lock.unlock i }.enter i .closed)
  | abandon {i : ι} {aborted : Bool} {statement : Statement}
    (hleaving : s.session i = .leaving aborted)
    (hfails : ¬ (aborted = false ∧ statement = .succeeds)) :
    PoolMoves s (.unlock i statement) (s.enter i .closed)

private theorem poolMoves_poolStep (s : Pool ι) (a : PoolStep ι) :
    PoolMoves s a (poolStep s a) := by
  cases a with
  | tryLock i statement =>
    simp only [poolStep]
    split
    · next hclosed =>
      split
      · next hlock => exact .acquire hclosed hlock
      · exact .stay nofun
    · exact .stay nofun
  | select i rows statement =>
    simp only [poolStep]
    split
    · next hsession => exact .proceed nofun (by simp [hsession]) nofun
    · next hsession => exact .proceed nofun (by simp [hsession]) nofun
    · exact .stay nofun
  | publish i delivery =>
    simp only [poolStep]
    split
    · next hsession => exact .proceed nofun (by simp [hsession]) nofun
    · next hsession => exact .proceed nofun (by simp [hsession]) nofun
    · exact .stay nofun
  | raise i =>
    simp only [poolStep]
    split
    · next hsession => exact .proceed nofun (by simp [hsession]) nofun
    · next hsession => exact .proceed nofun (by simp [hsession]) nofun
    · exact .stay nofun
  | update i statement =>
    simp only [poolStep]
    split
    · next hsession => exact .proceed nofun (by simp [hsession]) nofun
    · next hsession => exact .proceed nofun (by simp [hsession]) nofun
    · exact .stay nofun
  | commit i statement =>
    simp only [poolStep]
    split
    · next hsession => exact .proceed nofun (by simp [hsession]) nofun
    · exact .stay nofun
  | unlock i statement =>
    simp only [poolStep]
    split
    · next aborted hsession =>
      split
      · next hunlocks =>
        obtain ⟨rfl, rfl⟩ := hunlocks
        exact .unlock hsession
      · next hfails => exact .abandon hsession hfails
    · next hother =>
      refine .stay ?_
      rintro k statement' heq aborted hleaving
      obtain ⟨rfl, rfl⟩ := PoolStep.unlock.inj heq
      exact hother aborted hleaving

end Steps

/-! ## When the lock is given back -/

/-- No connection in the pool holds the lock. -/
def GivenBack (s : Pool ι) : Prop :=
  ∀ i, s.session i = .closed → ¬ s.lock.HeldBy i

/-- A `finally` block finds the transaction usable, and its unlock succeeds. -/
def Unlocks (s : Pool ι) : PoolStep ι → Prop
  | .unlock i statement =>
    ∀ aborted, s.session i = .leaving aborted → aborted = false ∧ statement = .succeeds
  | _ => True

/-- The replica in a tick holds the lock, once, and no other connection does. -/
structure Leased (s : Pool ι) : Prop where
  inside : ∀ i, s.session i ≠ .closed → s.lock = some (i, 0)
  outside : GivenBack s

private theorem leased_start : Leased ({} : Pool ι) where
  inside _ hopen := absurd rfl hopen
  outside _ _ := nofun

/-- While nobody is in a tick, the lock is free. -/
theorem Leased.lock_eq_none {s : Pool ι} (h : Leased s) (hclosed : ∀ i, s.session i = .closed) :
    s.lock = none := by
  cases hlock : s.lock with
  | none => rfl
  | some holder => exact absurd (by rw [hlock]; rfl) (h.outside holder.1 (hclosed holder.1))

variable [DecidableEq ι]

/-- So the next replica that tries gets it. -/
theorem Leased.tryLock {s : Pool ι} (h : Leased s) (hclosed : ∀ i, s.session i = .closed)
    (i : ι) : (poolStep s (.tryLock i .succeeds)).session i = .leased := by
  simp only [poolStep, hclosed i, h.lock_eq_none hclosed, AdvisoryLock.tryLock_none]
  exact session_enter_self ..

/-- A session that acquires the lock finds it free: its connection does not hold it, and no other
one does, or it would be refused. -/
theorem Leased.lock_eq_none_of_tryLock {s : Pool ι} (h : Leased s) {i : ι} {lock : AdvisoryLock ι}
    (hclosed : s.session i = .closed) (hlock : s.lock.tryLock i = some lock) : s.lock = none := by
  cases hheld : s.lock with
  | none => rfl
  | some holder =>
    obtain ⟨k, n⟩ := holder
    by_cases hki : k = i
    · exact absurd (by rw [hheld, hki]; rfl) (h.outside i hclosed)
    · rw [hheld, AdvisoryLock.tryLock_of_ne hki] at hlock
      cases hlock

/-- A step keeps the lock with the replica in its tick, or gives it back, exactly if it is no
unlock that fails. -/
theorem leased_poolStep {s : Pool ι} (h : Leased s) (a : PoolStep ι) :
    (Unlocks s a → Leased (poolStep s a)) ∧ (GivenBack (poolStep s a) → Unlocks s a) := by
  have hmoves := poolMoves_poolStep s a
  generalize poolStep s a = s' at hmoves ⊢
  cases hmoves with
  | stay hunlock =>
    refine ⟨fun _ => h, fun _ => ?_⟩
    cases a with
    | unlock i statement =>
      exact fun aborted hleaving => absurd hleaving (hunlock i statement rfl aborted)
    | _ => trivial
  | @acquire i lock statement hclosed hlock =>
    refine ⟨fun _ => ?_, fun _ => trivial⟩
    have hfree := h.lock_eq_none_of_tryLock hclosed hlock
    rw [hfree, AdvisoryLock.tryLock_none] at hlock
    obtain rfl := Option.some.inj hlock
    refine ⟨fun k hopen => ?_, fun k hk hheld => ?_⟩
    · by_cases hki : k = i
      · exact hki ▸ rfl
      · rw [session_enter_of_ne hki] at hopen
        have hlocked := h.inside k hopen
        rw [hfree] at hlocked
        cases hlocked
    · obtain rfl : i = k := Option.some.inj hheld
      rw [session_enter_self] at hk
      cases hk
  | @proceed _ i session hunlock hopen hopen' =>
    have hlock := h.inside i hopen
    refine ⟨fun _ => ⟨fun k hk => ?_, fun k hk => ?_⟩, fun _ => ?_⟩
    · by_cases hki : k = i
      · exact hki ▸ hlock
      · rw [session_enter_of_ne hki] at hk
        exact h.inside k hk
    · by_cases hki : k = i
      · rw [hki, session_enter_self] at hk
        exact absurd hk hopen'
      · rw [session_enter_of_ne hki] at hk
        exact h.outside k hk
    · cases a with
      | unlock k statement => exact absurd rfl (hunlock k statement)
      | _ => trivial
  | @unlock i hleaving =>
    have hlock := h.inside i (by simp [hleaving])
    refine ⟨fun _ => ⟨fun k hk => ?_, fun k _ hheld => ?_⟩, fun _ aborted hleaving' => ?_⟩
    · by_cases hki : k = i
      · rw [hki, session_enter_self] at hk
        exact absurd rfl hk
      · rw [session_enter_of_ne hki] at hk
        have hboth := (h.inside k hk).symm.trans hlock
        exact absurd (congrArg Prod.fst (Option.some.inj hboth)) hki
    · simp [Pool.enter, hlock, AdvisoryLock.HeldBy] at hheld
    · rw [hleaving] at hleaving'
      exact ⟨(TickSession.leaving.inj hleaving').symm, rfl⟩
  | @abandon i aborted statement hleaving hfails =>
    have hlock := h.inside i (by simp [hleaving])
    refine ⟨fun hunlocks => absurd (hunlocks aborted hleaving) hfails, fun hgiven => ?_⟩
    refine absurd ?_ (hgiven i (session_enter_self ..))
    show s.lock.map Prod.fst = some i
    rw [hlock]
    rfl

/-- **When the lease is given back.** Along every interleaving of ticks, no connection in the
pool holds the lock exactly if every `finally` block finds its transaction usable and its unlock
succeeds. -/
theorem givenBack_iff (steps : List (PoolStep ι)) :
    Always poolStep GivenBack ({} : Pool ι) steps ↔ Along poolStep Unlocks {} steps := by
  rw [always_iff, and_iff_right leased_start.outside]
  refine along_iff_along (I := fun s _ => Leased s) ?_ ?_ leased_start
  · exact fun s a _ h hunlocks => (leased_poolStep h a).1 hunlocks
  · intro s a _ h
    exact ⟨(leased_poolStep h a).2, fun hunlocks => ((leased_poolStep h a).1 hunlocks).outside⟩

/-! ## A lock that is not given back -/

/-- The lock is with a connection that was returned with it, or is used again. -/
structure Leaked (i k : ι) (s : Pool ι) : Prop where
  held : ∃ n, s.lock = some (i, n) ∧ (s.session i = .closed ∨ 0 < n)
  waits : s.session k = .closed

/-- The ticks of its replica acquire and release the lock once more; no other replica ever
gets it. -/
theorem leaked_poolStep {i k : ι} (hne : k ≠ i) : Invariant poolStep (Leaked i k) := by
  intro s a h
  obtain ⟨⟨n, hlock, hcount⟩, hwaits⟩ := h
  have hother : ∀ {j}, s.session j ≠ .closed → k ≠ j := by
    rintro j hopen rfl
    exact hopen hwaits
  have hmoves := poolMoves_poolStep s a
  generalize poolStep s a = s' at hmoves ⊢
  cases hmoves with
  | stay => exact ⟨⟨n, hlock, hcount⟩, hwaits⟩
  | @acquire j lock statement hclosed htry =>
    by_cases hji : j = i
    · subst hji
      rw [hlock, AdvisoryLock.tryLock_self] at htry
      obtain rfl := Option.some.inj htry
      exact ⟨⟨n + 1, rfl, .inr n.succ_pos⟩, by rwa [session_enter_of_ne hne]⟩
    · rw [hlock, AdvisoryLock.tryLock_of_ne (Ne.symm hji)] at htry
      cases htry
  | @proceed _ j session hunlock hopen hopen' =>
    have hkj := hother hopen
    refine ⟨⟨n, hlock, ?_⟩, by rwa [session_enter_of_ne hkj]⟩
    by_cases hji : j = i
    · exact .inr (hcount.resolve_left (hji ▸ hopen))
    · rwa [session_enter_of_ne (Ne.symm hji)]
  | @unlock j hleaving =>
    have hkj : k ≠ j := hother (by simp [hleaving])
    refine ⟨?_, by rwa [session_enter_of_ne hkj]⟩
    by_cases hji : j = i
    · subst hji
      obtain ⟨m, rfl⟩ : ∃ m, n = m + 1 := by
        have hpos : 0 < n := hcount.resolve_left (by simp [hleaving])
        exact ⟨n - 1, by omega⟩
      refine ⟨m, ?_, .inl (session_enter_self ..)⟩
      show s.lock.unlock j = _
      rw [hlock, AdvisoryLock.unlock_succ]
    · refine ⟨n, ?_, by rwa [session_enter_of_ne (Ne.symm hji)]⟩
      show s.lock.unlock j = _
      rw [hlock, AdvisoryLock.unlock_of_ne (Ne.symm hji)]
  | @abandon j aborted statement hleaving hfails =>
    have hkj : k ≠ j := hother (by simp [hleaving])
    refine ⟨⟨n, hlock, ?_⟩, by rwa [session_enter_of_ne hkj]⟩
    by_cases hji : j = i
    · exact .inl (hji ▸ session_enter_self ..)
    · rwa [session_enter_of_ne (Ne.symm hji)]

/-- A lock that went back to the pool keeps every other replica out for good. -/
theorem leaked_lock_starves {i k : ι} (hne : k ≠ i) {s : Pool ι} (hclosed : s.session i = .closed)
    (hheld : s.lock.HeldBy i) (hwaits : s.session k = .closed) (steps : List (PoolStep ι)) :
    (run poolStep s steps).session k = .closed := by
  have hleaked : Leaked i k s := by
    cases hlock : s.lock with
    | none =>
      rw [hlock] at hheld
      cases hheld
    | some holder =>
      rw [hlock] at hheld
      obtain rfl : holder.1 = i := Option.some.inj hheld
      exact ⟨⟨holder.2, hlock, .inl hclosed⟩, hwaits⟩
  exact ((leaked_poolStep hne).run hleaked steps).waits

/-! ## The ticks without failures -/

/-- The phases of a tick in which no statement fails. -/
def TickPhase.session : TickPhase → TickSession
  | .idle => .closed
  | .leased _ => .leased
  | .firing _ rows _ => .looping rows
  | .advancing _ _ _ rows _ => .advancing rows
  | .ended => .leaving false

/-- The lock and the sessions of a cluster. -/
def Cluster.pool (s : Cluster ι) : Pool ι where
  lock := s.lease.map fun i => (i, 0)
  session i := (s.phase i).session

private theorem pool_enter (s : Cluster ι) (i : ι) (phase : TickPhase) :
    (s.enter i phase).pool = s.pool.enter i phase.session := by
  have hsession := Function.comp_update TickPhase.session s.phase i phase
  exact congrArg (Pool.mk s.pool.lock) hsession

/-- A step of the replicas is a step here with a statement that succeeds, or none. -/
theorem pool_clusterStep (next : NextRun) (s : Cluster ι) (a : ClusterStep ι) :
    (clusterStep next s a).pool = s.pool ∨
      ∃ b, (clusterStep next s a).pool = poolStep s.pool b := by
  have hmoves := moves_clusterStep next s a
  generalize clusterStep next s a = s' at hmoves ⊢
  have hsession : ∀ {i phase}, s.phase i = phase → s.pool.session i = phase.session := by
    intro i phase hphase
    exact congrArg TickPhase.session hphase
  cases hmoves with
  | stay => exact .inl rfl
  | elapse duration => exact .inl rfl
  | @acquire i now hidle hfree hnow =>
    refine .inr ⟨.tryLock i .succeeds, ?_⟩
    have hlock : s.pool.lock = none := by simp [Cluster.pool, hfree]
    rw [pool_enter]
    simp only [poolStep, hsession hidle, TickPhase.session, hlock, AdvisoryLock.tryLock_none]
    rfl
  | @select i now scan hphase =>
    refine .inr ⟨.select i (dueRows now (scan.order s.schedules.rows)) .succeeds, ?_⟩
    rw [pool_enter]
    simp only [poolStep, hsession hphase, TickPhase.session]
  | @skip i now row rows updates hphase =>
    refine .inr ⟨.publish i .failed, ?_⟩
    rw [pool_enter]
    simp only [poolStep, hsession hphase, TickPhase.session]
  | @publish i now row rows updates jobId hphase =>
    refine .inr ⟨.publish i .delivered, ?_⟩
    rw [pool_enter]
    simp only [poolStep, hsession hphase, TickPhase.session]
    rfl
  | @update i now row jobId rows updates time hphase hnext =>
    refine .inr ⟨.update i .succeeds, ?_⟩
    rw [pool_enter]
    simp only [poolStep, hsession hphase, TickPhase.session]
  | @raise i now row jobId rows updates e hphase hnext =>
    refine .inr ⟨.raise i, ?_⟩
    rw [pool_enter]
    simp only [poolStep, hsession hphase, TickPhase.session]
  | @commit i now updates hphase =>
    refine .inr ⟨.commit i .succeeds, ?_⟩
    rw [pool_enter]
    simp only [poolStep, hsession hphase, TickPhase.session]
    rfl
  | @unlock i hphase =>
    refine .inr ⟨.unlock i .succeeds, ?_⟩
    rw [pool_enter]
    simp only [poolStep, hsession hphase, TickPhase.session]
    have hlock : (if s.lease = some i then none else s.lease).map (fun i => (i, 0)) =
        s.pool.lock.unlock i := by
      cases hlease : s.lease with
      | none => simp [Cluster.pool, hlease, AdvisoryLock.unlock]
      | some k => by_cases hki : k = i <;> simp [Cluster.pool, hlease, hki, AdvisoryLock.unlock]
    exact congrArg (fun lock => Pool.enter ⟨lock, s.pool.session⟩ i .closed) hlock

/-- So the replicas without failures run here as well. -/
theorem pool_run (next : NextRun) (s : Cluster ι) (steps : List (ClusterStep ι)) :
    ∃ steps' : List (PoolStep ι), (run (clusterStep next) s steps).pool =
      run poolStep s.pool steps' := by
  induction steps generalizing s with
  | nil => exact ⟨[], rfl⟩
  | cons a steps ih =>
    obtain ⟨steps', hrest⟩ := ih (clusterStep next s a)
    rcases pool_clusterStep next s a with hstay | ⟨b, hstep⟩
    · exact ⟨steps', by rw [run_cons, hrest, hstay]⟩
    · exact ⟨b :: steps', by rw [run_cons, hrest, hstep, run_cons]⟩

/-! ## A failed update -/

/-- A schedule that is due. -/
def leaseSchedule : ScheduledJob where
  scheduleId := "s-1"
  name := "report"
  cronExpression := "* * * * *"
  jobTemplate := []
  nextRunAt := 60

/-- The `UPDATE` of one replica fails, and another replica tries after it. -/
def failedUpdate : List (PoolStep Bool) :=
  [.tryLock true .succeeds, .select true [leaseSchedule] .succeeds, .publish true .delivered,
    .update true .fails, .unlock true .succeeds, .tryLock false .succeeds]

/-- The first replica keeps the lock, and the second is refused. -/
theorem failed_update_keeps_lock : ¬ Always poolStep GivenBack ({} : Pool Bool) failedUpdate := by
  intro h
  refine h (failedUpdate.take 5) (failedUpdate.drop 5) rfl true ?_ ?_ <;> rfl

end DataHarbour.Orchestrator
