import DataHarbour.System.DeadLetters

/-!
# The race between the launch and its container

When `RunTask` has accepted a launch, `JobConsumer` still has to report the ARN with the status
`PROVISIONING`, while the container already reports on its own. The job service stores every
report as it comes, so the order of the two senders decides about the stored status. This file
says exactly which orders are safe.
-/

namespace DataHarbour.System

open Python Relational Machine JobService Orchestrator

/-- The step takes the stored status of a job from `RUNNING` back to `PROVISIONING`. No such
step changes the `retry_count`, so it is within one attempt. -/
def GoesBack (time : ℕ → Time) (s : Composition) (a : Move) : Prop :=
  ∃ j, s.world.storedStatus j = some .running ∧
    (move time s a).world.storedStatus j = some .provisioning

/-- A job whose attempt has exited with 0, and for which no callback is left to deliver, is
stored as `SUCCESS`. -/
def SuccessStored (s : Composition) : Prop :=
  ∀ c ∈ s.containers, c.phase = .exited 0 →
    (∀ u, .callback (.str c.request.jobId) u ∉ s.inHand) →
    s.world.storedStatus c.request.jobId = some .success

/-- The step keeps what the claim of safe callbacks asks for. -/
def Commutes (time : ℕ → Time) (s : Composition) (a : Move) : Prop :=
  ¬ GoesBack time s a ∧ SuccessStored (move time s a)

/-- No container of the job has reported `RUNNING` without its end, and none has reported
`SUCCESS`. -/
def Composition.Free (s : Composition) (j : JobId) : Prop :=
  ∀ c ∈ s.containers, c.request.jobId = j → c.phase ≠ .running ∧ c.phase ≠ .exited 0

/-- A `PROVISIONING` callback is delivered before the job's container reports `RUNNING`, or
after it has reported `FAILED`. -/
def InOrder (s : Composition) (a : Move) : Prop :=
  a = .act → ∀ j u rest, s.inHand = .callback (.str j) u :: rest → u.status = .provisioning →
    s.Free j

/-! ## What the attempts say about the containers -/

section Containers

variable {s : Composition}

private theorem jobId_mem_executing {c : Container} (hc : c ∈ s.containers)
    (hlive : c.live = true) :
    c.request.jobId ∈ s.executing.map Prod.fst := by
  have hmem : c ∈ s.containers.filter Container.live := List.mem_filter.mpr ⟨hc, hlive⟩
  exact List.mem_map_of_mem (List.mem_map_of_mem hmem)

/-- A job with an attempt in a container has a row. -/
theorem stored_of_live (h : Conserved s) {c : Container} (hc : c ∈ s.containers)
    (hlive : c.live = true) : ∃ n m, s.world.budget c.request.jobId = some (n, m) := by
  have hattempt : c.attempt ∈ s.attempts := by
    have hmem : c ∈ s.containers.filter Container.live := List.mem_filter.mpr ⟨hc, hlive⟩
    exact List.mem_append_right _ (List.mem_map_of_mem hmem)
  obtain ⟨n, m, hbudget, -⟩ := h.accounts.counted c.attempt hattempt
  exact ⟨n, m, hbudget⟩

/-- A job has at most one live container. -/
theorem live_unique (h : Conserved s) {i k : ℕ} {c c' : Container}
    (hc : s.containers[i]? = some c) (hc' : s.containers[k]? = some c') (hlive : c.live = true)
    (hlive' : c'.live = true) (hjob : c.request.jobId = c'.request.jobId) : i = k := by
  have hdistinct := h.accounts.distinct
  rw [Composition.attempts, List.map_append] at hdistinct
  have hexecuting := (List.nodup_append.mp hdistinct).2.1
  rw [Composition.executing, List.map_map, List.Nodup, List.pairwise_map,
    List.pairwise_filter, List.pairwise_iff_getElem] at hexecuting
  obtain ⟨hi, rfl⟩ := List.getElem?_eq_some_iff.mp hc
  obtain ⟨hk, rfl⟩ := List.getElem?_eq_some_iff.mp hc'
  rcases Nat.lt_trichotomy i k with hlt | heq | hgt
  · exact absurd hjob (hexecuting i k hi hk hlt hlive hlive')
  · exact heq
  · exact absurd hjob.symm (hexecuting k i hk hi hgt hlive' hlive)

/-- A job that is being launched has no live container. -/
theorem not_live_of_rest (h : Conserved s) {e : JobEvent} (hmsg : s.message = some e)
    (hrest : Rest e s.inHand) {c : Container} (hc : c ∈ s.containers)
    (hjob : c.request.jobId = e.jobId) : c.live = false := by
  by_contra hlive
  have hexecuting := jobId_mem_executing hc (Bool.eq_true_of_not_eq_false hlive)
  have hdistinct := h.accounts.distinct
  rw [Composition.attempts, Composition.launching_of_rest hmsg hrest, List.append_assoc,
    List.map_append, List.map_append] at hdistinct
  have hdisjoint := (List.nodup_append.mp (List.nodup_append.mp hdistinct).2.1).2.2
  exact hdisjoint e.jobId List.mem_cons_self _ hexecuting hjob.symm

private theorem launching_subset {e : JobEvent} (hmsg : s.message = some e)
    (hrest : Rest e s.inHand) :
    e.jobId ∈ s.attempts.map Prod.fst := by
  have hmem : attemptOf e ∈ s.attempts := by
    rw [Composition.attempts, Composition.launching_of_rest hmsg hrest]
    exact List.mem_append_left _ (List.mem_append_right _ (List.mem_singleton_self _))
  exact List.mem_map_of_mem hmem

end Containers

/-! ## The stored status follows the containers -/

/-- The stored status of a job follows its containers. -/
structure Followed (s : Composition) : Prop where
  running : ∀ c ∈ s.containers, c.phase = .running →
    s.world.storedStatus c.request.jobId = some .running
  runs : ∀ j, s.world.storedStatus j = some .running →
    ∃ c ∈ s.containers, c.request.jobId = j ∧ c.phase = .running
  succeeded : ∀ c ∈ s.containers, c.phase = .exited 0 →
    s.world.storedStatus c.request.jobId = some .success ∧
      c.request.jobId ∉ s.attempts.map Prod.fst

/-- A status that follows the containers has their success stored. -/
theorem Followed.successStored {s : Composition} (h : Followed s) : SuccessStored s :=
  fun c hc hexited _ => (h.succeeded c hc hexited).1

/-- A job that is being launched is free. -/
theorem Followed.free_of_rest {s : Composition} (h : Followed s) (hcons : Conserved s)
    {e : JobEvent} (hmsg : s.message = some e) (hrest : Rest e s.inHand) : s.Free e.jobId := by
  intro c hc hjob
  constructor
  · intro hphase
    have hlive := not_live_of_rest hcons hmsg hrest hc hjob
    simp [Container.live, hphase] at hlive
  · intro hphase
    exact (h.succeeded c hc hphase).2 (hjob ▸ launching_subset hmsg hrest)

/-- A report that leaves the containers alone and is about a free job keeps the stored status in
step with them, unless it stores `RUNNING`. -/
theorem Followed.of_free {s s' : Composition} (h : Followed s) (hcontinues : Continues s s')
    {j : JobId} (hcontainers : s'.containers = s.containers)
    (hothers : ∀ k, k ≠ j → s'.world.storedStatus k = s.world.storedStatus k)
    (hfree : s.Free j) (hstatus : s'.world.storedStatus j ≠ some .running) : Followed s' where
  running c hc hphase := by
    rw [hcontainers] at hc
    rw [hothers _ fun hjob => (hfree c hc hjob).1 hphase]
    exact h.running c hc hphase
  runs k hk := by
    rw [hcontainers]
    apply h.runs k
    rwa [← hothers k fun heq => hstatus (heq ▸ hk)]
  succeeded c hc hphase := by
    rw [hcontainers] at hc
    obtain ⟨hstored, hended⟩ := h.succeeded c hc hphase
    rw [hothers _ fun hjob => (hfree c hc hjob).2 hphase]
    exact ⟨hstored, fun hmem =>
      hended (hcontinues.stored _ (budget_ne_none_of_storedStatus hstored) hmem)⟩

/-- A step that changes no row and launches at most new containers. -/
theorem Followed.of_same {s s' : Composition} (h : Followed s) (hcontinues : Continues s s')
    (new : List Container) (hnew : ∀ c ∈ new, c.phase = .started)
    (hcontainers : s'.containers = s.containers ++ new) (hworld : s'.world = s.world) :
    Followed s' where
  running c hc hphase := by
    rw [hcontainers] at hc
    rw [hworld]
    rcases List.mem_append.mp hc with hold | hfresh
    · exact h.running c hold hphase
    · simp [hnew c hfresh] at hphase
  runs k hk := by
    rw [hworld] at hk
    obtain ⟨c, hc, hjob, hphase⟩ := h.runs k hk
    exact ⟨c, hcontainers ▸ List.mem_append_left new hc, hjob, hphase⟩
  succeeded c hc hphase := by
    rw [hcontainers] at hc
    rw [hworld]
    rcases List.mem_append.mp hc with hold | hfresh
    · obtain ⟨hstored, hended⟩ := h.succeeded c hold hphase
      exact ⟨hstored, fun hmem =>
        hended (hcontinues.stored _ (budget_ne_none_of_storedStatus hstored) hmem)⟩
    · simp [hnew c hfresh] at hphase

/-- The containers after one of them has moved on. -/
theorem mem_containers_of_modify {containers : List Container} {i : ℕ} {c d : Container}
    (hget : containers[i]? = some c) {f : Container → Container}
    (hd : d ∈ containers.modify i f) : d = f c ∨ ∃ k, k ≠ i ∧ containers[k]? = some d := by
  obtain ⟨k, hk⟩ := List.mem_iff_getElem?.mp hd
  rw [List.getElem?_modify] at hk
  by_cases hik : i = k
  · subst hik
    rw [hget] at hk
    left
    simpa using hk.symm
  · right
    exact ⟨k, Ne.symm hik, by simpa [hik] using hk⟩

/-- A report of a container about its own job keeps the stored status in step with the
containers if it stores `RUNNING` exactly for the running phase, and `SUCCESS` at the exit
with 0. -/
theorem Followed.of_report {s s' : Composition} (h : Followed s) (hcons : Conserved s)
    (hcontinues : Continues s s') {i : ℕ} {c : Container} (hget : s.containers[i]? = some c)
    (hlive : c.live = true) {phase : ContainerPhase}
    (hcontainers : s'.containers = (s.setPhase i phase).containers)
    (hothers : ∀ k, k ≠ c.request.jobId → s'.world.storedStatus k = s.world.storedStatus k)
    (hrunning : s'.world.storedStatus c.request.jobId = some .running ↔ phase = .running)
    (hsuccess : phase = .exited 0 → s'.world.storedStatus c.request.jobId = some .success ∧
      c.request.jobId ∉ s'.attempts.map Prod.fst) : Followed s' := by
  have hc : c ∈ s.containers := List.mem_of_getElem? hget
  have hattempt := executing_subset (jobId_mem_executing hc hlive)
  constructor
  · intro d hd hphase
    rw [hcontainers] at hd
    rcases mem_containers_of_modify hget hd with rfl | ⟨k, hk, hgetk⟩
    · exact hrunning.mpr hphase
    · have hlived : d.live = true := by simp [Container.live, hphase]
      rw [hothers _ fun heq => hk (live_unique hcons hgetk hget hlived hlive heq)]
      exact h.running d (List.mem_of_getElem? hgetk) hphase
  · intro k hk
    rw [hcontainers]
    by_cases hjob : k = c.request.jobId
    · subst hjob
      refine ⟨{ c with phase := phase }, ?_, rfl, hrunning.mp hk⟩
      apply List.mem_of_getElem? (i := i)
      simp [Composition.setPhase, hget]
    · obtain ⟨d, hd, hid, hphase⟩ := h.runs k (by rwa [← hothers k hjob])
      obtain ⟨m, hgetm⟩ := List.mem_iff_getElem?.mp hd
      have him : i ≠ m := by
        rintro rfl
        obtain rfl : c = d := Option.some.inj (hget.symm.trans hgetm)
        exact hjob hid.symm
      refine ⟨d, ?_, hid, hphase⟩
      apply List.mem_of_getElem? (i := m)
      simpa [Composition.setPhase, List.getElem?_modify, him] using hgetm
  · intro d hd hphase
    rw [hcontainers] at hd
    rcases mem_containers_of_modify hget hd with rfl | ⟨k, hk, hgetk⟩
    · exact hsuccess hphase
    · obtain ⟨hstored, hended⟩ := h.succeeded d (List.mem_of_getElem? hgetk) hphase
      have hother : d.request.jobId ≠ c.request.jobId := fun heq => hended (heq ▸ hattempt)
      rw [hothers _ hother]
      exact ⟨hstored, fun hmem =>
        hended (hcontinues.stored _ (budget_ne_none_of_storedStatus hstored) hmem)⟩

/-! ## What one callback stores -/

section Callbacks

variable (time : ℕ → Time) {s : Composition} {u : JobStatusUpdate}

private theorem storedStatus_deliver_of_ne {j k : JobId} (h : k ≠ j) :
    (s.deliver time j u).world.storedStatus k = s.world.storedStatus k := by
  have hrow : (s.deliver time j u).world.jobs.find? k = s.world.jobs.find? k :=
    find?_update_of_ne (time s.clock) .delivered u h.symm
  rw [World.storedStatus, hrow, World.storedStatus]

private theorem storedStatus_deliver {j : JobId} (h : u.status ≠ .failed)
    (hstored : s.world.budget j ≠ none) :
    (s.deliver time j u).world.storedStatus j = some u.status :=
  storedStatus_update_of_not_failed (time s.clock) .delivered h hstored

private theorem storedStatus_deliver_failed {j : JobId} (h : u.status = .failed)
    (hstored : s.world.budget j ≠ none) :
    (s.deliver time j u).world.storedStatus j = some .queued ∨
      (s.deliver time j u).world.storedStatus j = some .dead := by
  obtain ⟨⟨n, m⟩, hbudget⟩ := Option.ne_none_iff_exists'.mp hstored
  exact (spends_update (time s.clock) hbudget h).imp (fun hspent => hspent.2.2.1)
    fun hspent => hspent.2.2.1

/-- Only a `PROVISIONING` callback makes a stored job `PROVISIONING`. -/
theorem storedStatus_deliver_provisioning {j k : JobId} (hstored : s.world.budget k ≠ none)
    (hbefore : s.world.storedStatus k ≠ some .provisioning)
    (hafter : (s.deliver time j u).world.storedStatus k = some .provisioning) :
    k = j ∧ u.status = .provisioning := by
  by_cases hk : k = j
  · subst hk
    refine ⟨rfl, ?_⟩
    by_cases hfailed : u.status = .failed
    · rcases storedStatus_deliver_failed time hfailed hstored with hqueued | hdead
      · simp [hqueued] at hafter
      · simp [hdead] at hafter
    · rw [storedStatus_deliver time hfailed hstored] at hafter
      exact Option.some.inj hafter
  · rw [storedStatus_deliver_of_ne time hk] at hafter
    exact absurd hafter hbefore

end Callbacks

/-! ## Every step keeps the status in step with the containers -/

private theorem followed_create (time : ℕ → Time) {s : Composition} (h : Followed s)
    (hcons : Conserved s)
    (jobId : JobId) (request : JobCreateRequest) :
    Followed (move time s (.create jobId request)) := by
  have hcreate : ∀ k, (move time s (.create jobId request)).world.storedStatus k =
      if jobId = k ∧ s.world.jobs.find? k = none then some .queued
      else s.world.storedStatus k := storedStatus_create s.world jobId (time s.clock) request
  have hkept : ∀ k, s.world.budget k ≠ none →
      (move time s (.create jobId request)).world.storedStatus k = s.world.storedStatus k := by
    intro k hstored
    rw [hcreate, if_neg fun hboth => hstored (budget_eq_none_iff.mpr hboth.2)]
  constructor
  · intro c hc hphase
    obtain ⟨n, m, hbudget⟩ := stored_of_live hcons hc (by simp [Container.live, hphase])
    rw [hkept _ (by simp [hbudget])]
    exact h.running c hc hphase
  · intro k hk
    apply h.runs k
    rw [hcreate] at hk
    split at hk
    · cases hk
    · exact hk
  · intro c hc hphase
    obtain ⟨hstored, hended⟩ := h.succeeded c hc hphase
    have hbudget := budget_ne_none_of_storedStatus hstored
    rw [hkept _ hbudget]
    exact ⟨hstored, fun hmem =>
      hended ((continues_create time hcons jobId request).stored _ hbudget hmem)⟩

private theorem followed_take (time : ℕ → Time) {s : Composition} (h : Followed s)
    (hcons : Conserved s)
    (outcomes : ℕ → RunTaskOutcome) : Followed (move time s (.take outcomes)) := by
  have hcontinues := continues_take time hcons outcomes
  rcases take_cases time s outcomes with hmove | ⟨e, -, -, hmove⟩ <;> rw [hmove] at hcontinues ⊢
  · exact h
  · exact h.of_same hcontinues [] (by simp) (List.append_nil _).symm rfl

private theorem followed_report (time : ℕ → Time) {s : Composition} (h : Followed s)
    (hcons : Conserved s) (i : ℕ) : Followed (move time s (.report i)) := by
  have hcontinues := continues_report time hcons i
  rcases report_cases time s i with hmove | ⟨c, hget, hphase, hmove⟩ <;>
    rw [hmove] at hcontinues ⊢
  · exact h
  · have hlive : c.live = true := by simp [Container.live, hphase]
    obtain ⟨n, m, hbudget⟩ := stored_of_live hcons (List.mem_of_getElem? hget) hlive
    have hstored : s.world.budget c.request.jobId ≠ none := by simp [hbudget]
    have hstatus := storedStatus_deliver time (u := { status := .running }) (by decide) hstored
    apply h.of_report hcons hcontinues hget hlive rfl
    · intro k hk
      exact storedStatus_deliver_of_ne time hk
    · exact ⟨fun _ => rfl, fun _ => hstatus⟩
    · simp

/-- The attempt of a container ends with its last report, unless that is `FAILED`. -/
theorem attempts_finish (time : ℕ → Time) {s : Composition} {i : ℕ} {c : Container}
    (hget : s.containers[i]? = some c) (hphase : c.phase = .running) {u : JobStatusUpdate}
    (hstatus : u.status ≠ .failed) (code : ℤ) : s.attempts.Perm
      (c.attempt :: ((s.deliver time c.request.jobId u).setPhase i (.exited code)).attempts) := by
  let s' := (s.deliver time c.request.jobId u).setPhase i (.exited code)
  have htopic : s'.world.jobTopic = s.world.jobTopic :=
    jobTopic_update_of_not_failed hstatus s.world c.request.jobId _ .delivered
  have hattempts : s'.attempts = s.pending.map attemptOf ++ (s.launching ++ s'.executing) :=
    Continues.attempts_eq rfl htopic
  rw [show ((s.deliver time c.request.jobId u).setPhase i (.exited code)).attempts = _ from
    hattempts, Composition.attempts, List.append_assoc]
  refine (List.Perm.append_left _ ?_).trans List.perm_middle
  exact ((executing_finish time hget hphase u code).append_left _).trans List.perm_middle

private theorem followed_finish (time : ℕ → Time) {s : Composition} (h : Followed s)
    (hcons : Conserved s) (i : ℕ) (code : ℤ) : Followed (move time s (.finish i code)) := by
  have hcontinues := continues_finish time hcons i code
  rcases finish_cases time s i code with hmove | ⟨c, hget, hphase, hmove⟩ <;>
    rw [hmove] at hcontinues ⊢
  · exact h
  · have hlive : c.live = true := by simp [Container.live, hphase]
    obtain ⟨n, m, hbudget⟩ := stored_of_live hcons (List.mem_of_getElem? hget) hlive
    have hstored : s.world.budget c.request.jobId ≠ none := by simp [hbudget]
    let u : JobStatusUpdate := { status := exitStatus code, exitCode := some code }
    apply h.of_report hcons hcontinues hget hlive rfl
    · intro k hk
      exact storedStatus_deliver_of_ne time hk
    · refine iff_of_false (fun hrunning => ?_) (by simp)
      by_cases hcode : code = 0
      · have hstatus := storedStatus_deliver time (u := u) (by simp [u, exitStatus, hcode]) hstored
        have hboth := hrunning.symm.trans hstatus
        simp [u, exitStatus, hcode] at hboth
      · rcases storedStatus_deliver_failed time (u := u) (by simp [u, exitStatus, hcode]) hstored
          with hqueued | hdead
        · cases hrunning.symm.trans hqueued
        · cases hrunning.symm.trans hdead
    · intro hexit
      obtain rfl : code = 0 := ContainerPhase.exited.inj hexit
      refine ⟨storedStatus_deliver time (u := u) (by decide) hstored, ?_⟩
      -- the attempt that has ended was the only one of the job
      have hperm := attempts_finish time hget hphase (u := u) (by decide) 0
      exact (List.nodup_cons.mp ((hperm.map Prod.fst).nodup hcons.accounts.distinct)).1

/-- A callback of `JobConsumer` about a free job. -/
theorem followed_callback (time : ℕ → Time) {s : Composition} (h : Followed s) {j : JobId}
    {u : JobStatusUpdate} {rest : List Effect} (hfree : s.Free j)
    (hstored : s.world.budget j ≠ none) (hstatus : u.status = .provisioning ∨ u.status = .failed)
    (hcontinues : Continues s ({ s with inHand := rest }.perform time (.callback (.str j) u))) :
    Followed ({ s with inHand := rest }.perform time (.callback (.str j) u)) := by
  have hworld : ({ s with inHand := rest }.perform time (.callback (.str j) u)).world =
      (s.deliver time j u).world := rfl
  apply h.of_free hcontinues rfl (fun k hk => storedStatus_deliver_of_ne time hk) hfree
  rw [hworld]
  rcases hstatus with hprovisioning | hfailed
  · rw [storedStatus_deliver time (by simp [hprovisioning]) hstored, hprovisioning]
    simp
  · rcases storedStatus_deliver_failed time hfailed hstored with hqueued | hdead
    · simp [hqueued]
    · simp [hdead]

private theorem followed_act (time : ℕ → Time) {s : Composition} (h : Followed s)
    (hcons : Conserved s)
    (horder : InOrder s .act) : Followed (move time s .act) := by
  have hcontinues := continues_act time hcons
  rcases act_cases time s with ⟨-, hmove⟩ | ⟨effect, rest, hhand, hmove⟩ <;>
    rw [hmove] at hcontinues ⊢
  · exact h
  · obtain ⟨e, he, hmsg, hwork⟩ := hcons.work hhand
    obtain ⟨n, hbudget⟩ := hcons.accounts.budgets e he
    have hstored : s.world.budget e.jobId ≠ none := by simp [hbudget]
    have hsame : ({ s with inHand := rest }.perform time effect).containers = s.containers →
        ({ s with inHand := rest }.perform time effect).world = s.world →
        Followed ({ s with inHand := rest }.perform time effect) := fun hcontainers hworld =>
      h.of_same hcontinues [] (by simp) (hcontainers.trans (List.append_nil _).symm) hworld
    rcases hwork with hrest | hafter
    · have hfree := h.free_of_rest hcons hmsg (hhand ▸ hrest)
      cases hrest with
      | attempt _ => exact followed_callback time h hfree hstored (.inl rfl) hcontinues
      | @failure outcome _ hfail _ =>
        cases outcome <;> first | exact hsame rfl rfl | cases hfail
      | sleep _ => exact hsame rfl rfl
      | launch arn => exact h.of_same hcontinues _ (by simp) rfl rfl
      | failed text => exact followed_callback time h hfree hstored (.inr rfl) hcontinues
    · cases hafter with
      | confirm arn =>
        have hfree := horder rfl _ _ _ hhand rfl
        exact followed_callback time h hfree hstored (.inl rfl) hcontinues
      | deadLetter text => exact hsame rfl rfl

private theorem followed_move (time : ℕ → Time) {s : Composition} (h : Followed s)
    (hcons : Conserved s)
    {a : Move} (horder : InOrder s a) : Followed (move time s a) := by
  cases a with
  | create jobId request => exact followed_create time h hcons jobId request
  | take outcomes => exact followed_take time h hcons outcomes
  | act => exact followed_act time h hcons horder
  | report i => exact followed_report time h hcons i
  | finish i code => exact followed_finish time h hcons i code

/-! ## Which orders are safe -/

/-- Only a `PROVISIONING` callback takes a job back. -/
theorem callback_of_goesBack (time : ℕ → Time) {s : Composition} {a : Move} {j : JobId}
    (hbefore : s.world.storedStatus j = some .running)
    (hafter : (move time s a).world.storedStatus j = some .provisioning) :
    a = .act ∧ ∃ u rest, s.inHand = .callback (.str j) u :: rest ∧ u.status = .provisioning := by
  have hstored := budget_ne_none_of_storedStatus hbefore
  have hother : s.world.storedStatus j ≠ some .provisioning := by simp [hbefore]
  cases a with
  | create jobId request =>
    have hcreate : (move time s (.create jobId request)).world.storedStatus j = _ :=
      storedStatus_create s.world jobId (time s.clock) request j
    rw [if_neg fun hboth => hstored (budget_eq_none_iff.mpr hboth.2)] at hcreate
    exact absurd (hcreate.symm.trans hafter) hother
  | take outcomes =>
    rcases take_cases time s outcomes with hmove | ⟨e, -, -, hmove⟩ <;> rw [hmove] at hafter
    · exact absurd hafter hother
    · exact absurd hafter hother
  | act =>
    rcases act_cases time s with ⟨-, hmove⟩ | ⟨effect, rest, hhand, hmove⟩ <;> rw [hmove] at hafter
    · exact absurd hafter hother
    · refine ⟨rfl, ?_⟩
      unfold Composition.perform at hafter
      split at hafter
      · next k u =>
        obtain ⟨rfl, hu⟩ := storedStatus_deliver_provisioning time
          (s := { s with inHand := rest }) hstored hother hafter
        exact ⟨u, rest, hhand, hu⟩
      all_goals exact absurd hafter hother
  | report i =>
    rcases report_cases time s i with hmove | ⟨c, -, -, hmove⟩ <;> rw [hmove] at hafter
    · exact absurd hafter hother
    · cases (storedStatus_deliver_provisioning time hstored hother hafter).2
  | finish i code =>
    rcases finish_cases time s i code with hmove | ⟨c, -, -, hmove⟩ <;> rw [hmove] at hafter
    · exact absurd hafter hother
    · have hstatus := (storedStatus_deliver_provisioning time hstored hother hafter).2
      unfold exitStatus at hstatus
      split at hstatus <;> cases hstatus

/-- The callback that confirms a launch is the last effect of its message. -/
theorem inHand_of_not_launching {s : Composition} (hcons : Conserved s) {j : JobId}
    (hfree : j ∉ s.attempts.map Prod.fst) {u : JobStatusUpdate} {rest : List Effect}
    (hhand : s.inHand = .callback (.str j) u :: rest) : rest = [] := by
  obtain ⟨e, -, hmsg, hwork⟩ := hcons.work hhand
  have hid : e.jobId = j := concerns_of_work hwork _ List.mem_cons_self rfl
  rcases hwork with hrest | hafter
  · exact absurd (hid ▸ launching_subset hmsg (hhand ▸ hrest)) hfree
  · cases hafter
    rfl

/-- A `PROVISIONING` callback that finds its job not free does harm. -/
theorem free_of_commutes (time : ℕ → Time) {s : Composition} (h : Followed s)
    (hcons : Conserved s) (hcommutes : Commutes time s .act) : InOrder s .act := by
  intro _ j u rest hhand hu c hc hjob
  have hmove : move time s .act =
      { s with inHand := rest }.perform time (.callback (.str j) u) := by
    simp only [move, hhand]
  have hafter : s.world.budget j ≠ none →
      (move time s .act).world.storedStatus j = some .provisioning := by
    intro hstored
    rw [hmove, ← hu]
    exact storedStatus_deliver time (s := { s with inHand := rest }) (by simp [hu]) hstored
  constructor
  · intro hphase
    have hrunning := h.running c hc hphase
    rw [hjob] at hrunning
    exact hcommutes.1 ⟨j, hrunning, hafter (budget_ne_none_of_storedStatus hrunning)⟩
  · intro hphase
    obtain ⟨hstored, hended⟩ := h.succeeded c hc hphase
    rw [hjob] at hstored hended
    obtain rfl := inHand_of_not_launching hcons hended hhand
    have hc' : c ∈ (move time s .act).containers := by
      rw [hmove]
      exact hc
    have hnone : ∀ v, .callback (.str c.request.jobId) v ∉ (move time s .act).inHand := by
      intro v
      rw [hmove, perform_inHand]
      exact List.not_mem_nil
    have hsuccess := hcommutes.2 c hc' hphase hnone
    rw [hjob, hafter (budget_ne_none_of_storedStatus hstored)] at hsuccess
    cases hsuccess

private theorem commutes_iff (time : ℕ → Time) {s : Composition} (h : Followed s)
    (hcons : Conserved s)
    (a : Move) : Commutes time s a ↔ InOrder s a := by
  constructor
  · intro hcommutes hact
    subst hact
    exact free_of_commutes time h hcons hcommutes rfl
  · intro horder
    refine ⟨?_, (followed_move time h hcons horder).successStored⟩
    rintro ⟨j, hbefore, hafter⟩
    obtain ⟨hact, u, rest, hhand, hu⟩ := callback_of_goesBack time hbefore hafter
    obtain ⟨c, hc, hjob, hphase⟩ := h.runs j hbefore
    exact (horder hact j u rest hhand hu c hc hjob).1 hphase

private theorem followed_empty : Followed (.atRest .empty) where
  running c hc := absurd hc List.not_mem_nil
  runs j hj := by cases hj
  succeeded c hc := absurd hc List.not_mem_nil

/-- **When launch and container callbacks commute.** In a run of the composed system, no stored
status goes back from `RUNNING` to `PROVISIONING` and every exit with 0 ends up as `SUCCESS` if
and only if no `PROVISIONING` callback is delivered between the `RUNNING` report of its job's
container and a `FAILED` report of it. -/
theorem callbacks_commute_iff (time : ℕ → Time) (actions : List Move) :
    Along (move time) (Commutes time) (.atRest .empty) actions ↔
      Along (move time) InOrder (.atRest .empty) actions := by
  refine along_iff_along (I := fun s _ => Conserved s ∧ Followed s) ?_ ?_
    ⟨verdict_empty.1, followed_empty⟩
  · rintro s a rest ⟨hcons, h⟩ horder
    exact ⟨conserved_invariant time s a hcons, followed_move time h hcons horder⟩
  · rintro s a rest ⟨hcons, h⟩
    exact commutes_iff time h hcons a

/-- A short job: its container has reported `RUNNING` and `SUCCESS` before `JobConsumer` reports
the ARN, and the job stays `PROVISIONING`. -/
theorem finished_job_stays_provisioning :
    ¬ Along (move id) (Commutes id) (.atRest .empty)
      [.create "job-1" sampleRequest, .take fun _ => .task ⟨"arn:aws:ecs:task/1", by decide⟩,
        .act, .act, .report 0, .finish 0 0, .act] := by
  rintro ⟨-, -, -, -, -, -, ⟨-, hsuccess⟩, -⟩
  have hstored := hsuccess _ List.mem_cons_self rfl fun u => List.not_mem_nil
  exact absurd hstored (by decide)

end DataHarbour.System
