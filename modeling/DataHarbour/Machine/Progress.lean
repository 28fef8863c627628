import DataHarbour.Machine.Runs

/-!
# Progress against a bounded backlog

A backlog that no step of a run raises, and that each step of one kind lowers by a quantum, leaves
room for only so many such steps. A goal that nothing takes back and that has to be reached
before a backlog is worked off is therefore reached when enough of them are taken.
-/

namespace Machine

variable {σ α : Type*} {step : σ → α → σ}

private theorem not_along_of_run {Goal : σ → Prop} (hkeep : Invariant step Goal) {s : σ}
    {actions : List α} (h : ¬ Goal (run step s actions)) :
    Along step (fun s a => ¬ Goal (step s a)) s actions := by
  induction actions generalizing s with
  | nil => trivial
  | cons a actions ih => exact ⟨fun hgoal => h (hkeep.run hgoal actions), ih h⟩

/-- Two conditions that hold along a run hold together along it. -/
theorem Along.and {P Q : σ → α → Prop} {s : σ} {actions : List α} (hP : Along step P s actions)
    (hQ : Along step Q s actions) : Along step (fun s a => P s a ∧ Q s a) s actions := by
  induction actions generalizing s with
  | nil => trivial
  | cons a actions ih => exact ⟨⟨hP.1, hQ.1⟩, ih hP.2 hQ.2⟩

/-- The steps of the kind `p` that a backlog has room for. -/
theorem mul_countSteps_le {I : σ → Prop} {Q : σ → α → Prop} {p : σ → α → Bool} {backlog : σ → ℕ}
    {quantum : ℕ}
    (hstep : ∀ s a, I s → Q s a → I (step s a) ∧
      backlog (step s a) + (if p s a then quantum else 0) ≤ backlog s)
    {s : σ} (hs : I s) {actions : List α} (hQ : Along step Q s actions) :
    quantum * countSteps step p s actions ≤ backlog s := by
  induction actions generalizing s with
  | nil => simp [countSteps]
  | cons a actions ih =>
    obtain ⟨hI, hless⟩ := hstep s a hs hQ.1
    have hrest := ih hI hQ.2
    rw [countSteps, Nat.mul_add]
    cases hp : p s a with
    | true =>
      simp only [hp, if_true] at hless ⊢
      omega
    | false =>
      simp only [hp, Bool.false_eq_true, if_false] at hless ⊢
      omega

/-- **Progress.** A lasting goal is reached by a run with more steps of the kind `p` than the
backlog has quanta, if every such step that does not lead to the goal lowers the backlog. -/
theorem reached_of_countSteps {I : σ → Prop} {Q : σ → α → Prop} {p : σ → α → Bool}
    {backlog : σ → ℕ} {quantum : ℕ} {Goal : σ → Prop} (hkeep : Invariant step Goal)
    (hstep : ∀ s a, I s → Q s a → ¬ Goal (step s a) → I (step s a) ∧
      backlog (step s a) + (if p s a then quantum else 0) ≤ backlog s)
    {s : σ} (hs : I s) {actions : List α} (hQ : Along step Q s actions)
    (hmany : backlog s / quantum < countSteps step p s actions) (hquantum : 0 < quantum) :
    Goal (run step s actions) := by
  by_contra hgoal
  have hroom : quantum * countSteps step p s actions ≤ backlog s :=
    mul_countSteps_le (fun s a hI h => hstep s a hI h.1 h.2) hs
      (hQ.and (not_along_of_run hkeep hgoal))
  rw [Nat.div_lt_iff_lt_mul hquantum, Nat.mul_comm] at hmany
  exact absurd hroom (Nat.not_le.mpr hmany)

end Machine
