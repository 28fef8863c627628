import DataHarbour.Machine.Runs

/-!
# Guarded machines

A guard turns some actions away before they reach the machine. A guarded run is the run of the
admitted actions, so that what only actions of one kind can bring about takes an admitted action
of that kind.
-/

namespace Machine

variable {σ α : Type*}

/-- The step of the machine for an admitted action, and none for any other. -/
def guarded (admits : α → Bool) (step : σ → α → σ) (s : σ) (a : α) : σ :=
  if admits a then step s a else s

variable {admits : α → Bool} {step : σ → α → σ}

/-- What is turned away leaves no trace. -/
theorem run_guarded (s : σ) (actions : List α) :
    run (guarded admits step) s actions = run step s (actions.filter admits) := by
  induction actions generalizing s with
  | nil => rfl
  | cons a actions ih =>
    rw [run_cons, ih, guarded, List.filter_cons]
    split <;> rfl

/-- If only actions of one kind bring about `P`, then after a guarded run in which it came about
there was an admitted action of that kind. -/
theorem exists_admitted {P : σ → Prop} {K : α → Prop}
    (hstep : ∀ s a, ¬ P s → P (step s a) → K a) {s : σ} (hs : ¬ P s) {actions : List α}
    (h : P (run (guarded admits step) s actions)) : ∃ a ∈ actions, admits a = true ∧ K a := by
  rw [run_guarded] at h
  obtain ⟨before, a, after, heq, hbefore, ha⟩ := exists_step_of_run hs h
  have hmem : a ∈ actions.filter admits := by
    rw [heq]
    exact List.mem_append_right _ List.mem_cons_self
  obtain ⟨hmem, hadmits⟩ := List.mem_filter.mp hmem
  exact ⟨a, hmem, hadmits, hstep _ a hbefore ha⟩

end Machine
