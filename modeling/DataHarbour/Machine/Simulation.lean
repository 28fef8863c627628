import DataHarbour.Machine.Runs

/-!
# Forward simulation

A relation between the states of two machines that every step of the first keeps, if the second
takes some actions in return, carries over to runs: each run of the first is answered by one of the
second that is put together from the answers to its actions.
-/

namespace Machine

variable {σ α τ β : Type*}

/-- Each step of the first machine is answered by actions of the second. -/
def Simulates (step : σ → α → σ) (step' : τ → β → τ) (R : σ → τ → Prop)
    (Answers : α → List β → Prop) : Prop :=
  ∀ s t a, R s t → ∃ answer, Answers a answer ∧ R (step s a) (run step' t answer)

/-- A list that is put together from answers to the actions. -/
inductive AnsweredBy (Answers : α → List β → Prop) : List α → List β → Prop
  | nil : AnsweredBy Answers [] []
  | cons {a : α} {answer : List β} {actions : List α} {answers : List β} (h : Answers a answer)
    (hrest : AnsweredBy Answers actions answers) :
    AnsweredBy Answers (a :: actions) (answer ++ answers)

/-- What holds of every action of an answer holds of every action of the answers. -/
theorem AnsweredBy.forall_mem {Answers : α → List β → Prop} {P : β → Prop}
    (h : ∀ a answer, Answers a answer → ∀ b ∈ answer, P b) {actions : List α} {answers : List β}
    (hanswered : AnsweredBy Answers actions answers) : ∀ b ∈ answers, P b := by
  induction hanswered with
  | nil => simp
  | cons ha _ ih => exact List.forall_mem_append.mpr ⟨h _ _ ha, ih⟩

/-- **Simulation.** Every run is answered by a run. -/
theorem Simulates.run {step : σ → α → σ} {step' : τ → β → τ} {R : σ → τ → Prop}
    {Answers : α → List β → Prop} (h : Simulates step step' R Answers) {s : σ} {t : τ}
    (hR : R s t) (actions : List α) :
    ∃ answers, AnsweredBy Answers actions answers ∧
      R (Machine.run step s actions) (Machine.run step' t answers) := by
  induction actions generalizing s t with
  | nil => exact ⟨[], .nil, hR⟩
  | cons a actions ih =>
    obtain ⟨answer, ha, hnext⟩ := h s t a hR
    obtain ⟨answers, hrest, hend⟩ := ih hnext
    exact ⟨answer ++ answers, .cons ha hrest, by rwa [run_append]⟩

end Machine
