import Mathlib.Data.List.Basic

/-!
# Runs of a step function

A machine is a total step function; an action that is not enabled leaves the state
unchanged, so every list of actions is a run and every interleaving of several parties
is a list of their actions. The rules here carry a fact about one step to all runs:
invariants, properties of every step taken, and counts of the steps of one kind.
-/

namespace Machine

variable {σ α : Type*} {step : σ → α → σ}

/-- The state after the actions, taken in order. -/
def run (step : σ → α → σ) (s : σ) (actions : List α) : σ :=
  actions.foldl step s

/-- The empty run stays where it is. -/
@[simp] theorem run_nil (s : σ) : run step s [] = s := rfl

/-- A run takes its first action first. -/
@[simp] theorem run_cons (s : σ) (a : α) (actions : List α) :
    run step s (a :: actions) = run step (step s a) actions := rfl

/-- Runs compose. -/
theorem run_append (s : σ) (first second : List α) :
    run step s (first ++ second) = run step (run step s first) second :=
  List.foldl_append

/-- Some run leads from the one state to the other. -/
def Reaches (step : σ → α → σ) (s s' : σ) : Prop := ∃ actions, run step s actions = s'

/-- Every state reaches itself. -/
theorem Reaches.refl (s : σ) : Reaches step s s := ⟨[], rfl⟩

/-- One step reaches its target. -/
theorem Reaches.of_step {s s' : σ} (a : α) (h : step s a = s') : Reaches step s s' := ⟨[a], h⟩

/-- Reachability is transitive. -/
theorem Reaches.trans {s s' s'' : σ} (h : Reaches step s s') (h' : Reaches step s' s'') :
    Reaches step s s'' := by
  obtain ⟨first, rfl⟩ := h
  obtain ⟨second, rfl⟩ := h'
  exact ⟨first ++ second, run_append s first second⟩

/-- A property that holds after a run but not before it was brought about by one of the
steps. -/
theorem exists_step_of_run {P : σ → Prop} {s : σ} {actions : List α} (hs : ¬ P s)
    (h : P (run step s actions)) :
    ∃ before a after, actions = before ++ a :: after ∧ ¬ P (run step s before) ∧
      P (step (run step s before) a) := by
  induction actions generalizing s with
  | nil => exact absurd h hs
  | cons a actions ih =>
    by_cases ha : P (step s a)
    · exact ⟨[], a, actions, rfl, hs, ha⟩
    · obtain ⟨before, b, after, heq, hbefore, hb⟩ := ih ha h
      exact ⟨a :: before, b, after, by rw [heq]; rfl, hbefore, hb⟩

/-- A property of states that no action breaks. -/
def Invariant (step : σ → α → σ) (I : σ → Prop) : Prop :=
  ∀ s a, I s → I (step s a)

/-- An invariant that holds at the start holds after every run. -/
theorem Invariant.run {I : σ → Prop} (hinv : Invariant step I) {s : σ} (hs : I s)
    (actions : List α) : I (run step s actions) := by
  induction actions generalizing s with
  | nil => exact hs
  | cons a actions ih => exact ih (hinv s a hs)

/-- Every step of the run satisfies `P`, a property of the state before the step
and the action taken. -/
def Along (step : σ → α → σ) (P : σ → α → Prop) : σ → List α → Prop
  | _, [] => True
  | s, a :: actions => P s a ∧ Along step P (step s a) actions

/-- Every condition holds along the empty run. -/
@[simp] theorem along_nil {P : σ → α → Prop} {s : σ} : Along step P s [] := trivial

/-- A condition along a run, read off its first action. -/
@[simp] theorem along_cons {P : σ → α → Prop} {s : σ} {a : α} {actions : List α} :
    Along step P s (a :: actions) ↔ P s a ∧ Along step P (step s a) actions := Iff.rfl

/-- A condition holds along a run exactly when it holds along both of its parts. -/
theorem along_append {P : σ → α → Prop} {s : σ} {first second : List α} :
    Along step P s (first ++ second) ↔
      Along step P s first ∧ Along step P (run step s first) second := by
  induction first generalizing s with
  | nil => simp
  | cons a first ih => simp only [List.cons_append, along_cons, ih, run_cons, and_assoc]

/-- `Along` in terms of prefixes: at every split of the actions, the action after the
prefix satisfies `P` in the state that the prefix reaches. -/
theorem along_iff_forall_split {P : σ → α → Prop} {s : σ} {actions : List α} :
    Along step P s actions ↔
      ∀ first a rest, actions = first ++ a :: rest → P (run step s first) a := by
  induction actions generalizing s with
  | nil => simp
  | cons b actions ih =>
    rw [along_cons, ih]
    constructor
    · rintro ⟨hb, hrest⟩ first a rest heq
      cases first with
      | nil =>
        obtain ⟨rfl, -⟩ := List.cons.inj heq
        exact hb
      | cons c first =>
        obtain ⟨rfl, htail⟩ := List.cons.inj heq
        exact hrest first a rest htail
    · intro h
      exact ⟨h [] b actions rfl, fun first a rest heq => h (b :: first) a rest (by simp [heq])⟩

/-- A condition on the steps that preserves an invariant and gives a property of each
step gives both for the whole run. -/
theorem Along.imp_invariant {I : σ → Prop} {P Q : σ → α → Prop}
    (hstep : ∀ s a, I s → Q s a → P s a ∧ I (step s a)) {s : σ} (hs : I s)
    {actions : List α} (hQ : Along step Q s actions) :
    Along step P s actions ∧ I (Machine.run step s actions) := by
  induction actions generalizing s with
  | nil => exact ⟨trivial, hs⟩
  | cons a actions ih =>
    obtain ⟨hP, hI⟩ := hstep s a hs hQ.1
    obtain ⟨hrest, hend⟩ := ih hI hQ.2
    exact ⟨⟨hP, hrest⟩, hend⟩

/-- What each allowed step preserves holds at the end of an allowed run. -/
theorem Along.preserves {I : σ → Prop} {Q : σ → α → Prop} {s : σ} {actions : List α}
    (hQ : Along step Q s actions) (hstep : ∀ s a, I s → Q s a → I (step s a)) (hs : I s) :
    I (Machine.run step s actions) := by
  have h : Along step (fun _ _ => True) s actions ∧ I (Machine.run step s actions) :=
    Along.imp_invariant (fun s a hI ha => ⟨trivial, hstep s a hI ha⟩) hs hQ
  exact h.2

/-- A condition on the steps can be weakened. -/
theorem Along.imp {P Q : σ → α → Prop} {s : σ} {actions : List α} (hQ : Along step Q s actions)
    (h : ∀ s a, Q s a → P s a) : Along step P s actions :=
  (Along.imp_invariant (I := fun _ => True) (fun s a _ hstep => ⟨h s a hstep, trivial⟩) trivial
    hQ).1

/-- A property holds in the first state of the run and after each of its actions. -/
def Always (step : σ → α → σ) (A : σ → Prop) (s : σ) (actions : List α) : Prop :=
  ∀ before rest, actions = before ++ rest → A (Machine.run step s before)

/-- What always holds along a run holds at its start and along the rest. -/
theorem always_cons {A : σ → Prop} {s : σ} {a : α} {actions : List α} :
    Always step A s (a :: actions) ↔ A s ∧ Always step A (step s a) actions := by
  constructor
  · intro h
    exact ⟨h [] (a :: actions) rfl, fun before rest heq => h (a :: before) rest (by simp [heq])⟩
  · rintro ⟨hs, hrest⟩ before rest heq
    cases before with
    | nil => exact hs
    | cons b before =>
      obtain ⟨rfl, htail⟩ := List.cons.inj heq
      exact hrest before rest htail

/-- What always holds along a run holds where it starts. -/
theorem Always.start {A : σ → Prop} {s : σ} {actions : List α}
    (h : Always step A s actions) : A s :=
  h [] actions rfl

/-- A property holds throughout a run exactly when it holds at the start and every step
leads to it. -/
theorem always_iff {A : σ → Prop} {s : σ} {actions : List α} :
    Always step A s actions ↔ A s ∧ Along step (fun s a => A (step s a)) s actions := by
  induction actions generalizing s with
  | nil =>
    refine ⟨fun h => ⟨h.start, trivial⟩, fun ⟨hs, _⟩ before rest heq => ?_⟩
    obtain ⟨rfl, -⟩ := List.append_eq_nil_iff.mp heq.symm
    exact hs
  | cons a actions ih => rw [always_cons, ih, along_cons]

/-- Two properties of steps that are equivalent under an invariant hold along the same runs.
The invariant may speak of the actions that are still to come, and has to be kept only by
steps with the second property. -/
theorem along_iff_along {I : σ → List α → Prop} {P Q : σ → α → Prop}
    (hinv : ∀ s a rest, I s (a :: rest) → Q s a → I (step s a) rest)
    (hstep : ∀ s a rest, I s (a :: rest) → (P s a ↔ Q s a)) {s : σ} {actions : List α}
    (hs : I s actions) : Along step P s actions ↔ Along step Q s actions := by
  induction actions generalizing s with
  | nil => exact Iff.rfl
  | cons a actions ih =>
    rw [along_cons, along_cons, hstep s a actions hs]
    exact and_congr_right fun hQ => ih (hinv s a actions hs hQ)

/-- A property holds throughout a run exactly when every step meets the condition that
tells whether the step keeps it. The condition may rely on an unconditional invariant. -/
theorem always_iff_along {I : σ → List α → Prop} {A : σ → Prop} {Q : σ → α → Prop}
    (hinv : ∀ s a rest, I s (a :: rest) → I (step s a) rest)
    (hstep : ∀ s a rest, I s (a :: rest) → A s → (A (step s a) ↔ Q s a)) {s : σ}
    {actions : List α} (hI : I s actions) (hA : A s) :
    Always step A s actions ↔ Along step Q s actions := by
  have hiff : Along step (fun s a => A (step s a)) s actions ↔ Along step Q s actions := by
    refine along_iff_along (I := fun s rest => I s rest ∧ A s) ?_ ?_ ⟨hI, hA⟩
    · rintro s a rest ⟨hI, hA⟩ hQ
      exact ⟨hinv s a rest hI, (hstep s a rest hI hA).mpr hQ⟩
    · rintro s a rest ⟨hI, hA⟩
      exact hstep s a rest hI hA
  rw [always_iff, hiff]
  exact and_iff_right hA

/-- The actions of a run that satisfy a decidable property in the state they meet. -/
def taken (step : σ → α → σ) (p : σ → α → Bool) : σ → List α → List α
  | _, [] => []
  | s, a :: actions =>
    if p s a then a :: taken step p (step s a) actions else taken step p (step s a) actions

/-- The taken actions of a run in two parts. -/
theorem taken_append (p : σ → α → Bool) (s : σ) (first second : List α) :
    taken step p s (first ++ second) =
      taken step p s first ++ taken step p (run step s first) second := by
  induction first generalizing s with
  | nil => rfl
  | cons a first ih =>
    rw [List.cons_append, run_cons, taken, taken, ih]
    cases p s a <;> rfl

/-- Every action of a run is taken when nothing is refused. -/
@[simp] theorem taken_true (s : σ) (actions : List α) :
    taken step (fun _ _ => true) s actions = actions := by
  induction actions generalizing s with
  | nil => rfl
  | cons a actions ih => simp [taken, ih]

/-- What the taken actions bring about one by one, and nothing undoes, holds after a run
exactly if it held before or one of them brings it about. -/
theorem holds_run_iff (p : σ → α → Bool) {I : σ → Prop} (Holds : σ → Prop) (Adds : α → Prop)
    (hinv : Invariant step I)
    (hstep : ∀ s a, I s → (Holds (step s a) ↔ Holds s ∨ p s a = true ∧ Adds a)) {s : σ}
    (hs : I s) (actions : List α) :
    Holds (run step s actions) ↔ Holds s ∨ ∃ a ∈ taken step p s actions, Adds a := by
  induction actions generalizing s with
  | nil => simp [taken]
  | cons a actions ih =>
    rw [run_cons, ih (hinv s a hs), hstep s a hs, taken]
    cases p s a with
    | true => simp [or_assoc]
    | false => simp

/-- The number of steps of a run that satisfy a decidable property. -/
def countSteps (step : σ → α → σ) (p : σ → α → Bool) : σ → List α → ℕ
  | _, [] => 0
  | s, a :: actions => (if p s a then 1 else 0) + countSteps step p (step s a) actions

end Machine
