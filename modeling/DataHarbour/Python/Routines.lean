import DataHarbour.Python.Json

/-!
# Python code that acts on the outside

A routine performs effects one after another and then returns or raises. What it did before an
exception stays done, whether the exception is caught or not. The answers of the outside may
depend on everything that was done before.
-/

namespace Python

universe u v

/-- Code that performs effects and ends with a value or an exception. -/
structure Routine (ε : Type u) (α : Type v) where
  /-- The effects and the end, given all the effects that came before. -/
  run : List ε → List ε × Except Exc α

namespace Routine

variable {ε : Type u} {α β : Type v}

/-- One effect, and what comes back from the outside. -/
def perform (effect : ε) (answer : List ε → Except Exc α) : Routine ε α :=
  ⟨fun before => ([effect], answer before)⟩

/-- Code without effects. -/
def ofExcept (result : Except Exc α) : Routine ε α := ⟨fun _ => ([], result)⟩

instance : Monad (Routine ε) where
  pure a := ofExcept (.ok a)
  bind x f := ⟨fun before =>
    match x.run before with
    | (effects, .ok a) =>
      let (later, result) := (f a).run (before ++ effects)
      (effects ++ later, result)
    | (effects, .error e) => (effects, .error e)⟩

instance : MonadExceptOf Exc (Routine ε) where
  throw e := ofExcept (.error e)
  tryCatch x handler := ⟨fun before =>
    match x.run before with
    | (effects, .ok a) => (effects, .ok a)
    | (effects, .error e) =>
      let (later, result) := (handler e).run (before ++ effects)
      (effects ++ later, result)⟩

instance : MonadLift (Except Exc) (Routine ε) := ⟨ofExcept⟩

/-- `try: x except Exception: pass`. -/
def swallow (x : Routine ε PUnit) : Routine ε PUnit := try x catch _ => pure ⟨⟩

variable {x : Routine ε α} {f : α → Routine ε β} {handler : Exc → Routine ε α}
  {before effects later : List ε} {a : α} {e : Exc}

/-- A sequence whose first part returns goes on with what it returned, after its effects. -/
theorem run_bind_of_ok {result : Except Exc β} (hx : x.run before = (effects, .ok a))
    (hf : (f a).run (before ++ effects) = (later, result)) :
    (x >>= f).run before = (effects ++ later, result) := by
  simp only [bind, hx, hf]

/-- An exception in the first part ends a sequence. -/
theorem run_bind_of_error (hx : x.run before = (effects, .error e)) :
    (x >>= f).run before = (effects, .error e) := by
  simp only [bind, hx]

/-- A value is at hand without any effect. -/
theorem bind_liftM_ok (a : α) (f : α → Routine ε β) :
    ((liftM (Except.ok a : Except Exc α) : Routine ε α) >>= f) = f a := by
  have hrun : (fun before => ([] ++ ((f a).run (before ++ [])).1, ((f a).run (before ++ [])).2)) =
      (f a).run := by
    funext before
    rw [List.append_nil, List.nil_append]
  exact congrArg Routine.mk hrun

/-- A body that returns never reaches its handler. -/
theorem run_tryCatch_of_ok (hx : x.run before = (effects, .ok a)) :
    (tryCatch x handler).run before = (effects, .ok a) := by
  simp only [tryCatch, tryCatchThe, MonadExceptOf.tryCatch, hx]

/-- A handler runs after the effects of the body that raised. -/
theorem run_tryCatch_of_error {result : Except Exc α} (hx : x.run before = (effects, .error e))
    (hhandler : (handler e).run (before ++ effects) = (later, result)) :
    (tryCatch x handler).run before = (effects ++ later, result) := by
  simp only [tryCatch, tryCatchThe, MonadExceptOf.tryCatch, hx, hhandler]

/-- A swallowed exception leaves the effects and nothing else. -/
theorem run_swallow (x : Routine ε PUnit) (before : List ε) :
    (swallow x).run before = ((x.run before).1, .ok ⟨⟩) := by
  rcases hx : x.run before with ⟨effects, e | ⟨⟩⟩
  · have hpass : ((pure ⟨⟩ : Routine ε PUnit)).run (before ++ effects) = ([], .ok ⟨⟩) := rfl
    have hcaught : (swallow x).run before = (effects ++ [], .ok ⟨⟩) :=
      run_tryCatch_of_error hx hpass
    rwa [List.append_nil] at hcaught
  · exact run_tryCatch_of_ok hx

/-! ## Loops -/

section Loops

variable {γ : Type*} {body : γ → Routine ε PUnit}

private theorem forM_cons (body : γ → Routine ε PUnit) (x : γ) (xs : List γ) :
    (x :: xs).forM body = body x >>= fun _ => xs.forM body :=
  rfl

/-- A loop whose iterations all return does what they do, one after the other. -/
theorem run_forM_of_returns {xs : List γ} {done : γ → List ε}
    (h : ∀ x ∈ xs, ∀ before, (body x).run before = (done x, .ok ⟨⟩)) (before : List ε) :
    (xs.forM body).run before = (xs.flatMap done, .ok ⟨⟩) := by
  induction xs generalizing before with
  | nil => rfl
  | cons x xs ih =>
    rw [forM_cons, List.flatMap_cons]
    exact run_bind_of_ok (h x List.mem_cons_self before)
      (ih (fun y hy => h y (List.mem_cons_of_mem x hy)) _)

/-- A loop that returns has gone through all its iterations. -/
theorem returns_of_forM {xs : List γ} {before : List ε}
    (h : ((xs.forM body).run before).2 = .ok ⟨⟩) :
    ∀ x ∈ xs, ∃ earlier, ((body x).run earlier).2 = .ok ⟨⟩ := by
  induction xs generalizing before with
  | nil => exact fun x hx => absurd hx List.not_mem_nil
  | cons x xs ih =>
    rw [forM_cons] at h
    rcases hx : (body x).run before with ⟨effects, e | ⟨⟩⟩
    · rw [run_bind_of_error hx] at h
      cases h
    · rw [run_bind_of_ok hx rfl] at h
      intro y hy
      rcases List.mem_cons.mp hy with rfl | hrest
      · exact ⟨before, by rw [hx]⟩
      · exact ih h y hrest

end Loops

end Routine

end Python
