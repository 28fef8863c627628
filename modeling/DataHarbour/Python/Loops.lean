import Mathlib.Data.List.Basic

/-!
# Loops whose body may raise

A `for` loop over a list is `List.foldlM` in `Except`: the first exception ends it. Beside
it stand the filtering comprehension and the search with `break`. Two programs agree when
they raise the same exception or end in related states; a loop agrees with another one as
soon as their bodies do.
-/

namespace Python

variable {ε α β γ : Type}

/-- A sequence returns if both of its parts do. -/
theorem bind_eq_ok {x : Except ε α} {f : α → Except ε β} {b : β} :
    (x >>= f) = .ok b ↔ ∃ a, x = .ok a ∧ f a = .ok b := by
  cases x <;> simp [bind, Except.bind]

/-- Both computations raise the same exception, or both return and the results are
related. -/
inductive Agree (R : α → β → Prop) : Except ε α → Except ε β → Prop
  | ok {a : α} {b : β} (h : R a b) : Agree R (.ok a) (.ok b)
  | error (e : ε) : Agree R (.error e) (.error e)

namespace Agree

variable {R : α → β → Prop}

/-- When the first program returns, so does the second. -/
theorem of_ok {a : α} {y : Except ε β} (h : Agree R (.ok a) y) : ∃ b, y = .ok b ∧ R a b := by
  cases h with
  | ok h => exact ⟨_, rfl, h⟩

/-- When the second program returns, so does the first. -/
theorem of_ok_right {x : Except ε α} {b : β} (h : Agree R x (.ok b)) : ∃ a, x = .ok a ∧ R a b := by
  cases h with
  | ok h => exact ⟨_, rfl, h⟩

/-- Agreement is monotone in the relation between the results. -/
theorem mono {S : α → β → Prop} {x : Except ε α} {y : Except ε β} (h : Agree R x y)
    (hRS : ∀ a b, R a b → S a b) : Agree S x y := by
  cases h with
  | ok h => exact .ok (hRS _ _ h)
  | error e => exact .error e

/-- Programs agree when their first steps do and what follows does. -/
theorem bind {α' β' : Type} {S : α' → β' → Prop} {x : Except ε α} {y : Except ε β}
    {f : α → Except ε α'} {g : β → Except ε β'} (h : Agree R x y)
    (hnext : ∀ a b, R a b → Agree S (f a) (g b)) : Agree S (x >>= f) (y >>= g) := by
  cases h with
  | ok h => exact hnext _ _ h
  | error e => exact .error e

/-- Loops agree when their bodies do. -/
theorem foldlM {f : α → γ → Except ε α} {g : β → γ → Except ε β}
    (hbody : ∀ a b c, R a b → Agree R (f a c) (g b c)) (l : List γ) {a : α} {b : β}
    (h : R a b) : Agree R (l.foldlM f a) (l.foldlM g b) := by
  induction l generalizing a b with
  | nil => exact .ok h
  | cons c l ih =>
    rw [List.foldlM_cons, List.foldlM_cons]
    exact (hbody a b c h).bind fun a' b' h' => ih h'

end Agree

/-- A loop whose body fails only while it prepares its element can prepare all of them first. -/
theorem foldlM_map_eq (prepare : γ → Option β) (body : α → β → α) (l : List γ) (a : α) :
    l.foldlM (fun a c => (prepare c).map (body a)) a =
      (l.mapM prepare).map fun bs => bs.foldl body a := by
  induction l generalizing a with
  | nil => rfl
  | cons c l ih =>
    rw [List.foldlM_cons, List.mapM_cons]
    cases prepare c with
    | none => rfl
    | some b =>
      have hrest := ih (body a b)
      simp only [Option.map_some, Option.bind_eq_bind, Option.bind_some] at hrest ⊢
      rw [hrest]
      cases l.mapM prepare <;> rfl

/-- What the body of a loop preserves holds after the loop. -/
theorem foldlM_preserves {P : α → Prop} {f : α → γ → Except ε α}
    (hbody : ∀ a c b, P a → f a c = .ok b → P b) {l : List γ} {a b : α} (ha : P a)
    (h : l.foldlM f a = .ok b) : P b := by
  induction l generalizing a with
  | nil =>
    have hab : a = b := by simpa [pure, Except.pure] using h
    exact hab ▸ ha
  | cons c l ih =>
    rw [List.foldlM_cons] at h
    cases hc : f a c with
    | error e => simp [hc, bind, Except.bind] at h
    | ok a' => exact ih (hbody a c a' ha hc) (by simpa [hc, bind, Except.bind] using h)

/-- A loop returns if its body does, in every state that the body leads to. -/
theorem foldlM_returns {P : α → Prop} {f : α → γ → Except ε α}
    (hbody : ∀ a c, P a → ∃ b, f a c = .ok b ∧ P b) (l : List γ) {a : α} (ha : P a) :
    ∃ b, l.foldlM f a = .ok b ∧ P b := by
  induction l generalizing a with
  | nil => exact ⟨a, rfl, ha⟩
  | cons c l ih =>
    obtain ⟨a', hstep, ha'⟩ := hbody a c ha
    obtain ⟨b, hrest, hb⟩ := ih ha'
    refine ⟨b, ?_, hb⟩
    rw [List.foldlM_cons, hstep]
    exact hrest

/-- `[x for x in xs if p(x)]`, where the test may raise. -/
def filterE (p : α → Except ε Bool) : List α → Except ε (List α)
  | [] => .ok []
  | x :: xs => do
    let keep ← p x
    let rest ← filterE p xs
    return if keep then x :: rest else rest

/-- `for x in xs: if p(x): ...; break`: the first element that passes the test. -/
def findE (p : α → Except ε Bool) : List α → Except ε (Option α)
  | [] => .ok none
  | x :: xs => do
    if ← p x then return some x else findE p xs

/-- A comprehension that returns keeps what the tests, which all returned, say. -/
theorem filterE_eq_ok {p : α → Except ε Bool} {q : α → Bool} (hq : ∀ x b, p x = .ok b → b = q x)
    {xs ys : List α} (h : filterE p xs = .ok ys) : ys = xs.filter q := by
  induction xs generalizing ys with
  | nil =>
    have hys : [] = ys := by simpa [filterE] using h
    exact hys.symm
  | cons x xs ih =>
    cases hx : p x with
    | error e => simp [filterE, hx, bind, Except.bind] at h
    | ok keep =>
      cases hrest : filterE p xs with
      | error e => simp [filterE, hx, hrest, bind, Except.bind] at h
      | ok rest =>
        have hys : (if keep then x :: rest else rest) = ys := by
          simpa [filterE, hx, hrest, bind, Except.bind, pure, Except.pure] using h
        have hkeep : keep = q x := hq x keep hx
        rw [← hys, List.filter_cons, ← hkeep, ih hrest]

/-- A comprehension returns if its tests do. -/
theorem filterE_returns {p : α → Except ε Bool} {xs : List α} (h : ∀ x ∈ xs, ∃ b, p x = .ok b) :
    ∃ ys, filterE p xs = .ok ys := by
  induction xs with
  | nil => exact ⟨[], rfl⟩
  | cons x xs ih =>
    obtain ⟨⟨keep, hkeep⟩, hrest⟩ := List.forall_mem_cons.mp h
    obtain ⟨rest, heq⟩ := ih hrest
    exact ⟨_, by rw [filterE, hkeep, heq]; rfl⟩

/-- Filtering the images is filtering first, by the composed test. -/
theorem filterE_map {p : β → Except ε Bool} (f : α → β) (xs : List α) :
    filterE p (xs.map f) = (filterE (fun x => p (f x)) xs).map (List.map f) := by
  induction xs with
  | nil => rfl
  | cons x xs ih =>
    rw [List.map_cons, filterE, filterE, ih]
    cases p (f x) with
    | error e => rfl
    | ok keep =>
      cases filterE (fun x => p (f x)) xs with
      | error e => rfl
      | ok rest => cases keep <;> rfl

/-- A comprehension keeps a sublist. -/
theorem filterE_sublist {p : α → Except ε Bool} {xs ys : List α} (h : filterE p xs = .ok ys) :
    ys.Sublist xs := by
  induction xs generalizing ys with
  | nil =>
    have hys : [] = ys := by simpa [filterE] using h
    exact hys ▸ List.Sublist.refl _
  | cons x xs ih =>
    cases hx : p x with
    | error e => simp [filterE, hx, bind, Except.bind] at h
    | ok keep =>
      cases hrest : filterE p xs with
      | error e => simp [filterE, hx, hrest, bind, Except.bind] at h
      | ok rest =>
        have hys : (if keep then x :: rest else rest) = ys := by
          simpa [filterE, hx, hrest, bind, Except.bind, pure, Except.pure] using h
        rw [← hys]
        cases keep with
        | true => exact (ih hrest).cons_cons x
        | false => exact (ih hrest).cons x

end Python
