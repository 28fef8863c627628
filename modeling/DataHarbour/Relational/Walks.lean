import Mathlib.Data.Nat.Basic

/-!
# Walks of a relation

A walk follows the edges of a relation a number of times; vertices and edges may repeat. The
walks of the converse relation are the walks backwards, so that they have the same lengths.
-/

namespace Relational

/-- A walk of the given length. -/
inductive Walk {α : Type*} (E : α → α → Prop) : ℕ → α → α → Prop
  | nil (a : α) : Walk E 0 a a
  | snoc {n : ℕ} {a b c : α} : Walk E n a b → E b c → Walk E (n + 1) a c

variable {α : Type*} {E E' : α → α → Prop} {a b c : α} {n : ℕ}

/-- A walk of length zero stays where it is. -/
@[simp] theorem walk_zero_iff : Walk E 0 a b ↔ a = b := by
  constructor
  · rintro ⟨⟩
    rfl
  · rintro rfl
    exact .nil a

/-- A walk takes one edge and goes on from its end. -/
theorem walk_succ_iff : Walk E (n + 1) a c ↔ ∃ b, Walk E n a b ∧ E b c := by
  constructor
  · rintro (_ | ⟨hwalk, hedge⟩)
    exact ⟨_, hwalk, hedge⟩
  · rintro ⟨b, hwalk, hedge⟩
    exact .snoc hwalk hedge

/-- An edge in front of a walk. -/
theorem Walk.cons (hedge : E a b) (h : Walk E n b c) : Walk E (n + 1) a c := by
  induction h with
  | nil b => exact .snoc (.nil a) hedge
  | snoc _ hlast ih => exact .snoc (ih hedge) hlast

/-- A walk is empty or starts with an edge. -/
theorem Walk.eq_or_cons (h : Walk E n a c) :
    (n = 0 ∧ a = c) ∨ ∃ m b, n = m + 1 ∧ E a b ∧ Walk E m b c := by
  induction h with
  | nil a => exact .inl ⟨rfl, rfl⟩
  | snoc _ hedge ih =>
    rcases ih with ⟨rfl, rfl⟩ | ⟨m, b, rfl, hfirst, hrest⟩
    · exact .inr ⟨0, _, rfl, hedge, .nil _⟩
    · exact .inr ⟨m + 1, b, rfl, hfirst, .snoc hrest hedge⟩

/-- A walk backwards is a walk of the converse relation. -/
theorem Walk.converse (hconverse : ∀ a b, E a b → E' b a) (h : Walk E n a b) : Walk E' n b a := by
  induction h with
  | nil a => exact .nil a
  | snoc _ hedge ih => exact ih.cons (hconverse _ _ hedge)

/-- The length of the shortest walk that is not empty. -/
structure Shortest (E : α → α → Prop) (a b : α) (n : ℕ) : Prop where
  nonempty : 0 < n
  walk : Walk E n a b
  least : ∀ m, 0 < m → Walk E m a b → n ≤ m

/-- Shortest distances are the same along the converse edges. -/
theorem Shortest.converse (hconverse : ∀ a b, E a b ↔ E' b a) (h : Shortest E a b n) :
    Shortest E' b a n where
  nonempty := h.nonempty
  walk := h.walk.converse fun a b => (hconverse a b).mp
  least m hm hwalk := h.least m hm (hwalk.converse fun b a => (hconverse a b).mpr)

end Relational
