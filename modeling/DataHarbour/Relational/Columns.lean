import Mathlib.Data.String.Basic

/-!
# Text columns

What a column of type `VARCHAR(n)` stores of a text. The limit counts characters; spaces past
the limit are cut off, and any other text that is too long is an error.
-/

namespace Relational

/-- The text as a `VARCHAR(n)` column stores it, `none` if the statement fails. -/
def varchar (n : ℕ) (text : String) : Option String :=
  if '\x00' ∈ text.toList then none
  else if text.length ≤ n then some text
  else if (text.toList.drop n).all (· = ' ') then some (String.ofList (text.toList.take n))
  else none

/-- A text is stored as it is, or cut to the limit. -/
theorem varchar_eq_some {n : ℕ} {text stored : String} (h : varchar n text = some stored) :
    stored = text ∨ n < text.length ∧ stored.length = n := by
  unfold varchar at h
  split at h
  · cases h
  · split at h
    · exact .inl (Option.some.inj h).symm
    · next hlength =>
      split at h
      · obtain rfl := Option.some.inj h
        refine .inr ⟨by omega, ?_⟩
        have hlist : text.toList.length = text.length := String.length_toList
        rw [String.length_ofList, List.length_take, hlist]
        omega
      · cases h

/-- What a column stores, it stores again as it is. -/
theorem varchar_stored {n : ℕ} {text stored : String} (h : varchar n text = some stored) :
    varchar n stored = some stored := by
  unfold varchar at h
  split at h
  · cases h
  · next hnull =>
    split at h
    · next hlength =>
      obtain rfl := Option.some.inj h
      simp [varchar, hnull, hlength]
    · split at h
      · obtain rfl := Option.some.inj h
        have hnull' : '\x00' ∉ text.toList.take n := fun hmem => hnull (List.mem_of_mem_take hmem)
        simp [varchar, hnull']
      · cases h

end Relational
