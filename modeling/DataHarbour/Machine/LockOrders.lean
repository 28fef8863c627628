import Mathlib.Data.List.Basic

/-!
# Orders of acquisition

Two sides take locks one after another and keep them. They can come to wait for each other
exactly if the first of the shared locks is not the same for both.
-/

namespace Locking

variable {κ : Type*}

/-- A list taken apart at its first element with a property. -/
theorem exists_first {p : κ → Prop} {locks : List κ} (h : ∃ k ∈ locks, p k) :
    ∃ before k after, locks = before ++ k :: after ∧ p k ∧ ∀ k' ∈ before, ¬ p k' := by
  induction locks with
  | nil =>
    obtain ⟨_, hmem, -⟩ := h
    cases hmem
  | cons k locks ih =>
    by_cases hk : p k
    · exact ⟨[], k, locks, rfl, hk, by simp⟩
    · obtain ⟨k', hmem, hk'⟩ := h
      have htail : k' ∈ locks := (List.mem_cons.mp hmem).resolve_left fun heq => hk (heq ▸ hk')
      obtain ⟨before, k'', after, rfl, hk'', hbefore⟩ := ih ⟨k', htail, hk'⟩
      refine ⟨k :: before, k'', after, rfl, hk'', fun x hx => ?_⟩
      rcases List.mem_cons.mp hx with rfl | hx
      · exact hk
      · exact hbefore x hx

variable [DecidableEq κ]

/-- The first of the locks that the other side takes as well. -/
def firstShared (locks others : List κ) : Option κ := locks.find? (· ∈ others)

private theorem firstShared_of_split {before after others : List κ} {k : κ} (hk : k ∈ others)
    (hbefore : ∀ x ∈ before, x ∉ others) :
    firstShared (before ++ k :: after) others = some k := by
  have hnone : before.find? (· ∈ others) = none :=
    List.find?_eq_none.mpr fun x hx => by simpa using hbefore x hx
  rw [firstShared, List.find?_append, hnone, Option.none_or]
  exact List.find?_cons_of_pos (by simpa using hk)

/-- A side that holds a shared lock holds the first one. -/
theorem firstShared_mem_held {held others : List κ} {k : κ} (hk : k ∈ held)
    (hshared : k ∈ others) (rest : List κ) :
    ∃ first ∈ held, firstShared (held ++ rest) others = some first := by
  rw [firstShared, List.find?_append]
  cases hfirst : held.find? (· ∈ others) with
  | none => simpa [hshared] using List.find?_eq_none.mp hfirst k hk
  | some first => exact ⟨first, List.mem_of_find?_eq_some hfirst, rfl⟩

/-- Two sides that wait for each other have taken different shared locks first. -/
theorem firstShared_ne_of_cycle {held held' rest rest' : List κ} {k k' : κ} (hk : k ∈ held')
    (hk' : k' ∈ held) (hdisjoint : ∀ x ∈ held, x ∉ held') :
    firstShared (held ++ k :: rest) (held' ++ k' :: rest') ≠
      firstShared (held' ++ k' :: rest') (held ++ k :: rest) := by
  have hmem : k ∈ held ++ k :: rest := List.mem_append_right _ List.mem_cons_self
  have hmem' : k' ∈ held' ++ k' :: rest' := List.mem_append_right _ List.mem_cons_self
  obtain ⟨first, hfirst, hleft⟩ := firstShared_mem_held hk' hmem' (k :: rest)
  obtain ⟨first', hfirst', hright⟩ := firstShared_mem_held hk hmem (k' :: rest')
  rw [hleft, hright]
  intro heq
  exact hdisjoint first hfirst (Option.some.inj heq ▸ hfirst')

/-- If the first shared locks differ, both sides can come to wait for each other. -/
theorem exists_cycle {locks locks' : List κ}
    (h : firstShared locks locks' ≠ firstShared locks' locks) :
    ∃ held k rest held' k' rest', locks = held ++ k :: rest ∧ locks' = held' ++ k' :: rest' ∧
      k ∈ held' ∧ k' ∈ held ∧ ∀ x ∈ held, x ∉ held' := by
  have hshared : ∃ k ∈ locks, k ∈ locks' := by
    by_contra hnone
    refine h ?_
    have hleft : firstShared locks locks' = none :=
      List.find?_eq_none.mpr fun k hk => by simpa using fun hk' => hnone ⟨k, hk, hk'⟩
    have hright : firstShared locks' locks = none :=
      List.find?_eq_none.mpr fun k hk' => by simpa using fun hk => hnone ⟨k, hk, hk'⟩
    rw [hleft, hright]
  have hshared' : ∃ k ∈ locks', k ∈ locks := by
    obtain ⟨k, hk, hk'⟩ := hshared
    exact ⟨k, hk', hk⟩
  obtain ⟨a, c, b, hlocks, hc, ha⟩ := exists_first hshared
  obtain ⟨a', c', b', hlocks', hc', ha'⟩ := exists_first hshared'
  have hne : c ≠ c' := by
    rintro rfl
    refine h ?_
    have hleft : firstShared locks locks' = some c := hlocks ▸ firstShared_of_split hc ha
    have hright : firstShared locks' locks = some c := hlocks' ▸ firstShared_of_split hc' ha'
    rw [hleft, hright]
  have hmem' : c' ∈ locks' := hlocks' ▸ by simp
  have hmem : c ∈ locks := hlocks ▸ by simp
  have hb : c' ∈ b := by
    rw [hlocks] at hc'
    rcases List.mem_append.mp hc' with hin | hin
    · exact absurd hmem' (ha c' hin)
    · exact (List.mem_cons.mp hin).resolve_left (Ne.symm hne)
  -- the left side stops before the first lock of the right side
  obtain ⟨b₁, b₂, rfl, hb₁⟩ := List.eq_append_cons_of_mem hb
  have hb' : ∃ k ∈ b', k ∈ a ++ c :: b₁ := by
    rw [hlocks'] at hc
    rcases List.mem_append.mp hc with hin | hin
    · exact absurd hmem (ha' c hin)
    · exact ⟨c, (List.mem_cons.mp hin).resolve_left hne, by simp⟩
  -- the right side goes on until it needs a lock of the left side
  obtain ⟨b₁', k', b₂', rfl, hk', hb₁'⟩ := exists_first hb'
  refine ⟨a ++ c :: b₁, c', b₂, a' ++ c' :: b₁', k', b₂', by simp [hlocks], by simp [hlocks'],
    by simp, hk', fun x hx hx' => ?_⟩
  have hxlocks : x ∈ locks := by
    rw [hlocks]
    rcases List.mem_append.mp hx with hin | hin
    · exact List.mem_append_left _ hin
    · exact List.mem_append_right _ (by simp at hin ⊢; tauto)
  rcases List.mem_append.mp hx' with hin | hin
  · exact ha' x hin hxlocks
  · rcases List.mem_cons.mp hin with rfl | hin
    · rcases List.mem_append.mp hx with hleft | hleft
      · exact ha x hleft hmem'
      · rcases List.mem_cons.mp hleft with rfl | hleft
        · exact hne rfl
        · exact hb₁ hleft
    · exact hb₁' x hin hx

end Locking
