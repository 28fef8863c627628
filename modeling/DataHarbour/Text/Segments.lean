import Mathlib.Data.List.Infix

/-!
# Paths of closed segments

A path in which every segment ends with a separator. As long as no segment contains the
separator, the path determines its segments, and a path is a prefix of another one exactly if
its segments are.
-/

namespace Text

variable {α : Type*} {sep : α}

/-- The segments one after another, each closed by the separator. -/
def path (sep : α) (segments : List (List α)) : List α := segments.flatMap (· ++ [sep])

/-- The path of no segment is empty. -/
@[simp] theorem path_nil (sep : α) : path sep [] = [] := rfl

/-- A path is its first segment, the separator and the rest. -/
@[simp] theorem path_cons (sep : α) (w : List α) (ws : List (List α)) :
    path sep (w :: ws) = w ++ sep :: path sep ws := by
  simp [path]

/-- The first separator closes the first segment. -/
theorem prefix_closed_iff {w w' rest rest' : List α} (hw : sep ∉ w) (hw' : sep ∉ w') :
    w ++ sep :: rest <+: w' ++ sep :: rest' ↔ w = w' ∧ rest <+: rest' := by
  induction w generalizing w' with
  | nil =>
    cases w' with
    | nil => simp
    | cons c w' =>
      have hc : sep ≠ c := fun heq => hw' (heq ▸ List.mem_cons_self)
      simp [hc]
  | cons c w ih =>
    obtain ⟨hc, htail⟩ := not_or.mp (mt List.mem_cons.mpr hw)
    cases w' with
    | nil => simp [Ne.symm hc]
    | cons c' w' =>
      have htail' : sep ∉ w' := fun hmem => hw' (List.mem_cons_of_mem c' hmem)
      rw [List.cons_append, List.cons_append, List.cons_prefix_cons, ih htail htail',
        List.cons.injEq, and_assoc]

/-- Paths are ordered as their segments. -/
theorem path_prefix_iff {ws ws' : List (List α)} (hws : ∀ w ∈ ws, sep ∉ w)
    (hws' : ∀ w ∈ ws', sep ∉ w) : path sep ws <+: path sep ws' ↔ ws <+: ws' := by
  induction ws generalizing ws' with
  | nil => simp
  | cons w ws ih =>
    obtain ⟨hw, hrest⟩ := List.forall_mem_cons.mp hws
    cases ws' with
    | nil => simp
    | cons w' ws' =>
      obtain ⟨hw', hrest'⟩ := List.forall_mem_cons.mp hws'
      rw [path_cons, path_cons, prefix_closed_iff hw hw', ih hrest hrest', List.cons_prefix_cons]

/-! ## A doubled separator -/

/-- The second pair is the first one cut at a later place: the separators overlap, or a whole
segment has moved from one side to the other. -/
def CutLater (sep : α) (left right left' right' : List α) : Prop :=
  (left' = left ++ [sep] ∧ right = sep :: right') ∨
    ∃ between, left' = left ++ sep :: sep :: between ∧ right = between ++ sep :: sep :: right'

/-- What is joined by a doubled separator determines its two parts, unless it can be cut in
more than one place. -/
theorem doubled_eq_iff {left right left' right' : List α} :
    left ++ sep :: sep :: right = left' ++ sep :: sep :: right' ↔
      (left = left' ∧ right = right') ∨ CutLater sep left right left' right' ∨
        CutLater sep left' right' left right := by
  constructor
  · intro h
    -- one of the left parts is the other one with something appended
    have hlater : ∀ {l r l' r' w : List α}, l' = l ++ w → sep :: sep :: r = w ++ sep :: sep :: r' →
        (l = l' ∧ r = r') ∨ CutLater sep l r l' r' := by
      rintro l r l' r' w rfl htail
      rcases w with _ | ⟨c, _ | ⟨d, between⟩⟩
      · obtain ⟨-, hrest⟩ := List.cons.inj htail
        exact .inl ⟨(List.append_nil l).symm, (List.cons.inj hrest).2⟩
      · obtain ⟨rfl, hrest⟩ := List.cons.inj htail
        exact .inr (.inl ⟨rfl, (List.cons.inj hrest).2⟩)
      · obtain ⟨rfl, hrest⟩ := List.cons.inj htail
        obtain ⟨rfl, hright⟩ := List.cons.inj hrest
        exact .inr (.inr ⟨between, rfl, hright⟩)
    rcases List.append_eq_append_iff.mp h with ⟨w, hleft, hright⟩ | ⟨w, hleft, hright⟩
    · exact (hlater hleft hright).imp_right .inl
    · rcases hlater hleft hright with ⟨hl, hr⟩ | hcut
      · exact .inl ⟨hl.symm, hr.symm⟩
      · exact .inr (.inr hcut)
  · have hjoined : ∀ {l r l' r' : List α}, CutLater sep l r l' r' →
        l ++ sep :: sep :: r = l' ++ sep :: sep :: r' := by
      rintro l r l' r' (⟨rfl, rfl⟩ | ⟨between, rfl, rfl⟩)
      · simp
      · simp
    rintro (⟨rfl, rfl⟩ | hcut | hcut)
    · rfl
    · exact hjoined hcut
    · exact (hjoined hcut).symm

end Text
