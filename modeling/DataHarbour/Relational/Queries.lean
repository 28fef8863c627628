import Mathlib.Algebra.BigOperators.Group.List.Basic
import Mathlib.Algebra.Ring.Nat
import Mathlib.Data.List.Sort

/-!
# Ordered and grouped queries

`ORDER BY key ASC LIMIT n`, with rows of the same key in the order in which the scan finds them:
what can be said of the rows that do not make it into the answer. `count(*) ... GROUP BY` counts
every row once.
-/

namespace Relational

variable {ρ κ : Type*} [LinearOrder κ]

/-- `ORDER BY key ASC LIMIT n`. -/
def firstRows (key : ρ → κ) (n : ℕ) (rows : List ρ) : List ρ :=
  (rows.insertionSort (key · ≤ key ·)).take n

variable {key : ρ → κ} {n : ℕ} {rows : List ρ} {x y : ρ}

/-- Insertion sort by a key is sorted by that key. -/
theorem sorted_by_key (key : ρ → κ) (rows : List ρ) :
    (rows.insertionSort (key · ≤ key ·)).Pairwise (key · ≤ key ·) := by
  have : Std.Total (key · ≤ key · : ρ → ρ → Prop) := ⟨fun x y => le_total (key x) (key y)⟩
  have : IsTrans ρ (key · ≤ key ·) := ⟨fun _ _ _ => le_trans⟩
  exact List.pairwise_insertionSort _ rows

/-- The rows of the answer come before all others. -/
theorem le_of_mem_firstRows (hx : x ∈ rows) (hout : x ∉ firstRows key n rows)
    (hy : y ∈ firstRows key n rows) : key y ≤ key x := by
  let sorted := rows.insertionSort (key · ≤ key ·)
  have hsplit : sorted.take n ++ sorted.drop n = sorted := List.take_append_drop n sorted
  have hordered : (sorted.take n ++ sorted.drop n).Pairwise (key · ≤ key ·) :=
    hsplit.symm ▸ sorted_by_key key rows
  have hmem : x ∈ sorted.take n ++ sorted.drop n :=
    hsplit.symm ▸ (List.perm_insertionSort _ rows).mem_iff.mpr hx
  have hdrop : x ∈ sorted.drop n := (List.mem_append.mp hmem).resolve_left hout
  exact (List.pairwise_append.mp hordered).2.2 y hy x hdrop

/-- A row is left out only if the answer is full. -/
theorem length_firstRows (hx : x ∈ rows) (hout : x ∉ firstRows key n rows) :
    (firstRows key n rows).length = n := by
  have hshort : ¬ rows.length ≤ n := by
    intro hle
    apply hout
    rw [firstRows, List.take_of_length_le (by rwa [List.length_insertionSort])]
    exact (List.perm_insertionSort _ rows).mem_iff.mpr hx
  rw [firstRows, List.length_take, List.length_insertionSort]
  omega

/-- As many smaller rows as the answer has room for leave a row out. -/
theorem not_mem_firstRows (h : n ≤ rows.countP fun y => decide (key y < key x)) :
    x ∉ firstRows key n rows := by
  intro hx
  let sorted := rows.insertionSort (key · ≤ key ·)
  have hcount : n ≤ sorted.countP fun y => decide (key y < key x) :=
    h.trans_eq ((List.perm_insertionSort _ rows).countP_eq _).symm
  have hsplit : sorted.take n ++ sorted.drop n = sorted := List.take_append_drop n sorted
  have hordered : (sorted.take n ++ sorted.drop n).Pairwise (key · ≤ key ·) :=
    hsplit.symm ▸ sorted_by_key key rows
  -- no row after `x` is smaller, so the answer holds all smaller rows
  have hnone : (sorted.drop n).countP (fun y => decide (key y < key x)) = 0 := by
    rw [List.countP_eq_zero]
    intro y hy
    have hle := (List.pairwise_append.mp hordered).2.2 x hx y hy
    simpa using hle
  rw [← hsplit, List.countP_append, hnone, Nat.add_zero] at hcount
  have hlength : (sorted.take n).length ≤ n := List.length_take_le n sorted
  have hall := List.countP_eq_length.mp (le_antisymm List.countP_le_length (hlength.trans hcount))
  have hself := hall x hx
  simp at hself

/-! ## Groups -/

/-- The rows of all groups together are all rows, each counted in its own group. -/
theorem sum_countP_groups {ρ α : Type*} [DecidableEq α] (group : ρ → α) {groups : List α}
    (hnodup : groups.Nodup) {rows : List ρ} (hmem : ∀ r ∈ rows, group r ∈ groups) :
    (groups.map fun g => rows.countP (group · = g)).sum = rows.length := by
  have hown : ∀ (a : α) (groups : List α),
      (groups.map fun g => if a = g then 1 else 0).sum = groups.count a := by
    intro a groups
    induction groups with
    | nil => rfl
    | cons g groups ih =>
      rw [List.map_cons, List.sum_cons, ih, List.count_cons, add_comm]
      by_cases hg : g = a
      · rw [if_pos hg.symm, if_pos (beq_iff_eq.mpr hg)]
      · rw [if_neg (Ne.symm hg), if_neg (mt beq_iff_eq.mp hg)]
  induction rows with
  | nil => simp
  | cons r rows ih =>
    obtain ⟨hr, hrest⟩ := List.forall_mem_cons.mp hmem
    have hone := (hown (group r) groups).trans (List.count_eq_one_of_mem hnodup hr)
    simp only [List.countP_cons, decide_eq_true_eq, List.sum_map_add, hone, ih hrest,
      List.length_cons]

end Relational
