import Mathlib.Data.List.Dedup
import DataHarbour.Relational.Walks

/-!
# Recursive queries

`WITH RECURSIVE ... UNION ALL` evaluates its second term on the rows of the last round, the
working table, until a round gives no rows; the result holds the rows of all rounds. Fuel bounds
the number of rounds. The rows of the result are those at the ends of walks from the first
table, and the query ends if every row is of a lower rank than the one it comes from.
-/

namespace Relational

variable {ρ κ : Type*} {next : ρ → List ρ}

/-- The rounds that start with the working table, `none` if the fuel is used up before the
working table is empty. The recursive term gives the rows `next r` for each row `r`. -/
def withRecursive (next : ρ → List ρ) : ℕ → List ρ → Option (List ρ)
  | _, [] => some []
  | 0, _ :: _ => none
  | fuel + 1, r :: working =>
    (withRecursive next fuel ((r :: working).flatMap next)).map (r :: working ++ ·)

/-- The rows that a row brings into the next round. -/
def Follows (next : ρ → List ρ) (r s : ρ) : Prop := s ∈ next r

/-- The result holds what is at the end of some walk. -/
theorem mem_withRecursive_iff {fuel : ℕ} {working rows : List ρ}
    (h : withRecursive next fuel working = some rows) {s : ρ} :
    s ∈ rows ↔ ∃ r ∈ working, ∃ n, Walk (Follows next) n r s := by
  induction fuel generalizing working rows with
  | zero =>
    cases working with
    | nil =>
      obtain rfl := Option.some.inj h
      simp
    | cons r working => cases h
  | succ fuel ih =>
    cases working with
    | nil =>
      obtain rfl := Option.some.inj h
      simp
    | cons r working =>
      obtain ⟨later, hlater, rfl⟩ := Option.map_eq_some_iff.mp h
      rw [List.mem_append, ih hlater]
      constructor
      · rintro (hs | ⟨t, ht, n, hwalk⟩)
        · exact ⟨s, hs, 0, .nil s⟩
        · obtain ⟨r', hr', hedge⟩ := List.mem_flatMap.mp ht
          exact ⟨r', hr', n + 1, hwalk.cons hedge⟩
      · rintro ⟨r', hr', n, hwalk⟩
        rcases hwalk.eq_or_cons with ⟨-, rfl⟩ | ⟨m, t, rfl, hedge, hrest⟩
        · exact .inl hr'
        · exact .inr ⟨t, List.mem_flatMap.mpr ⟨r', hr', hedge⟩, m, hrest⟩

/-- The query ends within as many rounds as the rank of the first rows allows. -/
theorem withRecursive_returns (rank : ρ → ℕ) (hrank : ∀ r, ∀ s ∈ next r, rank s < rank r)
    {fuel : ℕ} {working : List ρ} (hfuel : ∀ r ∈ working, rank r < fuel) :
    ∃ rows, withRecursive next fuel working = some rows := by
  induction fuel generalizing working with
  | zero =>
    cases working with
    | nil => exact ⟨[], rfl⟩
    | cons r working => exact absurd (hfuel r List.mem_cons_self) (Nat.not_lt_zero _)
  | succ fuel ih =>
    cases working with
    | nil => exact ⟨[], rfl⟩
    | cons r working =>
      have hnext : ∀ s ∈ (r :: working).flatMap next, rank s < fuel := by
        intro s hs
        obtain ⟨r', hr', hs'⟩ := List.mem_flatMap.mp hs
        have hlower := hrank r' s hs'
        have hbound := hfuel r' hr'
        omega
      obtain ⟨later, hlater⟩ := ih hnext
      exact ⟨_, by rw [withRecursive, hlater]; rfl⟩

/-! ## Groups -/

section Groups

variable [DecidableEq κ]

/-- `SELECT key, MIN(value) ... GROUP BY key`. -/
def groupMin (key : ρ → κ) (value : ρ → ℕ) (rows : List ρ) : List (κ × ℕ) :=
  (rows.map key).dedup.filterMap fun k =>
    ((rows.filter (key · = k)).map value).min?.map (k, ·)

/-- A group has the least of the values of its rows. -/
theorem mem_groupMin_iff {key : ρ → κ} {value : ρ → ℕ} {rows : List ρ} {k : κ} {n : ℕ} :
    (k, n) ∈ groupMin key value rows ↔
      (∃ r ∈ rows, key r = k ∧ value r = n) ∧ ∀ r ∈ rows, key r = k → n ≤ value r := by
  have hleast : ((rows.filter (key · = k)).map value).min? = some n ↔
      (∃ r ∈ rows, key r = k ∧ value r = n) ∧ ∀ r ∈ rows, key r = k → n ≤ value r := by
    rw [List.min?_eq_some_iff]
    simp only [List.mem_map, List.mem_filter, decide_eq_true_eq, and_assoc]
    refine and_congr_right fun _ => ⟨fun h r hr hk => h _ ⟨r, hr, hk, rfl⟩, ?_⟩
    rintro h _ ⟨r, hr, hk, rfl⟩
    exact h r hr hk
  rw [groupMin, List.mem_filterMap, ← hleast]
  constructor
  · rintro ⟨k', -, hk'⟩
    obtain ⟨n', hn', heq⟩ := Option.map_eq_some_iff.mp hk'
    obtain ⟨rfl, rfl⟩ := Prod.mk.inj heq
    exact hn'
  · intro h
    obtain ⟨⟨r, hr, rfl, -⟩, -⟩ := hleast.mp h
    exact ⟨key r, List.mem_dedup.mpr (List.mem_map_of_mem hr), by rw [h, Option.map_some]⟩

/-- There is one row for each group. -/
theorem nodup_keys_groupMin (key : ρ → κ) (value : ρ → ℕ) (rows : List ρ) :
    ((groupMin key value rows).map Prod.fst).Nodup := by
  refine (List.nodup_dedup (rows.map key)).sublist ?_
  rw [groupMin]
  generalize (rows.map key).dedup = keys
  induction keys with
  | nil => exact .slnil
  | cons k keys ih =>
    rw [List.filterMap_cons]
    cases ((rows.filter (key · = k)).map value).min? with
    | none => exact ih.cons k
    | some n => exact ih.cons_cons k

end Groups

end Relational
