import Mathlib.Data.List.Induction
import Mathlib.Data.List.Nodup
import DataHarbour.Python.Json

/-!
# Merging dicts

`{**d, **other}` and the JSONB operator `d || other` set the entries of `other` one by one.
A merge that has taken place leaves nothing for a second one to do, and the same goes for
a series of merges, in which later entries override earlier ones.
-/

namespace Python

namespace Dict

/-- The keys of a `dict`, in insertion order. -/
def keys (d : Dict) : List String := d.map Prod.fst

/-- The empty dict has no key. -/
@[simp] theorem keys_nil : keys [] = [] := rfl

/-- The keys stand in the order of the entries. -/
@[simp] theorem keys_cons (e : String × Json) (d : Dict) : keys (e :: d) = e.1 :: d.keys := rfl

/-- Updating with the empty dict changes nothing. -/
@[simp] theorem merge_nil (d : Dict) : d.merge [] = d := rfl

/-- An update assigns its entries in order. -/
@[simp] theorem merge_cons (d : Dict) (e : String × Json) (other : Dict) :
    d.merge (e :: other) = (d.set e.1 e.2).merge other := rfl

private theorem merge_append (d first second : Dict) :
    d.merge (first ++ second) = (d.merge first).merge second :=
  List.foldl_append

/-- An assignment keeps a key's place and puts a new key last. -/
theorem keys_set (d : Dict) (k : String) (v : Json) :
    (d.set k v).keys = if k ∈ d.keys then d.keys else d.keys ++ [k] := by
  induction d with
  | nil => simp [set]
  | cons e rest ih =>
    obtain ⟨k', v'⟩ := e
    by_cases hk : k' = k
    · simp [set, hk]
    · have hne : ¬ k = k' := Ne.symm hk
      by_cases hmem : k ∈ keys rest <;> simp [set, hk, hne, ih, hmem]

/-- A new key goes to the end. -/
theorem set_of_new {d : Dict} {k : String} (h : k ∉ d.keys) (v : Json) :
    d.set k v = d ++ [(k, v)] := by
  induction d with
  | nil => rfl
  | cons e rest ih =>
    obtain ⟨k', v'⟩ := e
    simp only [keys_cons, List.mem_cons, not_or] at h
    simp [set, Ne.symm h.1, ih h.2]

private theorem mem_keys_set {d : Dict} {k l : String} (v : Json) :
    l ∈ (d.set k v).keys ↔ l ∈ d.keys ∨ l = k := by
  rw [keys_set]
  by_cases hk : k ∈ d.keys
  · rw [if_pos hk]
    exact ⟨.inl, fun h => h.elim id fun heq => heq ▸ hk⟩
  · rw [if_neg hk, List.mem_append, List.mem_singleton]

private theorem mem_keys_merge {d other : Dict} {l : String} :
    l ∈ (d.merge other).keys ↔ l ∈ d.keys ∨ l ∈ other.keys := by
  induction other generalizing d with
  | nil => simp
  | cons e rest ih => rw [merge_cons, ih, mem_keys_set, keys_cons, List.mem_cons, or_assoc]

private theorem nodup_keys_set {d : Dict} (h : (keys d).Nodup) (k : String) (v : Json) :
    (d.set k v).keys.Nodup := by
  rw [keys_set]
  split
  · exact h
  · next hk => exact List.Nodup.append h (List.nodup_singleton k) (by simpa using hk)

private theorem nodup_keys_merge {d : Dict} (h : (keys d).Nodup) (other : Dict) :
    (d.merge other).keys.Nodup := by
  induction other generalizing d with
  | nil => exact h
  | cons e rest ih => exact ih (nodup_keys_set h e.1 e.2)

/-- Assignments to different keys commute, unless both keys are new. -/
theorem set_comm {d : Dict} {k l : String} (hl : l ∈ d.keys) (hne : k ≠ l) (v w : Json) :
    (d.set k v).set l w = (d.set l w).set k v := by
  induction d with
  | nil => simp at hl
  | cons e rest ih =>
    obtain ⟨k', v'⟩ := e
    by_cases hk : k' = k
    · have hkl : k' ≠ l := hk ▸ hne
      simp [set, hk, hne]
    · by_cases hk'l : k' = l
      · simp [set, hk'l, Ne.symm hne]
      · have hrest : l ∈ keys rest := by simpa [Ne.symm hk'l] using hl
        simp [set, hk, hk'l, ih hrest]

/-- An assignment that is repeated after a merge into existing keys counts once. -/
theorem set_merge_set {d other : Dict} (h : ∀ l ∈ other.keys, l ∈ d.keys) (k : String)
    (v w : Json) : ((d.set k v).merge other).set k w = (d.merge other).set k w := by
  induction other generalizing d with
  | nil => simp
  | cons e rest ih =>
    obtain ⟨l, u⟩ := e
    have hl : l ∈ d.keys := h l (by simp)
    have hrest : ∀ m ∈ keys rest, m ∈ (d.set l u).keys := by
      intro m hm
      exact (mem_keys_set u).mpr (.inl (h m (by simp [hm])))
    by_cases hkl : k = l
    · subst hkl
      simp
    · rw [merge_cons, merge_cons, set_comm hl hkl, ih hrest]

/-- Merging the same entries once more changes nothing. -/
theorem merge_merge_self (d other : Dict) : (d.merge other).merge other = d.merge other := by
  induction other using List.reverseRecOn with
  | nil => rfl
  | append_singleton other e ih =>
    have hkeys : ∀ l ∈ keys other, l ∈ (d.merge other).keys := fun l hl =>
      mem_keys_merge.mpr (.inr hl)
    simp only [merge_append, merge_cons, merge_nil]
    rw [set_merge_set hkeys, ih]

/-- A dict answers nothing at a key it lacks. -/
theorem get?_eq_none_of_not_mem {d : Dict} {k : String} (h : k ∉ d.keys) :
    d.get? k = none := by
  induction d with
  | nil => rfl
  | cons e rest ih =>
    obtain ⟨k', v⟩ := e
    simp only [keys_cons, List.mem_cons, not_or] at h
    rw [get?_cons, if_neg (Ne.symm h.1), ih h.2]

/-- The value of a key after a merge comes from the second `dict`, if that has the key. -/
theorem get?_merge {d other : Dict} (h : (keys other).Nodup) (k : String) :
    (d.merge other).get? k = (get? other k).or (d.get? k) := by
  induction other generalizing d with
  | nil => rfl
  | cons e rest ih =>
    obtain ⟨k', v⟩ := e
    obtain ⟨hfresh, hrest⟩ := List.nodup_cons.mp h
    rw [merge_cons, ih hrest, get?_cons]
    by_cases hk : k' = k
    · subst hk
      rw [if_pos rfl, get?_eq_none_of_not_mem hfresh, get?_set_self]
      rfl
    · rw [if_neg hk, get?_set_of_ne (Ne.symm hk)]

/-- The entries with a function applied to each value. -/
def mapValues (f : Json → Json) (d : Dict) : Dict := d.map fun e => (e.1, f e.2)

private theorem keys_mapValues (f : Json → Json) (d : Dict) : (d.mapValues f).keys = d.keys := by
  simp [mapValues, keys]

/-- A map over the values is seen at each key. -/
theorem get?_mapValues (f : Json → Json) (d : Dict) (k : String) :
    (d.mapValues f).get? k = (d.get? k).map f := by
  induction d with
  | nil => rfl
  | cons e rest ih =>
    obtain ⟨k', v⟩ := e
    rw [mapValues, List.map_cons, get?_cons, get?_cons]
    split
    · rfl
    · exact ih

private theorem mapValues_set (f : Json → Json) (d : Dict) (k : String) (v : Json) :
    (d.set k v).mapValues f = (d.mapValues f).set k (f v) := by
  induction d with
  | nil => rfl
  | cons e rest ih =>
    obtain ⟨k', v'⟩ := e
    by_cases hk : k' = k
    · simp [mapValues, set, hk]
    · simpa [mapValues, set, hk] using ih

/-- A map over the values passes through an update. -/
theorem mapValues_merge (f : Json → Json) (d other : Dict) :
    (d.merge other).mapValues f = (d.mapValues f).merge (other.mapValues f) := by
  induction other generalizing d with
  | nil => rfl
  | cons e rest ih =>
    rw [merge_cons, ih, mapValues_set]
    rfl

/-- Mapping the values twice by an idempotent function maps them once. -/
theorem mapValues_mapValues {f : Json → Json} (h : ∀ v, f (f v) = f v) (d : Dict) :
    (d.mapValues f).mapValues f = d.mapValues f := by
  simp [mapValues, h]

end Dict

/-- The `dict` as an object: no key occurs twice. -/
structure Mapping where
  /-- The entries, in insertion order. -/
  entries : Dict
  /-- The keys are distinct. -/
  nodup : entries.keys.Nodup

namespace Mapping

/-- `{}`. -/
def empty : Mapping := ⟨[], List.nodup_nil⟩

/-- `m.get(k)`, with `none` for a missing key. -/
def get? (m : Mapping) (k : String) : Option Json := m.entries.get? k

/-- The entries set one by one. -/
def mergeDict (m : Mapping) (d : Dict) : Mapping :=
  ⟨m.entries.merge d, Dict.nodup_keys_merge m.nodup d⟩

/-- `{**m, **other}`. -/
def merge (m other : Mapping) : Mapping := m.mergeDict other.entries

/-- After an update the updating mapping answers first. -/
theorem get?_merge (m other : Mapping) (k : String) :
    (m.merge other).get? k = (other.get? k).or (m.get? k) :=
  Dict.get?_merge other.nodup k

/-- Updating with a dict in two parts is two updates. -/
theorem mergeDict_append (m : Mapping) (first second : Dict) :
    m.mergeDict (first ++ second) = (m.mergeDict first).mergeDict second := by
  simp [mergeDict, Dict.merge_append]

/-- `{**{}, **m}` has the entries of `m`. -/
theorem empty_merge (m : Mapping) : empty.merge m = m := by
  have hentries : Dict.merge [] m.entries = m.entries := by
    obtain ⟨d, nodup⟩ := m
    induction d using List.reverseRecOn with
    | nil => rfl
    | append_singleton d e ih =>
      rw [Dict.keys, List.map_append] at nodup
      obtain ⟨hd, -, hfresh⟩ := List.nodup_append.mp nodup
      have hnew : e.1 ∉ Dict.keys d := fun hmem => hfresh e.1 hmem e.1 List.mem_cons_self rfl
      rw [Dict.merge_append, ih hd]
      exact Dict.set_of_new hnew e.2
  simp only [merge, mergeDict, empty, hentries]

/-- `{k: f(v) for k, v in m.items()}`. -/
def mapValues (f : Json → Json) (m : Mapping) : Mapping :=
  ⟨m.entries.mapValues f, (Dict.keys_mapValues f m.entries).symm ▸ m.nodup⟩

/-- A map over the values is seen at each key. -/
theorem get?_mapValues (f : Json → Json) (m : Mapping) (k : String) :
    (m.mapValues f).get? k = (m.get? k).map f :=
  Dict.get?_mapValues f m.entries k

/-- A merge brings each value by itself. -/
theorem mapValues_merge (f : Json → Json) (m other : Mapping) :
    (m.merge other).mapValues f = (m.mapValues f).merge (other.mapValues f) := by
  simp only [merge, mergeDict, mapValues, Dict.mapValues_merge]

/-- Mapping the values twice by an idempotent function maps them once. -/
theorem mapValues_mapValues {f : Json → Json} (h : ∀ v, f (f v) = f v) (m : Mapping) :
    (m.mapValues f).mapValues f = m.mapValues f := by
  simp only [mapValues, Dict.mapValues_mapValues h]

/-- Updating twice with the same dict updates once. -/
@[simp] theorem mergeDict_mergeDict_self (m : Mapping) (d : Dict) :
    (m.mergeDict d).mergeDict d = m.mergeDict d := by
  simp [mergeDict, Dict.merge_merge_self]

/-- Updating twice with the same mapping updates once. -/
@[simp] theorem merge_merge_self (m other : Mapping) :
    (m.merge other).merge other = m.merge other :=
  mergeDict_mergeDict_self m other.entries

/-- A mapping updated with itself is unchanged. -/
@[simp] theorem merge_self (m : Mapping) : m.merge m = m := by
  calc m.merge m = (empty.merge m).merge m := by rw [empty_merge]
    _ = empty.merge m := merge_merge_self empty m
    _ = m := empty_merge m

end Mapping

end Python
