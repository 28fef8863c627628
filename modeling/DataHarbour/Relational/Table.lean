import Mathlib.Data.List.Nodup

/-!
# Tables with a primary key

A table is a list of rows in which no two rows share their key. Rows enter through
`insert`, which asks for a fresh key, and change through `set`, which replaces the row
with the same key. Key uniqueness is part of the type, so it never has to be proved again.
-/

namespace Relational

variable {ρ κ : Type*} [DecidableEq κ] {key : ρ → κ}

/-- A list of rows with pairwise distinct keys. -/
structure Table (key : ρ → κ) where
  /-- The stored rows; their order carries no meaning. -/
  rows : List ρ
  /-- The primary-key constraint. -/
  nodup : (rows.map key).Nodup

namespace Table

omit [DecidableEq κ] in
/-- A table is given by its rows. -/
theorem ext_rows {t t' : Table key} (h : t.rows = t'.rows) : t = t' := by
  obtain ⟨rows, _⟩ := t
  obtain ⟨rows', _⟩ := t'
  obtain rfl : rows = rows' := h
  rfl

/-- The table without rows. -/
def empty : Table key := ⟨[], List.nodup_nil⟩

/-- The row stored under a key. -/
def find? (t : Table key) (k : κ) : Option ρ := t.rows.find? (key · = k)

/-- Nothing is found exactly under the keys that no row has. -/
theorem find?_eq_none_iff {t : Table key} {k : κ} :
    t.find? k = none ↔ k ∉ t.rows.map key := by
  simp [find?]

/-- `INSERT`: add a row whose key is not yet stored. -/
def insert (t : Table key) (r : ρ) (h : t.find? (key r) = none) : Table key :=
  ⟨r :: t.rows, by
    rw [List.map_cons, List.nodup_cons]
    exact ⟨find?_eq_none_iff.mp h, t.nodup⟩⟩

/-- `INSERT` as the database runs it: a stored key is a primary-key violation. -/
def insert? (t : Table key) (r : ρ) : Option (Table key) :=
  if h : t.find? (key r) = none then some (t.insert r h) else none

/-- `UPDATE ... WHERE key = key r`: replace the row that has the key of `r`, if any. -/
def set (t : Table key) (r : ρ) : Table key :=
  ⟨t.rows.map fun x => if key x = key r then r else x, by
    have hkeys : (t.rows.map fun x => if key x = key r then r else x).map key =
        t.rows.map key := by
      rw [List.map_map]
      apply List.map_congr_left
      intro x _
      by_cases h : key x = key r <;> simp [h]
    rw [hkeys]
    exact t.nodup⟩

/-- What is found under a key has that key. -/
theorem key_of_find? {t : Table key} {k : κ} {r : ρ} (h : t.find? k = some r) : key r = k := by
  simpa using List.find?_some h

/-- A stored row is the one under its key. -/
theorem find?_of_mem {t : Table key} {r : ρ} (h : r ∈ t.rows) : t.find? (key r) = some r := by
  obtain ⟨rows, nodup⟩ := t
  simp only [find?] at h ⊢
  induction rows with
  | nil => simp at h
  | cons x rows ih =>
    obtain ⟨hfresh, hnodup⟩ := List.nodup_cons.mp nodup
    rcases List.mem_cons.mp h with rfl | htail
    · simp
    · have hx : key x ≠ key r := fun heq => hfresh (heq ▸ List.mem_map_of_mem htail)
      simpa [hx] using ih hnodup htail

/-- Nothing is found in the empty table. -/
@[simp] theorem find?_empty (k : κ) : (empty : Table key).find? k = none := rfl

/-- After an insert the new row is found under its own key, and the others as before. -/
@[simp] theorem find?_insert {t : Table key} {r : ρ} {h : t.find? (key r) = none} (k : κ) :
    (t.insert r h).find? k = if key r = k then some r else t.find? k := by
  by_cases hk : key r = k <;> simp [find?, insert, hk]

/-- A row with a fresh key is inserted. -/
theorem insert?_of_fresh {t : Table key} {r : ρ} (h : t.find? (key r) = none) :
    t.insert? r = some (t.insert r h) := by
  simp [insert?, h]

/-- A row with a stored key is refused. -/
theorem insert?_of_stored {t : Table key} {r old : ρ} (h : t.find? (key r) = some old) :
    t.insert? r = none := by
  simp [insert?, h]

/-- `set` reaches exactly the row with the new row's key. -/
theorem find?_set {t : Table key} {r : ρ} (k : κ) :
    (t.set r).find? k = if key r = k then (t.find? k).map (fun _ => r) else t.find? k := by
  obtain ⟨rows, nodup⟩ := t
  simp only [find?, set]
  clear nodup
  induction rows with
  | nil => simp
  | cons x rows ih =>
    by_cases hx : key x = key r
    · by_cases hk : key r = k
      · simp [hx, hk]
      · have hxk : key x ≠ k := hx ▸ hk
        simpa [hx, hk, hxk] using ih
    · by_cases hxk : key x = k
      · have hk : key r ≠ k := fun heq => hx (hxk.trans heq.symm)
        rw [List.map_cons, if_neg hx, if_neg hk, List.find?_cons_of_pos (by simpa using hxk),
          List.find?_cons_of_pos (by simpa using hxk)]
      · simpa [hx, hxk] using ih

/-- What is found is stored. -/
theorem mem_of_find? {t : Table key} {k : κ} {r : ρ} (h : t.find? k = some r) : r ∈ t.rows :=
  List.mem_of_find?_eq_some h

/-- Rows that share their key are the same row. -/
theorem eq_of_key_eq {t : Table key} {r r' : ρ} (h : r ∈ t.rows) (h' : r' ∈ t.rows)
    (hkey : key r = key r') : r = r' := by
  have hfind := find?_of_mem h
  rw [hkey, find?_of_mem h'] at hfind
  exact (Option.some.inj hfind).symm

/-- After an insert the rows are the new one and the earlier ones. -/
@[simp] theorem mem_insert {t : Table key} {r x : ρ} (h : t.find? (key r) = none) :
    x ∈ (t.insert r h).rows ↔ x = r ∨ x ∈ t.rows :=
  List.mem_cons

/-- An accepted row had a fresh key. -/
theorem insert?_eq_some {t t' : Table key} {r : ρ} (h : t.insert? r = some t') :
    ∃ hfresh : t.find? (key r) = none, t' = t.insert r hfresh := by
  unfold insert? at h
  split at h
  · next hfresh => exact ⟨hfresh, (Option.some.inj h).symm⟩
  · cases h

/-- After an update a row is the written one or was there before. -/
theorem mem_of_mem_set {t : Table key} {r x : ρ} (h : x ∈ (t.set r).rows) :
    x = r ∨ x ∈ t.rows := by
  obtain ⟨y, hy, heq⟩ := List.mem_map.mp h
  split at heq
  · exact .inl heq.symm
  · exact .inr (heq ▸ hy)

/-- The rows that `set` leaves alone, and the row that takes the place of a stored one. -/
theorem mem_set_iff {t : Table key} {r old : ρ} (hold : old ∈ t.rows) (hkey : key r = key old)
    {x : ρ} : x ∈ (t.set r).rows ↔ x = r ∨ x ∈ t.rows ∧ x ≠ old := by
  constructor
  · intro h
    obtain ⟨y, hy, heq⟩ := List.mem_map.mp h
    by_cases hyr : key y = key r
    · rw [if_pos hyr] at heq
      exact .inl heq.symm
    · rw [if_neg hyr] at heq
      subst heq
      refine .inr ⟨hy, ?_⟩
      rintro rfl
      exact hyr hkey.symm
  · rintro (rfl | ⟨hx, hne⟩)
    · exact List.mem_map.mpr ⟨old, hold, if_pos hkey.symm⟩
    · refine List.mem_map.mpr ⟨x, hx, if_neg fun hxr => hne ?_⟩
      exact eq_of_key_eq hx hold (hxr.trans hkey)

/-- `set` changes no key. -/
theorem keys_set (t : Table key) (r : ρ) : (t.set r).rows.map key = t.rows.map key := by
  rw [set, List.map_map]
  refine List.map_congr_left fun x _ => ?_
  by_cases h : key x = key r <;> simp [h]

/-- `set` changes no attribute that the new row shares with the stored one. -/
theorem map_set {α : Type*} {t : Table key} {r old : ρ} (h : t.find? (key r) = some old)
    {f : ρ → α} (hf : f r = f old) : (t.set r).rows.map f = t.rows.map f := by
  rw [set, List.map_map]
  refine List.map_congr_left fun x hx => ?_
  by_cases hkey : key x = key r
  · have hold := mem_of_find? h
    rw [Function.comp_apply, if_pos hkey, hf]
    exact congrArg f (eq_of_key_eq hold hx ((key_of_find? h).trans hkey.symm))
  · rw [Function.comp_apply, if_neg hkey]

/-- An update keeps the number of rows. -/
theorem length_set (t : Table key) (r : ρ) : (t.set r).rows.length = t.rows.length :=
  List.length_map ..

/-- Setting a stored row to itself changes nothing. -/
theorem set_of_mem {t : Table key} {r : ρ} (h : r ∈ t.rows) : t.set r = t := by
  refine ext_rows ((List.map_congr_left fun x hx => ?_).trans (List.map_id t.rows))
  split
  · next hkey => exact eq_of_key_eq h hx hkey.symm
  · rfl

/-! ## Insertion with a conflict clause -/

/-- `INSERT ... ON CONFLICT DO NOTHING`. -/
def insertIfNew (t : Table key) (r : ρ) : Table key := (t.insert? r).getD t

/-- `INSERT ... ON CONFLICT DO UPDATE`: a row stored under the key is updated instead. -/
def upsert (t : Table key) (r : ρ) (update : ρ → ρ) : Table key :=
  match t.find? (key r) with
  | some old => t.set (update old)
  | none => t.insertIfNew r

/-- A row with a fresh key is inserted. -/
theorem insertIfNew_of_fresh {t : Table key} {r : ρ} (h : t.find? (key r) = none) :
    t.insertIfNew r = t.insert r h := by
  rw [insertIfNew, insert?_of_fresh h, Option.getD_some]

/-- A row with a stored key leaves the table. -/
theorem insertIfNew_of_stored {t : Table key} {r old : ρ} (h : t.find? (key r) = some old) :
    t.insertIfNew r = t := by
  rw [insertIfNew, insert?_of_stored h, Option.getD_none]

/-- An upsert under a fresh key inserts. -/
theorem upsert_of_fresh {t : Table key} {r : ρ} (h : t.find? (key r) = none) (update : ρ → ρ) :
    t.upsert r update = t.insert r h := by
  rw [upsert, h]
  exact insertIfNew_of_fresh h

/-- An upsert under a stored key updates the row found there. -/
theorem upsert_of_stored {t : Table key} {r old : ρ} (h : t.find? (key r) = some old)
    (update : ρ → ρ) : t.upsert r update = t.set (update old) := by
  rw [upsert, h]

/-- In a table whose rows are their own keys, an insertion adds the row at most once. -/
theorem mem_insertIfNew {α : Type*} [DecidableEq α] {t : Table (id : α → α)} {r x : α} :
    x ∈ (t.insertIfNew r).rows ↔ x ∈ t.rows ∨ x = r := by
  cases h : t.find? (id r) with
  | none => rw [insertIfNew_of_fresh h, mem_insert, or_comm]
  | some old =>
    rw [insertIfNew_of_stored h]
    have hold : old = r := key_of_find? h
    have hr : r ∈ t.rows := hold ▸ mem_of_find? h
    constructor
    · exact Or.inl
    · rintro (hx | rfl)
      · exact hx
      · exact hr

/-! ## Deleting rows -/

/-- `DELETE`: the rows with the property go. -/
def delete (t : Table key) (p : ρ → Bool) : Table key :=
  ⟨t.rows.filter (!p ·), t.nodup.sublist (List.filter_sublist.map key)⟩

omit [DecidableEq κ] in
/-- A delete keeps exactly the rows it does not select. -/
@[simp] theorem mem_delete {t : Table key} {p : ρ → Bool} {x : ρ} :
    x ∈ (t.delete p).rows ↔ x ∈ t.rows ∧ p x = false := by
  simp [delete]

omit [DecidableEq κ] in
/-- A deletion is one of nothing exactly if no row has the property. -/
theorem length_delete_eq_iff {t : Table key} {p : ρ → Bool} :
    (t.delete p).rows.length = t.rows.length ↔ ∀ x ∈ t.rows, p x = false := by
  simp [delete, List.length_filter_eq_length_iff]

/-- `DELETE` of the row under a key. -/
def erase (t : Table key) (k : κ) : Table key := t.delete fun r => decide (key r = k)

/-- An erase keeps exactly the rows under the other keys. -/
@[simp] theorem mem_erase {t : Table key} {k : κ} {x : ρ} :
    x ∈ (t.erase k).rows ↔ x ∈ t.rows ∧ key x ≠ k := by
  simp [erase]

/-- An erase leaves what is found under the other keys. -/
theorem find?_erase_of_ne {t : Table key} {k k' : κ} (hne : k ≠ k') :
    (t.erase k).find? k' = t.find? k' := by
  rw [find?, find?, erase, delete, List.find?_filter]
  congr 1
  funext r
  by_cases hr : key r = k'
  · simp [hr, Ne.symm hne]
  · simp [hr]

/-- Erasing a stored row takes one row away. -/
theorem length_erase {t : Table key} {r : ρ} (h : r ∈ t.rows) :
    (t.erase (key r)).rows.length + 1 = t.rows.length := by
  obtain ⟨rows, nodup⟩ := t
  simp only [erase, delete] at h ⊢
  induction rows with
  | nil => simp at h
  | cons x rows ih =>
    obtain ⟨hfresh, hnodup⟩ := List.nodup_cons.mp nodup
    by_cases hx : key x = key r
    · -- the key of `r` occurs only here
      have hrest : rows.filter (fun y => !decide (key y = key r)) = rows := by
        rw [List.filter_eq_self]
        intro y hy
        have hne : key y ≠ key r := fun hyr => hfresh (hx ▸ hyr ▸ List.mem_map_of_mem hy)
        simpa using hne
      rw [List.filter_cons_of_neg (by simp [hx]), hrest, List.length_cons]
    · have hmem : r ∈ rows := (List.mem_cons.mp h).resolve_left fun heq => hx (heq ▸ rfl)
      rw [List.filter_cons_of_pos (by simp [hx]), List.length_cons, ih hnodup hmem,
        List.length_cons]

/-! ## Counting rows -/

/-- The number of rows with a property. -/
def countRows (t : Table key) (p : ρ → Bool) : ℕ := t.rows.countP p

omit [DecidableEq κ] in
/-- The empty table has nothing to count. -/
@[simp] theorem countRows_empty (p : ρ → Bool) : (empty : Table key).countRows p = 0 := rfl

/-- An insert counts one more row if the new row is counted. -/
@[simp] theorem countRows_insert {t : Table key} {r : ρ} {h : t.find? (key r) = none}
    (p : ρ → Bool) : (t.insert r h).countRows p = t.countRows p + if p r then 1 else 0 := by
  simp [countRows, insert, List.countP_cons]

/-- `set` trades the stored row for the new one. -/
theorem countRows_set {t : Table key} {r old : ρ} (h : t.find? (key r) = some old)
    (p : ρ → Bool) : (t.set r).countRows p + (if p old then 1 else 0) =
      t.countRows p + if p r then 1 else 0 := by
  obtain ⟨rows, nodup⟩ := t
  simp only [find?, set, countRows] at h ⊢
  induction rows with
  | nil => simp at h
  | cons x rows ih =>
    obtain ⟨hfresh, hnodup⟩ := List.nodup_cons.mp nodup
    by_cases hx : key x = key r
    · have hold : x = old := by simpa [hx] using h
      -- the key of `r` occurs only here
      have hrest : rows.map (fun y => if key y = key r then r else y) = rows := by
        refine (List.map_congr_left fun y hy => ?_).trans (List.map_id rows)
        refine if_neg fun hyr => hfresh ?_
        rw [hx, ← hyr]
        exact List.mem_map_of_mem hy
      rw [List.map_cons, if_pos hx, hrest, List.countP_cons, List.countP_cons, hold]
      omega
    · have htail := ih hnodup (by simpa [hx] using h)
      rw [List.map_cons, if_neg hx, List.countP_cons, List.countP_cons]
      omega

end Table

end Relational
