import Mathlib.Data.List.Induction
import Mathlib.Data.List.Nodup
import Mathlib.Order.Lattice

/-!
# Filtering by a high-water mark

A scan lets an item pass if its key lies above the mark, and the key becomes the new mark. An
item passes exactly if its key is above those of all items before it. When the items arrive in
batches, this decides which items of a batch get through.
-/

namespace Machine

variable {α τ : Type*} [LinearOrder τ] {key : α → τ}

/-- The value lies above the mark, if there is one. -/
def Above (mark : Option τ) (t : τ) : Prop := ∀ m ∈ mark, m < t

instance (mark : Option τ) (t : τ) : Decidable (Above mark t) :=
  inferInstanceAs (Decidable (∀ m ∈ mark, m < t))

/-- Before the first entry every key lies above the mark. -/
@[simp] theorem above_none (t : τ) : Above none t := fun _ hm => by cases hm

/-- Above a mark means strictly later than it. -/
@[simp] theorem above_some {m t : τ} : Above (some m) t ↔ m < t := by
  simp [Above]

/-- The items that pass, in order. -/
def passed (key : α → τ) : Option τ → List α → List α
  | _, [] => []
  | mark, x :: items =>
    if Above mark (key x) then x :: passed key (some (key x)) items else passed key mark items

/-- The mark after the scan. -/
def raised (key : α → τ) : Option τ → List α → Option τ
  | mark, [] => mark
  | mark, x :: items =>
    if Above mark (key x) then raised key (some (key x)) items else raised key mark items

/-- A batch passes in pieces: the second piece meets the mark the first one has raised. -/
theorem passed_append (mark : Option τ) (first second : List α) :
    passed key mark (first ++ second) =
      passed key mark first ++ passed key (raised key mark first) second := by
  induction first generalizing mark with
  | nil => rfl
  | cons x first ih =>
    by_cases hx : Above mark (key x)
    · simp [passed, raised, hx, ih]
    · simp [passed, raised, hx, ih]

/-- The mark is the highest key so far. -/
theorem above_raised_iff {mark : Option τ} {items : List α} {t : τ} :
    Above (raised key mark items) t ↔ Above mark t ∧ ∀ x ∈ items, key x < t := by
  induction items generalizing mark with
  | nil => simp [raised]
  | cons x items ih =>
    rw [raised, List.forall_mem_cons]
    split
    · next hx =>
      rw [ih, above_some]
      constructor
      · rintro ⟨hxt, hrest⟩
        exact ⟨fun m hm => (hx m hm).trans hxt, hxt, hrest⟩
      · rintro ⟨-, hxt, hrest⟩
        exact ⟨hxt, hrest⟩
    · next hx =>
      rw [ih]
      constructor
      · rintro ⟨hmark, hrest⟩
        refine ⟨hmark, ?_, hrest⟩
        -- an item that does not pass has a key no higher than the mark
        obtain ⟨m, hm, hle⟩ : ∃ m ∈ mark, key x ≤ m := by simpa [Above] using hx
        exact hle.trans_lt (hmark m hm)
      · rintro ⟨hmark, -, hrest⟩
        exact ⟨hmark, hrest⟩

/-- An item passes exactly if its key is above the mark and the keys of all items before. -/
theorem mem_passed_iff {mark : Option τ} {items : List α} {x : α} :
    x ∈ passed key mark items ↔ Above mark (key x) ∧
      ∃ before after, items = before ++ x :: after ∧ ∀ y ∈ before, key y < key x := by
  constructor
  · intro h
    induction items using List.reverseRecOn with
    | nil => cases h
    | append_singleton items y ih =>
      rw [passed_append, List.mem_append] at h
      rcases h with hfirst | hlast
      · obtain ⟨hmark, before, after, rfl, hbefore⟩ := ih hfirst
        exact ⟨hmark, before, after ++ [y], by simp, hbefore⟩
      · by_cases hy : Above (raised key mark items) (key y)
        · rw [passed, if_pos hy] at hlast
          obtain rfl := List.mem_singleton.mp hlast
          obtain ⟨hmark, hitems⟩ := above_raised_iff.mp hy
          exact ⟨hmark, items, [], rfl, hitems⟩
        · rw [passed, if_neg hy] at hlast
          cases hlast
  · rintro ⟨hmark, before, after, rfl, hbefore⟩
    have hx : Above (raised key mark before) (key x) := above_raised_iff.mpr ⟨hmark, hbefore⟩
    rw [passed_append, passed, if_pos hx]
    exact List.mem_append_right _ List.mem_cons_self

/-- What passes has ascending keys. -/
theorem pairwise_passed (mark : Option τ) (items : List α) :
    (passed key mark items).Pairwise (key · < key ·) := by
  induction items using List.reverseRecOn with
  | nil => exact .nil
  | append_singleton items y ih =>
    rw [passed_append, List.pairwise_append]
    by_cases hy : Above (raised key mark items) (key y)
    · rw [passed, if_pos hy]
      refine ⟨ih, List.pairwise_singleton .., fun x hx z hz => ?_⟩
      obtain rfl := List.mem_singleton.mp hz
      obtain ⟨-, before, after, rfl, -⟩ := mem_passed_iff.mp hx
      exact (above_raised_iff.mp hy).2 x (List.mem_append_right _ List.mem_cons_self)
    · rw [passed, if_neg hy]
      exact ⟨ih, .nil, fun _ _ _ hz => by cases hz⟩

/-- No item passes twice. -/
theorem nodup_passed (mark : Option τ) (items : List α) : (passed key mark items).Nodup :=
  (pairwise_passed mark items).imp fun {x y} (h : key x < key y) heq => h.ne (congrArg key heq)

/-! ## Batches -/

/-- The items of a batch whose keys lie above those of all earlier batches. -/
def fresh (key : α → τ) (earlier : List (List α)) (batch : List α) : List α :=
  batch.filter fun x => ∀ y ∈ earlier.flatten, key y < key x

/-- An entry is fresh when its key exceeds every key seen in the earlier batches. -/
@[simp] theorem mem_fresh {earlier : List (List α)} {batch : List α} {x : α} :
    x ∈ fresh key earlier batch ↔ x ∈ batch ∧ ∀ y ∈ earlier.flatten, key y < key x := by
  simp [fresh]

/-- A list is in order exactly if every element is in order with those before it. -/
theorem pairwise_iff_forall_split {R : α → α → Prop} {l : List α} :
    l.Pairwise R ↔ ∀ before x after, l = before ++ x :: after → ∀ y ∈ before, R y x := by
  constructor
  · rintro h before x after rfl y hy
    exact (List.pairwise_append.mp h).2.2 y hy x List.mem_cons_self
  · intro h
    induction l using List.reverseRecOn with
    | nil => exact .nil
    | append_singleton l x ih =>
      refine List.pairwise_append.mpr ⟨ih ?_, List.pairwise_singleton .., ?_⟩
      · rintro before z after rfl
        exact h before z (after ++ [x]) (by simp)
      · intro y hy z hz
        obtain rfl := List.mem_singleton.mp hz
        exact h l z [] rfl y hy

/-- In a scan of all batches, a fresh item passes exactly if all items that stand before it in
its batch have lower keys. -/
theorem mem_passed_iff_of_fresh {earlier later : List (List α)} {batch : List α} {x : α}
    (hx : x ∈ fresh key earlier batch) :
    x ∈ passed key none (earlier ++ batch :: later).flatten ↔
      ∃ before after, batch = before ++ x :: after ∧ ∀ y ∈ before, key y < key x := by
  obtain ⟨hmem, hnew⟩ := mem_fresh.mp hx
  rw [List.flatten_append, List.flatten_cons, passed_append, passed_append]
  constructor
  · intro h
    rcases List.mem_append.mp h with hearlier | h
    · obtain ⟨-, before, after, heq, -⟩ := mem_passed_iff.mp hearlier
      have hself : x ∈ earlier.flatten := heq ▸ List.mem_append_right _ List.mem_cons_self
      exact absurd (hnew x hself) (lt_irrefl _)
    · rcases List.mem_append.mp h with hbatch | hlater
      · exact (mem_passed_iff.mp hbatch).2
      · have habove := (mem_passed_iff.mp hlater).1
        exact absurd ((above_raised_iff.mp habove).2 x hmem) (lt_irrefl _)
  · intro hsplit
    have habove : Above (raised key none earlier.flatten) (key x) :=
      above_raised_iff.mpr ⟨above_none _, hnew⟩
    exact List.mem_append_right _ (List.mem_append_left _ (mem_passed_iff.mpr ⟨habove, hsplit⟩))

/-- All fresh items of a batch pass exactly if they stand in ascending order. -/
theorem forall_fresh_mem_passed_iff {earlier : List (List α)} (later : List (List α))
    {batch : List α} (hdistinct : (batch.map key).Nodup) :
    (∀ x ∈ fresh key earlier batch, x ∈ passed key none (earlier ++ batch :: later).flatten) ↔
      (fresh key earlier batch).Pairwise (key · < key ·) := by
  have hiff : (∀ x ∈ fresh key earlier batch,
        x ∈ passed key none (earlier ++ batch :: later).flatten) ↔
      ∀ x ∈ fresh key earlier batch,
        ∃ before after, batch = before ++ x :: after ∧ ∀ y ∈ before, key y < key x :=
    forall₂_congr fun x hx => mem_passed_iff_of_fresh hx
  rw [hiff, fresh, List.pairwise_filter, pairwise_iff_forall_split]
  constructor
  · rintro h before x after rfl y hy - hx
    have hxbatch : x ∈ before ++ x :: after := List.mem_append_right _ List.mem_cons_self
    obtain ⟨before', after', heq, hbefore'⟩ := h x (List.mem_filter.mpr ⟨hxbatch, hx⟩)
    -- the item occurs once, so both ways to reach it are the same
    obtain ⟨-, hrest, hdisjoint⟩ := List.nodup_append.mp hdistinct.of_map
    have hxbefore : x ∉ before := fun hmem => hdisjoint x hmem x List.mem_cons_self rfl
    have hxafter : x ∉ after := (List.nodup_cons.mp hrest).1
    obtain ⟨rfl, -, -⟩ := (List.append_cons_inj_of_notMem hxbefore hxafter).mp heq
    exact hbefore' y hy
  · intro h x hx
    obtain ⟨hmem, hnew⟩ := mem_fresh.mp hx
    obtain ⟨before, after, heq⟩ := List.append_of_mem hmem
    refine ⟨before, after, heq, fun y hy => ?_⟩
    by_cases hfresh : ∀ z ∈ earlier.flatten, key z < key y
    · exact h before x after heq y hy (by simpa using hfresh) (by simpa using hnew)
    · obtain ⟨z, hz, hle⟩ := not_forall₂.mp hfresh
      exact (le_of_not_gt hle).trans_lt (hnew z hz)

end Machine
