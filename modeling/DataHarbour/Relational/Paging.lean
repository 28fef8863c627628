import Mathlib.Data.List.Nodup
import Mathlib.Order.Lattice

/-!
# Paging through an ordered query

A client that reads a result page after page runs one query for each page. `ORDER BY` leaves
open in which order rows with the same key come, and each query may decide that anew. Then the
pages hold each row once exactly if no two rows with the same key stand on different pages.
-/

namespace Relational

/-- `OFFSET offset LIMIT size`. -/
def limit {α : Type*} (offset size : ℕ) (rows : List α) : List α := (rows.drop offset).take size

/-- The pages from `page` on until an empty one, or `none` if `fuel` pages are not enough. -/
def fetchAll {α : Type*} (fetch : ℕ → List α) : ℕ → ℕ → Option (List α)
  | 0, _ => none
  | fuel + 1, page =>
    if (fetch page).isEmpty then some []
    else (fetchAll fetch fuel (page + 1)).map (fetch page ++ ·)

section Fetch

variable {α β : Type*} {fetch : ℕ → List α}

/-- A map over the rows of every page is a map over the pages fetched. -/
theorem fetchAll_map (f : α → β) (fuel page : ℕ) :
    fetchAll (fun p => (fetch p).map f) fuel page =
      (fetchAll fetch fuel page).map (List.map f) := by
  induction fuel generalizing page with
  | zero => rfl
  | succ fuel ih =>
    simp only [fetchAll, List.isEmpty_map]
    split
    · rfl
    · rw [ih, Option.map_map, Option.map_map]
      simp only [Function.comp_def, List.map_append]

/-- The pages up to the first empty one. -/
theorem fetchAll_eq {n page : ℕ} (hpages : ∀ i < n, fetch (page + i) ≠ [])
    (hend : fetch (page + n) = []) {fuel : ℕ} (hfuel : n < fuel) :
    fetchAll fetch fuel page = some ((List.range n).flatMap fun i => fetch (page + i)) := by
  induction n generalizing fuel page with
  | zero =>
    obtain ⟨fuel, rfl⟩ := Nat.exists_eq_succ_of_ne_zero (Nat.ne_of_gt hfuel)
    have hempty : fetch page = [] := hend
    rw [fetchAll, if_pos (List.isEmpty_iff.mpr hempty)]
    rfl
  | succ n ih =>
    obtain ⟨fuel, rfl⟩ := Nat.exists_eq_succ_of_ne_zero (Nat.ne_of_gt (Nat.zero_lt_of_lt hfuel))
    have hfirst : fetch page ≠ [] := hpages 0 (Nat.succ_pos n)
    have hrest : fetchAll fetch fuel (page + 1) =
        some ((List.range n).flatMap fun i => fetch (page + 1 + i)) := by
      refine ih (fun i hi => ?_) ?_ (Nat.lt_of_succ_lt_succ hfuel)
      · rw [Nat.add_assoc, Nat.add_comm 1 i]
        exact hpages (i + 1) (Nat.succ_lt_succ hi)
      · rw [Nat.add_assoc, Nat.add_comm 1 n]
        exact hend
    rw [fetchAll, if_neg (mt List.isEmpty_iff.mp hfirst), hrest, List.range_succ_eq_map,
      List.flatMap_cons, List.flatMap_map]
    simp only [Option.map_some, Nat.add_zero, Nat.succ_eq_add_one, Nat.add_assoc, Nat.add_comm 1]

end Fetch

/-! ## Ordered answers -/

variable {ρ κ : Type*} [LinearOrder κ] (key : ρ → κ)

/-- An answer to `SELECT ... ORDER BY key DESC`: the rows, those with the greatest key first. -/
structure Descending (rows : List ρ) where
  list : List ρ
  perm : list.Perm rows
  sorted : list.Pairwise fun r r' => key r' ≤ key r

/-- The first and the last of the rows with the same key stand on one page. -/
def TiesOnOnePage (rows : List ρ) (size : ℕ) : Prop :=
  ∀ row ∈ rows, rows.countP (fun r => key row < key r) / size =
    (rows.countP (fun r => key row ≤ key r) - 1) / size

instance (rows : List ρ) (size : ℕ) : Decidable (TiesOnOnePage key rows size) :=
  inferInstanceAs (Decidable (∀ row ∈ rows, _))

/-! ### Prefixes -/

section Prefix

variable {α : Type*} {P : α → Bool} {l : List α}

/-- Where such a property fails at the head, it fails everywhere. -/
theorem not_holds_of_head {x : α} (h : (x :: l).Pairwise fun x y => P y → P x)
    (hP : P x = false) : ∀ y ∈ x :: l, ¬ P y := by
  have hx := (List.pairwise_cons.mp h).1
  refine List.forall_mem_cons.mpr ⟨by simp [hP], fun y hy hPy => ?_⟩
  simp [hx y hy hPy] at hP

/-- A property that holds of a first part of the list holds as far as it is counted. -/
theorem holds_iff_lt_countP (h : l.Pairwise fun x y => P y → P x) {i : ℕ} (hi : i < l.length) :
    P l[i] ↔ i < l.countP P := by
  induction l generalizing i with
  | nil => cases hi
  | cons x l ih =>
    cases hP : P x with
    | true =>
      cases i with
      | zero => simp [hP]
      | succ i => simpa [hP] using ih (List.pairwise_cons.mp h).2 (Nat.lt_of_succ_lt_succ hi)
    | false =>
      have hnone := not_holds_of_head h hP
      rw [List.countP_eq_zero.mpr hnone]
      exact iff_of_false (hnone _ (List.getElem_mem hi)) (Nat.not_lt_zero i)

private theorem take_countP (h : l.Pairwise fun x y => P y → P x) :
    l.take (l.countP P) = l.filter P := by
  induction l with
  | nil => rfl
  | cons x l ih =>
    cases hP : P x with
    | true => simp [hP, ih (List.pairwise_cons.mp h).2]
    | false =>
      have hnone := not_holds_of_head h hP
      rw [List.countP_eq_zero.mpr hnone, List.take_zero, List.filter_eq_nil_iff.mpr hnone]

end Prefix

variable {key} {rows : List ρ} {size : ℕ}

namespace Descending

/-- The rows with a greater key than `t` come first, those with the key `t` next. -/
theorem pairwise_lt (answer : Descending key rows) (t : κ) :
    answer.list.Pairwise fun r r' => decide (t < key r') → decide (t < key r) :=
  answer.sorted.imp fun hle h => decide_eq_true (lt_of_lt_of_le (of_decide_eq_true h) hle)

private theorem pairwise_le (answer : Descending key rows) (t : κ) :
    answer.list.Pairwise fun r r' => decide (t ≤ key r') → decide (t ≤ key r) :=
  answer.sorted.imp fun hle h => decide_eq_true (le_trans (of_decide_eq_true h) hle)

/-- A descending answer has one entry for each row. -/
theorem length_eq (answer : Descending key rows) : answer.list.length = rows.length :=
  answer.perm.length_eq

/-- The place of a row with the key `t` in the order. -/
theorem lt_iff (answer : Descending key rows) (t : κ) {i : ℕ} (hi : i < answer.list.length) :
    t < key answer.list[i] ↔ i < rows.countP fun r => t < key r := by
  rw [← answer.perm.countP_eq, ← holds_iff_lt_countP (answer.pairwise_lt t) hi, decide_eq_true_iff]

private theorem le_iff (answer : Descending key rows) (t : κ) {i : ℕ}
    (hi : i < answer.list.length) :
    t ≤ key answer.list[i] ↔ i < rows.countP fun r => t ≤ key r := by
  rw [← answer.perm.countP_eq, ← holds_iff_lt_countP (answer.pairwise_le t) hi, decide_eq_true_iff]

/-- The rows down to a key are the same in every answer. -/
theorem perm_take_countP (answer answer' : Descending key rows) (t : κ) :
    (answer.list.take (rows.countP fun r => t ≤ key r)).Perm
      (answer'.list.take (rows.countP fun r => t ≤ key r)) := by
  rw [← answer.perm.countP_eq, take_countP (answer.pairwise_le t), answer.perm.countP_eq,
    ← answer'.perm.countP_eq, take_countP (answer'.pairwise_le t)]
  exact (answer.perm.trans answer'.perm.symm).filter _

/-- The first pages hold the same rows in every answer. -/
theorem perm_take (hties : TiesOnOnePage key rows size) (answer answer' : Descending key rows)
    (k : ℕ) : (answer.list.take (k * size)).Perm (answer'.list.take (k * size)) := by
  rcases Nat.lt_or_ge (k * size) rows.length with hlt | hge
  · rcases Nat.eq_zero_or_pos (k * size) with hzero | hpos
    · rw [hzero]
      exact List.Perm.refl _
    · -- the last row of the first `k` pages is the last one with its key
      have hi : k * size - 1 < answer.list.length := by
        rw [answer.length_eq]
        omega
      have hlater := (answer.lt_iff (key answer.list[k * size - 1]) hi).not.mp (lt_irrefl _)
      have hnotEarlier := (answer.le_iff (key answer.list[k * size - 1]) hi).mp le_rfl
      have hpage := hties answer.list[k * size - 1]
        (answer.perm.mem_iff.mp (List.getElem_mem hi))
      generalize key answer.list[k * size - 1] = t at hlater hnotEarlier hpage
      have hcount : (rows.countP fun r => t ≤ key r) = k * size := by
        have hfirst : (rows.countP fun r => t < key r) / size < k :=
          Nat.div_lt_of_lt_mul (by rw [Nat.mul_comm]; omega)
        rw [hpage] at hfirst
        have hlast := Nat.lt_mul_of_div_lt hfirst (Nat.pos_of_mul_pos_left hpos)
        omega
      rw [← hcount]
      exact answer.perm_take_countP answer' _
  · rw [List.take_of_length_le (by rw [answer.length_eq]; exact hge),
      List.take_of_length_le (by rw [answer'.length_eq]; exact hge)]
    exact answer.perm.trans answer'.perm.symm

end Descending

/-! ## The pages together -/

private theorem limit_eq_nil_iff {α : Type*} (hsize : 0 < size) {offset : ℕ} {l : List α} :
    limit offset size l = [] ↔ l.length ≤ offset := by
  rw [limit, List.take_eq_nil_iff, List.drop_eq_nil_iff]
  exact or_iff_right hsize.ne'

/-- The number of pages that are not empty. -/
def pageCount (n size : ℕ) : ℕ := (n + size - 1) / size

private theorem lt_pageCount_iff (hsize : 0 < size) {n i : ℕ} :
    i < pageCount n size ↔ i * size < n := by
  rw [pageCount, Nat.lt_div_iff_mul_lt hsize]
  omega

/-- A client gets all pages that are not empty. -/
theorem fetchAll_pages (hsize : 0 < size) (answers : ℕ → Descending key rows) {fuel : ℕ}
    (hfuel : rows.length < fuel) :
    fetchAll (fun page => limit ((page - 1) * size) size (answers page).list) fuel 1 =
      some ((List.range (pageCount rows.length size)).flatMap fun i =>
        limit (i * size) size (answers (1 + i)).list) := by
  have hcount : pageCount rows.length size < fuel := by
    refine lt_of_le_of_lt (Nat.le_of_not_lt fun h => ?_) hfuel
    have hmul := (lt_pageCount_iff hsize).mp h
    exact absurd (Nat.le_mul_of_pos_right rows.length hsize) (Nat.not_le_of_lt hmul)
  rw [fetchAll_eq (fun i hi => ?_) ?_ hcount]
  · simp only [Nat.add_sub_cancel_left]
  · rw [Nat.add_sub_cancel_left, limit_eq_nil_iff hsize, Descending.length_eq, ← not_lt,
      ← lt_pageCount_iff hsize]
    exact lt_irrefl _
  · rw [Nat.add_sub_cancel_left, ne_eq, limit_eq_nil_iff hsize, Descending.length_eq, not_le]
    exact (lt_pageCount_iff hsize).mp hi

/-- The first pages together, each from an answer of its own. -/
theorem perm_pages (hties : TiesOnOnePage key rows size) (answers : ℕ → Descending key rows)
    (answer : Descending key rows) (n : ℕ) :
    ((List.range n).flatMap fun i => limit (i * size) size (answers i).list).Perm
      (answer.list.take (n * size)) := by
  induction n with
  | zero => simp
  | succ n ih =>
    rw [List.range_succ, List.flatMap_append, List.flatMap_singleton, limit]
    have hpages := (ih.trans (answer.perm_take hties (answers n) n)).append_right
      (((answers n).list.drop (n * size)).take size)
    rw [← List.take_add, ← Nat.succ_mul] at hpages
    exact hpages.trans ((answers n).perm_take hties answer (n + 1))

/-- Each row comes once, whatever the queries answer. -/
def PagesPartition (key : ρ → κ) (rows : List ρ) (size : ℕ) : Prop :=
  ∀ answers : ℕ → Descending key rows, ∀ fuel, rows.length < fuel →
    ∃ all, fetchAll (fun page => limit ((page - 1) * size) size (answers page).list) fuel 1 =
      some all ∧ all.Perm rows

private theorem pagesPartition_of_ties (hsize : 0 < size) (hties : TiesOnOnePage key rows size) :
    PagesPartition key rows size := by
  intro answers fuel hfuel
  refine ⟨_, fetchAll_pages hsize answers hfuel, ?_⟩
  refine (perm_pages hties (fun i => answers (1 + i)) (answers 0) _).trans ?_
  have hall : (answers 0).list.length ≤ pageCount rows.length size * size := by
    rw [Descending.length_eq, ← not_lt, ← lt_pageCount_iff hsize]
    exact lt_irrefl _
  rw [List.take_of_length_le hall]
  exact (answers 0).perm

/-- The rows in some order that the query allows. -/
def Descending.sort (key : ρ → κ) (rows : List ρ) : Descending key rows where
  list := rows.mergeSort fun r r' => decide (key r' ≤ key r)
  perm := List.mergeSort_perm rows _
  sorted := by
    refine List.Pairwise.imp of_decide_eq_true (List.pairwise_mergeSort ?_ ?_ _)
    · intro a b c hab hbc
      exact decide_eq_true (le_trans (of_decide_eq_true hbc) (of_decide_eq_true hab))
    · intro a b
      simpa using le_total (key b) (key a)

/-- Two neighbours with the same key may come the other way round. -/
def Descending.exchange (front back : List ρ) (x y : ρ) (answer : Descending key rows)
    (hlist : answer.list = front ++ x :: y :: back) (hkey : key x = key y) :
    Descending key rows where
  list := front ++ y :: x :: back
  perm := ((List.Perm.swap x y back).append_left front).trans (hlist ▸ answer.perm)
  sorted := by
    have hsorted := answer.sorted
    rw [hlist, List.pairwise_append] at hsorted
    obtain ⟨hfront, hback, hbetween⟩ := hsorted
    obtain ⟨hx, hy, hrest⟩ : (∀ r ∈ y :: back, key r ≤ key x) ∧ (∀ r ∈ back, key r ≤ key y) ∧
        back.Pairwise fun r r' => key r' ≤ key r := by
      simpa [List.pairwise_cons] using hback
    rw [List.pairwise_append]
    refine ⟨hfront, ?_, fun r hr r' hr' => hbetween r hr r' ?_⟩
    · rw [List.pairwise_cons, List.pairwise_cons]
      refine ⟨fun r hr => ?_, fun r hr => hx r (List.mem_cons_of_mem y hr), hrest⟩
      rcases List.mem_cons.mp hr with rfl | hr
      · exact hkey.le
      · exact hy r hr
    · exact (List.Perm.swap x y back).mem_iff.mp hr'

private theorem mem_limit {α : Type*} {front : List α} {offset : ℕ}
    (hoffset : offset ≤ front.length)
    (hsize : front.length < offset + size) (x : α) (back : List α) :
    x ∈ limit offset size (front ++ x :: back) := by
  obtain ⟨n, hn⟩ : ∃ n, size - (front.drop offset).length = n + 1 := by
    rw [List.length_drop]
    exact Nat.exists_eq_succ_of_ne_zero (by omega)
  rw [limit, List.drop_append_of_le_length hoffset, List.take_append, hn, List.take_succ_cons]
  exact List.mem_append_right _ List.mem_cons_self

/-- Where the condition fails, a page ends between two rows with the same key. -/
theorem exists_boundary (hsize : 0 < size) (h : ¬ TiesOnOnePage key rows size)
    (answer : Descending key rows) :
    ∃ k front x y back, answer.list = front ++ x :: y :: back ∧ key x = key y ∧
      front.length + 1 = k * size := by
  simp only [TiesOnOnePage, not_forall] at h
  obtain ⟨row, hrow, hne⟩ := h
  obtain ⟨i, hi, hrowAt⟩ := List.mem_iff_getElem.mp (answer.perm.mem_iff.mpr hrow)
  have hnotBefore := (answer.lt_iff (key row) hi).not.mp (hrowAt ▸ lt_irrefl (key row))
  have hbefore := (answer.le_iff (key row) hi).mp (hrowAt ▸ le_rfl)
  obtain ⟨k, hk⟩ : ∃ k, k = ((rows.countP fun r => key row ≤ key r) - 1) / size := ⟨_, rfl⟩
  have hless : (rows.countP fun r => key row < key r) / size < k := by
    rw [hk]
    exact lt_of_le_of_ne (Nat.div_le_div_right (by omega)) hne
  have hfirst : (rows.countP fun r => key row < key r) < k * size :=
    Nat.lt_mul_of_div_lt hless hsize
  have hlast : k * size < rows.countP fun r => key row ≤ key r := by
    have hmul := Nat.div_mul_le_self ((rows.countP fun r => key row ≤ key r) - 1) size
    rw [← hk] at hmul
    omega
  have hlength : k * size < answer.list.length := by
    rw [answer.length_eq]
    exact lt_of_lt_of_le hlast List.countP_le_length
  have hkey (j : ℕ) (hj : j < answer.list.length)
      (hlater : (rows.countP fun r => key row < key r) ≤ j)
      (hnotEarlier : j < rows.countP fun r => key row ≤ key r) : key answer.list[j] = key row :=
    le_antisymm (not_lt.mp ((answer.lt_iff (key row) hj).not.mpr (not_lt.mpr hlater)))
      ((answer.le_iff (key row) hj).mpr hnotEarlier)
  obtain ⟨b, hb⟩ : ∃ b, k * size = b + 1 := ⟨k * size - 1, by omega⟩
  refine ⟨k, answer.list.take b, answer.list[b], answer.list[b + 1], answer.list.drop (b + 2),
    ?_, ?_, ?_⟩
  · rw [← List.drop_eq_getElem_cons, ← List.drop_eq_getElem_cons, List.take_append_drop]
  · rw [hkey b (by omega) (by omega) (by omega), hkey (b + 1) (by omega) (by omega) (by omega)]
  · rw [List.length_take, hb, Nat.min_eq_left (by omega)]

/-- Two queries that order the rows on both sides of such a boundary differently show one of
them on both pages. -/
theorem ties_of_pagesPartition (hnodup : rows.Nodup) (hsize : 0 < size)
    (h : PagesPartition key rows size) : TiesOnOnePage key rows size := by
  by_contra hties
  have answer := Descending.sort key rows
  obtain ⟨k, front, x, y, back, hlist, hkey, hlength⟩ := exists_boundary hsize hties answer
  obtain ⟨k, rfl⟩ : ∃ j, k = j + 1 := Nat.exists_eq_succ_of_ne_zero (by rintro rfl; omega)
  let answers (page : ℕ) : Descending key rows :=
    if page = 1 + (k + 1) then .exchange front back x y answer hlist hkey else answer
  obtain ⟨all, hall, hperm⟩ := h answers (rows.length + 1) (Nat.lt_succ_self _)
  rw [fetchAll_pages hsize answers (Nat.lt_succ_self _), Option.some_inj] at hall
  have hpages := (hperm.nodup_iff.mpr hnodup)
  rw [← hall, List.nodup_flatMap] at hpages
  have hrows : (k + 1) * size < rows.length := by
    rw [← answer.length_eq, hlist, List.length_append, ← hlength]
    simp
  have hsecond : k + 1 < pageCount rows.length size := (lt_pageCount_iff hsize).mpr hrows
  have hdisjoint := (List.pairwise_iff_getElem.mp hpages.2) k (k + 1)
    (by rw [List.length_range]; omega) (by rwa [List.length_range]) (Nat.lt_succ_self k)
  rw [List.getElem_range, List.getElem_range] at hdisjoint
  have hfirstPage : x ∈ limit (k * size) size (answers (1 + k)).list := by
    have hsame : answers (1 + k) = answer := if_neg (by omega)
    rw [hsame, hlist]
    rw [Nat.succ_mul] at hlength
    exact mem_limit (by omega) (by omega) x (y :: back)
  have hsecondPage : x ∈ limit ((k + 1) * size) size (answers (1 + (k + 1))).list := by
    have hother : (answers (1 + (k + 1))).list = (front ++ [y]) ++ x :: back := by
      rw [List.append_assoc]
      exact congrArg Descending.list (if_pos rfl)
    have hfront : (front ++ [y]).length = (k + 1) * size := by
      rw [List.length_append, List.length_singleton, hlength]
    rw [hother]
    exact mem_limit hfront.ge (by omega) x back
  exact hdisjoint hfirstPage hsecondPage

/-- **Paging through an ordered query.** Whatever order each query gives to rows with the same
key, the pages hold each row once, if and only if rows with the same key stand on one page. -/
theorem pagesPartition_iff (hnodup : rows.Nodup) (hsize : 0 < size) :
    PagesPartition key rows size ↔ TiesOnOnePage key rows size :=
  ⟨ties_of_pagesPartition hnodup hsize, pagesPartition_of_ties hsize⟩

end Relational
