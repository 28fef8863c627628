import Mathlib.Data.List.Nodup
import Mathlib.Data.List.Range

/-!
# Lists of mutable objects

Python variables hold references. The heap keeps the mutable elements in numbered cells and
the list objects as numbered lists of cell references, so that two lists may share elements
and two variables may name one list. `elems` reads a list back by value. An operation on
one list is described by what it does to every list, which is where aliasing shows.
-/

namespace Python

variable {α : Type}

/-- The element objects and the list objects, each named by its position. -/
structure Heap (α : Type) where
  /-- The element objects. -/
  cells : List α
  /-- The list objects: the references they hold. -/
  lists : List (List ℕ)

namespace Heap

/-- The heap without objects. -/
def empty : Heap α := ⟨[], []⟩

/-- The element object behind a reference. -/
def get [Inhabited α] (h : Heap α) (i : ℕ) : α := h.cells.getD i default

/-- The references that a list object holds. -/
def refs (h : Heap α) (r : ℕ) : List ℕ := h.lists.getD r []

/-- The list read back by value. -/
def elems [Inhabited α] (h : Heap α) (r : ℕ) : List α := (h.refs r).map h.get

/-- A new list of new elements; its reference is `h.lists.length`. -/
def alloc (h : Heap α) (xs : List α) : Heap α :=
  ⟨h.cells ++ xs, h.lists ++ [List.range' h.cells.length xs.length]⟩

/-- A new list of existing elements; its reference is `h.lists.length`. -/
def share (h : Heap α) (is : List ℕ) : Heap α := ⟨h.cells, h.lists ++ [is]⟩

/-- `fields.append(x)` with a new element `x`, in place. -/
def append (h : Heap α) (r : ℕ) (x : α) : Heap α :=
  ⟨h.cells ++ [x], h.lists.modify r (· ++ [h.cells.length])⟩

/-- An element object changes in place. -/
def write (h : Heap α) (i : ℕ) (x : α) : Heap α := ⟨h.cells.set i x, h.lists⟩

/-- The list `r` holds elements of the list `base`, in order, and `base` holds pairwise
distinct existing elements. -/
structure Shares (h : Heap α) (base r : ℕ) : Prop where
  /-- `base` is a list object. -/
  base_lt : base < h.lists.length
  /-- `r` is a list object. -/
  lt : r < h.lists.length
  /-- Every reference of `r` is one of `base`. -/
  sublist : (h.refs r).Sublist (h.refs base)
  /-- No element occurs twice. -/
  nodup : (h.refs base).Nodup
  /-- Every reference leads to an element. -/
  valid : ∀ i ∈ h.refs base, i < h.cells.length

private theorem refs_append_self {h : Heap α} {r : ℕ} (hr : r < h.lists.length) (x : α) :
    (h.append r x).refs r = h.refs r ++ [h.cells.length] := by
  simp [append, refs, List.getD_eq_getElem?_getD, hr]

/-- A list made last leaves the earlier lists. -/
theorem refs_share_of_lt {h : Heap α} {r : ℕ} (hr : r < h.lists.length) (is : List ℕ) :
    (h.share is).refs r = h.refs r := by
  simp [share, refs, List.getD_eq_getElem?_getD, List.getElem?_append_left hr]

/-- The list made last holds the given references. -/
@[simp] theorem refs_share_new (h : Heap α) (is : List ℕ) :
    (h.share is).refs h.lists.length = is := by
  simp [share, refs]

/-- A list allocated in the empty heap shares its cells with itself. -/
theorem shares_alloc_empty (xs : List α) : (empty.alloc xs).Shares 0 0 where
  base_lt := by simp [alloc, empty]
  lt := by simp [alloc, empty]
  sublist := List.Sublist.refl _
  nodup := by
    have hrefs : (empty.alloc xs).refs 0 = List.range' 0 xs.length := by simp [refs, alloc, empty]
    exact hrefs ▸ List.nodup_range'
  valid := by
    intro i hi
    simpa [refs, alloc, empty] using hi

/-- A list still shares its cells with itself after an append. -/
theorem Shares.append {h : Heap α} {r : ℕ} (hs : h.Shares r r) (x : α) :
    (h.append r x).Shares r r where
  base_lt := by simpa [Heap.append] using hs.lt
  lt := by simpa [Heap.append] using hs.lt
  sublist := List.Sublist.refl _
  nodup := by
    rw [refs_append_self hs.lt]
    apply List.Nodup.append hs.nodup (List.nodup_singleton _)
    intro i hi hnew
    have hlt := hs.valid i hi
    have heq : i = h.cells.length := by simpa using hnew
    omega
  valid := by
    intro i hi
    rw [refs_append_self hs.lt, List.mem_append] at hi
    have hlen : (h.append r x).cells.length = h.cells.length + 1 := by simp [Heap.append]
    rcases hi with hi | hi
    · have hlt := hs.valid i hi
      omega
    · have heq : i = h.cells.length := by simpa using hi
      omega

/-- A list built from some of the elements of `r` shares them. -/
theorem Shares.share {h : Heap α} {base r : ℕ} (hs : h.Shares base r) {is : List ℕ}
    (his : is.Sublist (h.refs r)) : (h.share is).Shares base h.lists.length where
  base_lt := by
    have hlt := hs.base_lt
    simp only [Heap.share, List.length_append, List.length_singleton]
    omega
  lt := by simp [Heap.share]
  sublist := by
    rw [refs_share_new, refs_share_of_lt hs.base_lt]
    exact his.trans hs.sublist
  nodup := by simpa [refs_share_of_lt hs.base_lt] using hs.nodup
  valid := by
    rw [refs_share_of_lt hs.base_lt]
    exact hs.valid

/-- Writing a cell changes no list's references. -/
theorem Shares.write {h : Heap α} {base r : ℕ} (hs : h.Shares base r) (i : ℕ) (x : α) :
    (h.write i x).Shares base r where
  base_lt := hs.base_lt
  lt := hs.lt
  sublist := hs.sublist
  nodup := hs.nodup
  valid := by
    intro j hj
    have hlen : (h.write i x).cells.length = h.cells.length := by simp [Heap.write]
    exact hlen ▸ hs.valid j hj

variable [Inhabited α]

/-- A list has one element for each reference. -/
theorem length_elems (h : Heap α) (r : ℕ) : (h.elems r).length = (h.refs r).length := by
  simp [elems]

private theorem get_append_of_lt {h : Heap α} {i : ℕ} (hi : i < h.cells.length) (r : ℕ) (x : α) :
    (h.append r x).get i = h.get i := by
  simp [append, get, List.getD_eq_getElem?_getD, List.getElem?_append_left hi]

/-- A cell reads back what was written to it. -/
theorem get_write_self {h : Heap α} {i : ℕ} (hi : i < h.cells.length) (x : α) :
    (h.write i x).get i = x := by
  simp [write, get, List.getD_eq_getElem?_getD, hi]

/-- Writing one cell leaves the others. -/
theorem get_write_of_ne {h : Heap α} {i j : ℕ} (hij : j ≠ i) (x : α) :
    (h.write i x).get j = h.get j := by
  simp [write, get, List.getD_eq_getElem?_getD, List.getElem?_set_ne (Ne.symm hij)]

/-- The first list of a fresh heap reads back as it was stored. -/
theorem elems_alloc_empty (xs : List α) : (empty.alloc xs).elems 0 = xs := by
  apply List.ext_getElem
  · simp [elems, refs, alloc, empty]
  · intro n hn hn'
    simp [elems, refs, alloc, empty, get, hn']

/-- Appending in place extends the list that the reference names. -/
theorem elems_append_self {h : Heap α} {r : ℕ} (hs : h.Shares r r) (x : α) :
    (h.append r x).elems r = h.elems r ++ [x] := by
  have hold : (h.refs r).map (h.append r x).get = (h.refs r).map h.get := by
    apply List.map_congr_left
    intro i hi
    exact get_append_of_lt (hs.valid i hi) r x
  have hnew : (h.append r x).get h.cells.length = x := by
    simp [append, get, List.getD_eq_getElem?_getD]
  rw [elems, refs_append_self hs.lt, List.map_append, hold, List.map_singleton, hnew, elems]

/-- A list that shares all elements of `base` reads back as `base` does, whatever was
written to the elements. -/
theorem Shares.elems_eq {h : Heap α} {base r : ℕ} (hs : h.Shares base r)
    (hlen : (h.elems r).length = (h.elems base).length) : h.elems r = h.elems base := by
  rw [length_elems, length_elems] at hlen
  rw [elems, elems, hs.sublist.eq_of_length hlen]

end Heap

end Python
