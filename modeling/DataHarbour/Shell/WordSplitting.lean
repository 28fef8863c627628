import Mathlib.Data.List.Basic

/-!
# Unquoted expansions of a shell

The words that an unquoted variable contributes to a command line. The value is split at blanks
and empty fields are dropped; then every field with a pattern character is replaced by the paths
that match it, if there are any. Texts that are joined with blanks are expanded one by one, so
a list of words survives joining and expanding exactly if each word does on its own.
-/

namespace Shell

/-- The characters of the default `IFS`: space, tab and newline. -/
def isBlank (c : Char) : Bool := c = ' ' || c = '\t' || c = '\n'

/-- The characters that make a word a pattern. -/
def isPattern (c : Char) : Bool := c = '*' || c = '?' || c = '['

/-- Word splitting. -/
def fields (text : String) : List String :=
  ((text.toList.splitOnP isBlank).filter (· ≠ [])).map String.ofList

/-- Pathname expansion of one word; `paths` lists the paths that match a pattern. A pattern
without a match stands for itself. -/
def expandPaths (paths : String → List String) (word : String) : List String :=
  if word.toList.any isPattern ∧ paths word ≠ [] then paths word else [word]

/-- The words that an unquoted text becomes. -/
def expand (paths : String → List String) (text : String) : List String :=
  (fields text).flatMap (expandPaths paths)

/-- A text that stays one word. -/
structure Plain (text : String) : Prop where
  nonempty : text ≠ ""
  no_blank : ∀ c ∈ text.toList, isBlank c = false
  no_pattern : ∀ c ∈ text.toList, isPattern c = false

private theorem plain_iff {text : String} : Plain text ↔
    text ≠ "" ∧ text.toList.all (fun c => !isBlank c && !isPattern c) = true := by
  simp only [List.all_eq_true, Bool.and_eq_true, Bool.not_eq_true']
  constructor
  · intro h
    exact ⟨h.nonempty, fun c hc => ⟨h.no_blank c hc, h.no_pattern c hc⟩⟩
  · rintro ⟨hnonempty, hall⟩
    exact ⟨hnonempty, fun c hc => (hall c hc).1, fun c hc => (hall c hc).2⟩

instance (text : String) : Decidable (Plain text) := decidable_of_iff _ plain_iff.symm

/-- What makes a plain text longer without changing that. -/
theorem Plain.append_iff {first : String} (h : Plain first) (second : String) :
    Plain (first ++ second) ↔ ∀ c ∈ second.toList, isBlank c = false ∧ isPattern c = false := by
  have hmem : ∀ c, c ∈ (first ++ second).toList ↔ c ∈ first.toList ∨ c ∈ second.toList := by
    simp
  constructor
  · intro hboth c hc
    exact ⟨hboth.no_blank c ((hmem c).mpr (.inr hc)), hboth.no_pattern c ((hmem c).mpr (.inr hc))⟩
  · intro hsecond
    refine ⟨fun hempty => h.nonempty (String.append_eq_empty_iff.mp hempty).1, ?_, ?_⟩
    · intro c hc
      exact ((hmem c).mp hc).elim (h.no_blank c) fun hback => (hsecond c hback).1
    · intro c hc
      exact ((hmem c).mp hc).elim (h.no_pattern c) fun hback => (hsecond c hback).2

/-! ## Word splitting -/

/-- The parts of a split list do not contain what it is split at. -/
theorem eq_false_of_mem_splitOnP {α : Type*} {p : α → Bool} {xs part : List α}
    (h : part ∈ xs.splitOnP p) : ∀ x ∈ part, p x = false := by
  induction xs generalizing part with
  | nil =>
    obtain rfl : part = [] := by simpa using h
    simp
  | cons y ys ih =>
    rw [List.splitOnP_cons_eq_if_modifyHead] at h
    by_cases hy : p y = true
    · rw [if_pos hy] at h
      rcases List.mem_cons.mp h with rfl | htail
      · simp
      · exact ih htail
    · rw [if_neg hy] at h
      obtain ⟨first, rest, hsplit⟩ := List.exists_cons_of_ne_nil (List.splitOnP_ne_nil p ys)
      rw [hsplit, List.modifyHead_cons] at h
      rw [hsplit] at ih
      rcases List.mem_cons.mp h with rfl | hrest
      · intro x hx
        rcases List.mem_cons.mp hx with rfl | htail
        · simpa using hy
        · exact ih List.mem_cons_self x htail
      · exact ih (List.mem_cons_of_mem first hrest)

/-- A field is not empty and has no blank. -/
theorem of_mem_fields {text word : String} (h : word ∈ fields text) :
    word ≠ "" ∧ ∀ c ∈ word.toList, isBlank c = false := by
  obtain ⟨part, hpart, rfl⟩ := List.mem_map.mp h
  obtain ⟨hmem, hnonempty⟩ := List.mem_filter.mp hpart
  rw [String.toList_ofList]
  refine ⟨?_, eq_false_of_mem_splitOnP hmem⟩
  intro hempty
  have hnil : part = [] := by simpa using hempty
  simp [hnil] at hnonempty

private theorem fields_of_word {word : String} (hnonempty : word ≠ "")
    (hblank : ∀ c ∈ word.toList, isBlank c = false) : fields word = [word] := by
  have hlist : word.toList ≠ [] := by simpa using hnonempty
  rw [fields, List.splitOnP_eq_singleton hblank]
  simp [hlist]

/-- The empty text has no field. -/
@[simp] theorem fields_empty : fields "" = [] := by
  simp [fields]

/-- A blank separates. -/
theorem fields_append (first second : String) :
    fields (first ++ " " ++ second) = fields first ++ fields second := by
  have hlist : (first ++ " " ++ second).toList = first.toList ++ ' ' :: second.toList := by
    simp
  rw [fields, hlist, List.splitOnP_append_cons _ _ (by decide), List.filter_append,
    List.map_append, fields, fields]

/-! ## Expansion -/

section Expansion

variable (paths : String → List String)

/-- An empty expansion gives no word. -/
@[simp] theorem expand_empty : expand paths "" = [] := by
  simp [expand]

/-- Texts joined by a blank expand one after the other. -/
theorem expand_append (first second : String) :
    expand paths (first ++ " " ++ second) = expand paths first ++ expand paths second := by
  rw [expand, fields_append, List.flatMap_append, expand, expand]

/-- Texts that are joined with blanks are expanded one by one. -/
theorem expand_join (texts : List String) :
    expand paths (" ".intercalate texts) = texts.flatMap (expand paths) := by
  induction texts with
  | nil => simp
  | cons text texts ih =>
    cases texts with
    | nil => simp
    | cons next rest =>
      rw [String.intercalate_cons_cons, expand_append, ih]
      exact List.flatMap_cons.symm

private theorem expandPaths_of_no_pattern {word : String}
    (h : ∀ c ∈ word.toList, isPattern c = false) : expandPaths paths word = [word] := by
  have hany : word.toList.any isPattern = false := by simpa using h
  simp [expandPaths, hany]

/-- A plain word expands to itself. -/
theorem Plain.expand {word : String} (h : Plain word) : Shell.expand paths word = [word] := by
  rw [Shell.expand, fields_of_word h.nonempty h.no_blank, List.flatMap_singleton,
    expandPaths_of_no_pattern paths h.no_pattern]

end Expansion

/-- Where every pattern matches one plain path, all words of an expansion are plain. -/
theorem plain_of_mem_expand {path text word : String} (hpath : Plain path)
    (h : word ∈ expand (fun _ => [path]) text) : Plain word := by
  obtain ⟨field, hfield, hword⟩ := List.mem_flatMap.mp h
  obtain ⟨hnonempty, hblank⟩ := of_mem_fields hfield
  unfold expandPaths at hword
  split at hword
  · rw [List.mem_singleton.mp hword]
    exact hpath
  · next hpattern =>
    rw [List.mem_singleton.mp hword]
    exact ⟨hnonempty, hblank, by simpa using hpattern⟩

/-- **Which lists of words survive.** Expanding the texts of a list one by one gives the list
back, whatever paths there are, if and only if all of them are plain. -/
theorem flatMap_expand_eq_self_iff (texts : List String) :
    (∀ paths, texts.flatMap (expand paths) = texts) ↔ ∀ text ∈ texts, Plain text := by
  constructor
  · intro h text htext
    have hpath : Plain "path" := by decide
    rw [← h fun _ => ["path"]] at htext
    obtain ⟨source, -, hmem⟩ := List.mem_flatMap.mp htext
    exact plain_of_mem_expand hpath hmem
  · intro h paths
    induction texts with
    | nil => rfl
    | cons text texts ih =>
      rw [List.flatMap_cons, (h text List.mem_cons_self).expand paths,
        ih fun next hnext => h next (List.mem_cons_of_mem text hnext), List.singleton_append]

end Shell
