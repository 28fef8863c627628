import Mathlib.Data.List.Infix

/-!
# Path patterns

A pattern is a list of pieces: literal text, a segment parameter, which takes one or more
characters other than the separator, and a path parameter, which takes any text. The matcher
tries the longest text for a parameter first and goes back when the rest does not fit. Routes
are tried in the order in which they were registered, and the first that matches is taken.
-/

namespace Text

variable {α ε : Type*} {sep : α}

/-- A piece of a path pattern. -/
inductive Piece (α : Type*)
  | literal (text : List α)
  | segment
  | path

/-- The texts fit the parameters of the pattern, and filled in they give the whole text. -/
inductive Fits (sep : α) : List (Piece α) → List (List α) → List α → Prop
  | nil : Fits sep [] [] []
  | literal {pieces ws rest} (text : List α) :
      Fits sep pieces ws rest → Fits sep (.literal text :: pieces) ws (text ++ rest)
  | segment {pieces ws rest} {w : List α} :
      w ≠ [] → sep ∉ w → Fits sep pieces ws rest →
        Fits sep (.segment :: pieces) (w :: ws) (w ++ rest)
  | path {pieces ws rest} (w : List α) :
      Fits sep pieces ws rest → Fits sep (.path :: pieces) (w :: ws) (w ++ rest)

/-- The empty pattern fits the empty text alone. -/
theorem Fits.nil_iff {ws : List (List α)} {text : List α} :
    Fits sep [] ws text ↔ ws = [] ∧ text = [] := by
  constructor
  · rintro ⟨⟩
    exact ⟨rfl, rfl⟩
  · rintro ⟨rfl, rfl⟩
    exact .nil

/-- A literal piece fits its own text. -/
theorem Fits.literal_iff {l : List α} {pieces : List (Piece α)} {ws : List (List α)}
    {text : List α} :
    Fits sep (.literal l :: pieces) ws text ↔
      ∃ rest, text = l ++ rest ∧ Fits sep pieces ws rest := by
  constructor
  · rintro (_ | ⟨_, hrest⟩)
    exact ⟨_, rfl, hrest⟩
  · rintro ⟨rest, rfl, hrest⟩
    exact .literal l hrest

/-- A segment piece fits one nonempty segment. -/
theorem Fits.segment_iff {pieces : List (Piece α)} {ws : List (List α)} {text : List α} :
    Fits sep (.segment :: pieces) ws text ↔ ∃ w ws' rest, ws = w :: ws' ∧ text = w ++ rest ∧
      w ≠ [] ∧ sep ∉ w ∧ Fits sep pieces ws' rest := by
  constructor
  · rintro (_ | _ | ⟨hne, hsep, hrest⟩)
    exact ⟨_, _, _, rfl, rfl, hne, hsep, hrest⟩
  · rintro ⟨w, ws', rest, rfl, rfl, hne, hsep, hrest⟩
    exact .segment hne hsep hrest

/-- A path piece fits any text. -/
theorem Fits.path_iff {pieces : List (Piece α)} {ws : List (List α)} {text : List α} :
    Fits sep (.path :: pieces) ws text ↔ ∃ w ws' rest, ws = w :: ws' ∧ text = w ++ rest ∧
      Fits sep pieces ws' rest := by
  constructor
  · rintro (_ | _ | _ | ⟨w, hrest⟩)
    exact ⟨w, _, _, rfl, rfl, hrest⟩
  · rintro ⟨w, ws', rest, rfl, rfl, hrest⟩
    exact .path w hrest

/-- The ways to cut a text in two, the longest first part first. -/
def cuts : List α → List (List α × List α)
  | [] => [([], [])]
  | c :: text => (cuts text).map (fun cut => (c :: cut.1, cut.2)) ++ [([], c :: text)]

/-- The cuts of a text are the pairs it is put together from. -/
@[simp] theorem mem_cuts {text w rest : List α} : (w, rest) ∈ cuts text ↔ w ++ rest = text := by
  induction text generalizing w with
  | nil => simp [cuts]
  | cons c text ih =>
    cases w with
    | nil => simp [cuts]
    | cons d w => simp [cuts, ih, and_comm, eq_comm]

section Matching

variable [DecidableEq α]

/-- The texts that the parameters of the pattern take, if the pattern matches. -/
def captures (sep : α) : List (Piece α) → List α → Option (List (List α))
  | [], text => if text = [] then some [] else none
  | .literal l :: pieces, text =>
    if l <+: text then captures sep pieces (text.drop l.length) else none
  | .segment :: pieces, text => (cuts text).findSome? fun cut =>
    if cut.1 ≠ [] ∧ sep ∉ cut.1 then (captures sep pieces cut.2).map (cut.1 :: ·) else none
  | .path :: pieces, text => (cuts text).findSome? fun cut =>
    (captures sep pieces cut.2).map (cut.1 :: ·)

/-- What the parameters take fits the pattern. -/
theorem fits_of_captures {pieces : List (Piece α)} {text : List α} {ws : List (List α)}
    (h : captures sep pieces text = some ws) : Fits sep pieces ws text := by
  induction pieces generalizing text ws with
  | nil =>
    rw [captures] at h
    split at h
    · next htext => exact Fits.nil_iff.mpr ⟨(Option.some.inj h).symm, htext⟩
    · cases h
  | cons piece pieces ih =>
    cases piece with
    | literal l =>
      rw [captures] at h
      split at h
      · next hprefix =>
        obtain ⟨rest, rfl⟩ := hprefix
        rw [List.drop_left] at h
        exact .literal l (ih h)
      · cases h
    | segment =>
      obtain ⟨⟨w, rest⟩, hcut, hw⟩ := List.exists_of_findSome?_eq_some h
      split at hw
      · next hfits =>
        obtain ⟨ws', hrest, rfl⟩ := Option.map_eq_some_iff.mp hw
        rw [← mem_cuts.mp hcut]
        exact .segment hfits.1 hfits.2 (ih hrest)
      · cases hw
    | path =>
      obtain ⟨⟨w, rest⟩, hcut, hw⟩ := List.exists_of_findSome?_eq_some h
      obtain ⟨ws', hrest, rfl⟩ := Option.map_eq_some_iff.mp hw
      rw [← mem_cuts.mp hcut]
      exact .path w (ih hrest)

/-- A pattern that some texts fit is found to match. -/
theorem captures_isSome_of_fits {pieces : List (Piece α)} {text : List α} {ws : List (List α)}
    (h : Fits sep pieces ws text) : (captures sep pieces text).isSome := by
  induction h with
  | nil => rfl
  | literal l _ ih => rwa [captures, if_pos (List.prefix_append _ _), List.drop_left]
  | @segment pieces ws rest w hne hsep _ ih =>
    rw [captures, List.findSome?_isSome_iff]
    exact ⟨(w, rest), mem_cuts.mpr rfl, by rwa [if_pos ⟨hne, hsep⟩, Option.isSome_map]⟩
  | @path pieces ws rest w _ ih =>
    rw [captures, List.findSome?_isSome_iff]
    exact ⟨(w, rest), mem_cuts.mpr rfl, by rwa [Option.isSome_map]⟩

/-- Texts that alone fit the pattern are the ones that the parameters take. -/
theorem captures_of_unique {pieces : List (Piece α)} {text : List α} {ws : List (List α)}
    (h : Fits sep pieces ws text) (hunique : ∀ ws', Fits sep pieces ws' text → ws' = ws) :
    captures sep pieces text = some ws := by
  obtain ⟨ws', heq⟩ := Option.isSome_iff_exists.mp (captures_isSome_of_fits h)
  rw [heq, hunique ws' (fits_of_captures heq)]

/-! ## Routes -/

/-- An endpoint registered under a path pattern. -/
structure Route (α ε : Type*) where
  pattern : List (Piece α)
  endpoint : ε

/-- The endpoint of the first route that matches, with what its parameters take. -/
def dispatch (sep : α) (routes : List (Route α ε)) (text : List α) : Option (ε × List (List α)) :=
  routes.findSome? fun route => (captures sep route.pattern text).map (route.endpoint, ·)

/-- A dispatched text fits its route and no route registered before. -/
theorem dispatch_eq_some {routes : List (Route α ε)} {text : List α} {e : ε}
    {ws : List (List α)} (h : dispatch sep routes text = some (e, ws)) :
    ∃ before route after, routes = before ++ route :: after ∧ route.endpoint = e ∧
      Fits sep route.pattern ws text ∧
        ∀ earlier ∈ before, ∀ ws', ¬ Fits sep earlier.pattern ws' text := by
  obtain ⟨before, route, after, heq, hroute, hbefore⟩ := List.findSome?_eq_some_iff.mp h
  obtain ⟨ws', hws, hpair⟩ := Option.map_eq_some_iff.mp hroute
  obtain ⟨rfl, rfl⟩ := Prod.mk.inj hpair
  refine ⟨before, route, after, heq, rfl, fits_of_captures hws, fun earlier hmem ws' hfits => ?_⟩
  have hnone := Option.map_eq_none_iff.mp (hbefore earlier hmem)
  rw [← Option.not_isSome_iff_eq_none] at hnone
  exact hnone (captures_isSome_of_fits hfits)

/-- A route that fits in one way is taken if no route registered before fits. -/
theorem dispatch_of_unique (before after : List (Route α ε)) {route : Route α ε}
    {text : List α} {ws : List (List α)}
    (hbefore : ∀ earlier ∈ before, ∀ ws', ¬ Fits sep earlier.pattern ws' text)
    (h : Fits sep route.pattern ws text)
    (hunique : ∀ ws', Fits sep route.pattern ws' text → ws' = ws) :
    dispatch sep (before ++ route :: after) text = some (route.endpoint, ws) := by
  refine List.findSome?_eq_some_iff.mpr ⟨before, route, after, rfl, ?_, fun earlier hmem => ?_⟩
  · rw [captures_of_unique h hunique, Option.map_some]
  · rw [Option.map_eq_none_iff, ← Option.not_isSome_iff_eq_none]
    intro hsome
    obtain ⟨ws', heq⟩ := Option.isSome_iff_exists.mp hsome
    exact hbefore earlier hmem ws' (fits_of_captures heq)

end Matching

end Text
