import DataHarbour.Text.PathPatterns
import DataHarbour.Text.PercentEncoding
import DataHarbour.Text.Segments

/-!
# Route templates

A template is a list of parts, each of which stands behind a separator: fixed text, a parameter
for one segment, or, at the end, a parameter for the rest of the path. Two templates of which no
path fits both can be told apart part by part. Where this holds of all templates of a table, the
order of the routes does not matter and a path is dispatched exactly if it is a filled template.
-/

namespace Text

variable {α ε : Type*} {sep : α}

/-- A part of a template. -/
inductive PathPart (α : Type*)
  | fixed (text : List α)
  | param
  | rest
  deriving DecidableEq

namespace PathPart

/-- The piece that reads the part. -/
def piece : PathPart α → Piece α
  | fixed text => .literal text
  | param => .segment
  | rest => .path

/-- The part can stand for the text. -/
def Reads (sep : α) : PathPart α → List α → Prop
  | fixed text, w => w = text
  | param, w => w ≠ [] ∧ sep ∉ w
  | rest, _ => True

/-- What the text gives for the parameters. -/
def given : PathPart α → List α → List (List α)
  | fixed _, _ => []
  | param, w | rest, w => [w]

/-- Fixed text is a segment. -/
def Closed (sep : α) : PathPart α → Prop
  | fixed text => sep ∉ text
  | param => True
  | rest => False

instance [DecidableEq α] : (part : PathPart α) → Decidable (part.Closed sep)
  | fixed text => inferInstanceAs (Decidable (sep ∉ text))
  | param => .isTrue trivial
  | rest => .isFalse id

/-- A closed part never reads over the separator. -/
theorem Closed.not_mem {part : PathPart α} (h : part.Closed sep) {w : List α}
    (hreads : part.Reads sep w) : sep ∉ w := by
  cases part with
  | fixed text => exact hreads ▸ h
  | param => exact hreads.2
  | rest => exact h.elim

/-- No text is read by both parts. -/
def apart [DecidableEq α] : PathPart α → PathPart α → Bool
  | fixed text, fixed text' => text ≠ text'
  | fixed text, param | param, fixed text => text = []
  | _, _ => false

private theorem not_reads_of_apart [DecidableEq α] {part part' : PathPart α} (h : part.apart part')
    {w : List α} (hreads : part.Reads sep w) : ¬ part'.Reads sep w := by
  intro hreads'
  cases part <;> cases part'
  case fixed.fixed => exact of_decide_eq_true h (hreads.symm.trans hreads')
  case fixed.param => exact hreads'.1 (hreads.trans (of_decide_eq_true h))
  case param.fixed => exact hreads.1 (hreads'.trans (of_decide_eq_true h))
  all_goals cases h

end PathPart

/-! ## Filled templates -/

/-- The pattern of a template. -/
def pattern (sep : α) (parts : List (PathPart α)) : List (Piece α) :=
  parts.flatMap fun part => [.literal [sep], part.piece]

/-- The values can stand for the parameters. -/
def Takes (sep : α) : List (PathPart α) → List (List α) → Prop
  | [], ws => ws = []
  | .fixed _ :: parts, ws => Takes sep parts ws
  | .param :: parts, ws => ∃ w ws', ws = w :: ws' ∧ (w ≠ [] ∧ sep ∉ w) ∧ Takes sep parts ws'
  | .rest :: parts, ws => ∃ w ws', ws = w :: ws' ∧ Takes sep parts ws'

/-- The template with the values filled in. -/
def fill (sep : α) : List (PathPart α) → List (List α) → List α
  | [], _ => []
  | .fixed text :: parts, ws => sep :: (text ++ fill sep parts ws)
  | .param :: parts, ws | .rest :: parts, ws =>
    sep :: (ws.headD [] ++ fill sep parts ws.tail)

/-- Without a parameter for the rest of the path the values are segments, one for each
parameter. -/
theorem takes_iff_forall [DecidableEq α] {parts : List (PathPart α)} (h : .rest ∉ parts)
    {ws : List (List α)} : Takes sep parts ws ↔
      ws.length = parts.count .param ∧ ∀ w ∈ ws, w ≠ [] ∧ sep ∉ w := by
  induction parts generalizing ws with
  | nil =>
    constructor
    · rintro rfl
      simp
    · exact fun hws => List.eq_nil_of_length_eq_zero hws.1
  | cons part parts ih =>
    have hparts (ws : List (List α)) :=
      @ih (fun hmem => h (List.mem_cons_of_mem part hmem)) ws
    cases part with
    | fixed text => rw [Takes, hparts ws, List.count_cons_of_ne (by simp)]
    | param =>
      rw [Takes, List.count_cons_self]
      constructor
      · rintro ⟨w, ws, rfl, hw, htakes⟩
        obtain ⟨hlength, hws⟩ := (hparts ws).mp htakes
        exact ⟨congrArg (· + 1) hlength, List.forall_mem_cons.mpr ⟨hw, hws⟩⟩
      · rintro ⟨hlength, hall⟩
        obtain ⟨w, ws, rfl⟩ := List.exists_cons_of_length_eq_add_one hlength
        obtain ⟨hw, hws⟩ := List.forall_mem_cons.mp hall
        exact ⟨w, ws, rfl, hw, (hparts ws).mpr ⟨Nat.succ.inj hlength, hws⟩⟩
    | rest => exact absurd List.mem_cons_self h

private theorem fits_pattern_cons_iff {part : PathPart α} {parts : List (PathPart α)}
    {ws : List (List α)}
    {text : List α} : Fits sep (pattern sep (part :: parts)) ws text ↔
      ∃ w ws' rest, part.Reads sep w ∧ ws = part.given w ++ ws' ∧ text = sep :: (w ++ rest) ∧
        Fits sep (pattern sep parts) ws' rest := by
  rw [pattern, List.flatMap_cons, ← pattern, List.cons_append, List.singleton_append,
    Fits.literal_iff]
  cases part with
  | fixed l =>
    simp only [PathPart.piece, Fits.literal_iff]
    constructor
    · rintro ⟨_, rfl, rest, rfl, hrest⟩
      exact ⟨l, ws, rest, rfl, rfl, rfl, hrest⟩
    · rintro ⟨_, _, rest, rfl, rfl, rfl, hrest⟩
      exact ⟨_, rfl, rest, rfl, hrest⟩
  | param =>
    simp only [PathPart.piece, Fits.segment_iff]
    constructor
    · rintro ⟨_, rfl, w, ws', rest, rfl, rfl, hne, hsep, hrest⟩
      exact ⟨w, ws', rest, ⟨hne, hsep⟩, rfl, rfl, hrest⟩
    · rintro ⟨w, ws', rest, ⟨hne, hsep⟩, rfl, rfl, hrest⟩
      exact ⟨_, rfl, w, ws', rest, rfl, rfl, hne, hsep, hrest⟩
  | rest =>
    simp only [PathPart.piece, Fits.path_iff]
    constructor
    · rintro ⟨_, rfl, w, ws', rest, rfl, rfl, hrest⟩
      exact ⟨w, ws', rest, trivial, rfl, rfl, hrest⟩
    · rintro ⟨w, ws', rest, -, rfl, rfl, hrest⟩
      exact ⟨_, rfl, w, ws', rest, rfl, rfl, hrest⟩

/-- What fits the pattern is the filled template. -/
theorem fits_pattern_iff {parts : List (PathPart α)} {ws : List (List α)} {text : List α} :
    Fits sep (pattern sep parts) ws text ↔ Takes sep parts ws ∧ text = fill sep parts ws := by
  induction parts generalizing ws text with
  | nil => exact Fits.nil_iff
  | cons part parts ih =>
    rw [fits_pattern_cons_iff]
    simp only [ih]
    cases part with
    | fixed l =>
      constructor
      · rintro ⟨_, ws', _, rfl, rfl, rfl, htakes, rfl⟩
        exact ⟨htakes, rfl⟩
      · rintro ⟨htakes, rfl⟩
        exact ⟨l, ws, _, rfl, rfl, rfl, htakes, rfl⟩
    | param =>
      constructor
      · rintro ⟨w, ws', _, hreads, rfl, rfl, htakes, rfl⟩
        exact ⟨⟨w, ws', rfl, hreads, htakes⟩, rfl⟩
      · rintro ⟨⟨w, ws', rfl, hreads, htakes⟩, rfl⟩
        exact ⟨w, ws', _, hreads, rfl, rfl, htakes, rfl⟩
    | rest =>
      constructor
      · rintro ⟨w, ws', _, -, rfl, rfl, htakes, rfl⟩
        exact ⟨⟨w, ws', rfl, htakes⟩, rfl⟩
      · rintro ⟨⟨w, ws', rfl, htakes⟩, rfl⟩
        exact ⟨w, ws', _, trivial, rfl, rfl, htakes, rfl⟩

/-! ## Templates apart -/

/-- Only the last part can take more than a segment. -/
def Proper (sep : α) : List (PathPart α) → Prop
  | [] => True
  | part :: parts => (parts = [] ∧ part = .rest) ∨ (part.Closed sep ∧ Proper sep parts)

instance decidableProper [DecidableEq α] :
    (parts : List (PathPart α)) → Decidable (Proper sep parts)
  | [] => .isTrue trivial
  | part :: parts =>
    have := decidableProper parts
    inferInstanceAs
      (Decidable ((parts = [] ∧ part = .rest) ∨ (part.Closed sep ∧ Proper sep parts)))

/-- A path of a template ends or goes on with a separator. -/
theorem eq_nil_or_cons_of_fits {parts : List (PathPart α)} {ws : List (List α)} {text : List α}
    (h : Fits sep (pattern sep parts) ws text) : text = [] ∨ ∃ rest, text = sep :: rest := by
  cases parts with
  | nil => exact .inl (Fits.nil_iff.mp h).2
  | cons part parts =>
    obtain ⟨w, _, rest, -, -, rfl, -⟩ := fits_pattern_cons_iff.mp h
    exact .inr ⟨w ++ rest, rfl⟩

/-- The texts up to the first separator are the same, and so is what follows them. -/
theorem append_inj_of_closed {w w' rest rest' : List α} (hw : sep ∉ w) (hw' : sep ∉ w')
    (hrest : rest = [] ∨ ∃ tail, rest = sep :: tail)
    (hrest' : rest' = [] ∨ ∃ tail, rest' = sep :: tail) (h : w ++ rest = w' ++ rest') :
    w = w' ∧ rest = rest' := by
  rcases hrest with rfl | ⟨tail, rfl⟩ <;> rcases hrest' with rfl | ⟨tail', rfl⟩
  · simpa using h
  · rw [List.append_nil] at h
    exact absurd (h ▸ List.mem_append_right w' List.mem_cons_self) hw
  · rw [List.append_nil] at h
    exact absurd (h ▸ List.mem_append_right w List.mem_cons_self) hw'
  · have hprefix : w ++ sep :: tail <+: w' ++ sep :: tail' := h ▸ List.prefix_rfl
    obtain ⟨rfl, -⟩ := (prefix_closed_iff hw hw').mp hprefix
    exact ⟨rfl, List.append_cancel_left h⟩

/-- A path that fits two templates has one segment for their first parts. -/
theorem fits_both_cons {part part' : PathPart α} {parts parts' : List (PathPart α)}
    {ws ws' : List (List α)} {text : List α} (hpart : part.Closed sep) (hpart' : part'.Closed sep)
    (h : Fits sep (pattern sep (part :: parts)) ws text)
    (h' : Fits sep (pattern sep (part' :: parts')) ws' text) :
    ∃ w vs vs' rest, part.Reads sep w ∧ part'.Reads sep w ∧ ws = part.given w ++ vs ∧
      ws' = part'.given w ++ vs' ∧ Fits sep (pattern sep parts) vs rest ∧
        Fits sep (pattern sep parts') vs' rest := by
  obtain ⟨w, vs, rest, hw, rfl, rfl, hrest⟩ := fits_pattern_cons_iff.mp h
  obtain ⟨w', vs', rest', hw', rfl, htext, hrest'⟩ := fits_pattern_cons_iff.mp h'
  obtain ⟨rfl, rfl⟩ := append_inj_of_closed (hpart.not_mem hw) (hpart'.not_mem hw')
    (eq_nil_or_cons_of_fits hrest) (eq_nil_or_cons_of_fits hrest') (List.cons.inj htext).2
  exact ⟨w, vs, vs', rest, hw, hw', rfl, rfl, hrest, hrest'⟩

/-- A path gives the parameters of a template one list of values. -/
theorem values_unique {parts : List (PathPart α)} (hproper : Proper sep parts)
    {ws ws' : List (List α)} {text : List α} (h : Fits sep (pattern sep parts) ws text)
    (h' : Fits sep (pattern sep parts) ws' text) : ws = ws' := by
  induction parts generalizing ws ws' text with
  | nil => exact (Fits.nil_iff.mp h).1.trans (Fits.nil_iff.mp h').1.symm
  | cons part parts ih =>
    rcases hproper with ⟨rfl, rfl⟩ | ⟨hclosed, hproper⟩
    · -- the last parameter takes all
      obtain ⟨w, vs, rest, -, rfl, rfl, hrest⟩ := fits_pattern_cons_iff.mp h
      obtain ⟨w', vs', rest', -, rfl, htext, hrest'⟩ := fits_pattern_cons_iff.mp h'
      obtain ⟨rfl, rfl⟩ := Fits.nil_iff.mp hrest
      obtain ⟨rfl, rfl⟩ := Fits.nil_iff.mp hrest'
      simpa [PathPart.given] using htext
    · obtain ⟨w, vs, vs', rest, -, -, rfl, rfl, hvs, hvs'⟩ := fits_both_cons hclosed hclosed h h'
      rw [ih hproper hvs hvs']

section Tables

variable [DecidableEq α]

/-- The templates differ in a part that both have, or in their number of segments. -/
def apart : List (PathPart α) → List (PathPart α) → Bool
  | part :: parts, part' :: parts' =>
    part.apart part' || (part ≠ .rest && part' ≠ .rest && apart parts parts')
  | [], [] => false
  | _, _ => true

/-- No path fits both templates. -/
theorem not_fits_of_apart {parts parts' : List (PathPart α)} (hproper : Proper sep parts)
    (hproper' : Proper sep parts') (hapart : apart parts parts') {ws ws' : List (List α)}
    {text : List α} (h : Fits sep (pattern sep parts) ws text) :
    ¬ Fits sep (pattern sep parts') ws' text := by
  intro h'
  induction parts generalizing parts' ws ws' text with
  | nil =>
    obtain ⟨-, rfl⟩ := Fits.nil_iff.mp h
    cases parts' with
    | nil => cases hapart
    | cons part' parts' =>
      obtain ⟨w, _, _, -, -, htext, -⟩ := fits_pattern_cons_iff.mp h'
      cases htext
  | cons part parts ih =>
    cases parts' with
    | nil =>
      obtain ⟨-, rfl⟩ := Fits.nil_iff.mp h'
      obtain ⟨w, _, _, -, -, htext, -⟩ := fits_pattern_cons_iff.mp h
      cases htext
    | cons part' parts' =>
      have hcases : part.apart part' = true ∨
          (part ≠ .rest ∧ part' ≠ .rest) ∧ apart parts parts' = true := by
        simpa [apart] using hapart
      have hne : part ≠ .rest ∧ part' ≠ .rest := by
        rcases hcases with hparts | ⟨hne, -⟩
        · cases part <;> cases part' <;> first | cases hparts | simp
        · exact hne
      have hclosed := hproper.resolve_left fun hlast => hne.1 hlast.2
      have hclosed' := hproper'.resolve_left fun hlast => hne.2 hlast.2
      obtain ⟨w, _, _, _, hw, hw', -, -, hvs, hvs'⟩ :=
        fits_both_cons hclosed.1 hclosed'.1 h h'
      rcases hcases with hparts | ⟨-, hrest⟩
      · exact PathPart.not_reads_of_apart hparts hw hw'
      · exact ih hclosed.2 hclosed'.2 hrest hvs hvs'

/-- The routes of a table of templates. -/
def templateRoutes (sep : α) (table : List (List (PathPart α) × ε)) : List (Route α ε) :=
  table.map fun entry => ⟨pattern sep entry.1, entry.2⟩

/-- **In a table of templates that are pairwise apart every filled template is dispatched to its
endpoint, with the values filled in, and nothing else is dispatched.** -/
theorem dispatch_templateRoutes_iff {table : List (List (PathPart α) × ε)}
    (hproper : ∀ entry ∈ table, Proper sep entry.1)
    (hapart : table.Pairwise fun entry later => apart entry.1 later.1) {text : List α} {e : ε}
    {ws : List (List α)} : dispatch sep (templateRoutes sep table) text = some (e, ws) ↔
      ∃ parts, (parts, e) ∈ table ∧ Takes sep parts ws ∧ text = fill sep parts ws := by
  constructor
  · intro h
    obtain ⟨before, route, after, heq, rfl, hfits, -⟩ := dispatch_eq_some h
    have hmem : route ∈ templateRoutes sep table :=
      heq ▸ List.mem_append_right before List.mem_cons_self
    obtain ⟨⟨parts, e⟩, hentry, rfl⟩ := List.mem_map.mp hmem
    exact ⟨parts, hentry, fits_pattern_iff.mp hfits⟩
  · rintro ⟨parts, hentry, hfilled⟩
    have hfits : Fits sep (pattern sep parts) ws text := fits_pattern_iff.mpr hfilled
    obtain ⟨before, after, rfl⟩ := List.append_of_mem hentry
    have hparts := hproper _ hentry
    rw [templateRoutes, List.map_append, List.map_cons]
    refine dispatch_of_unique _ _ ?_ hfits fun ws' hws' => values_unique hparts hws' hfits
    intro earlier hearlier ws' hws'
    obtain ⟨entry, hmem, rfl⟩ := List.mem_map.mp hearlier
    have hbefore : apart entry.1 parts :=
      (List.pairwise_append.mp hapart).2.2 entry hmem _ List.mem_cons_self
    exact not_fits_of_apart (hproper entry (List.mem_append_left _ hmem)) hparts hbefore hws' hfits

end Tables

/-! ## URLs -/

/-- The template as a client fills it in: the values are percent-encoded. -/
def fillUrl : List (PathPart Char) → List String → List UInt8
  | [], _ => []
  | .fixed text :: parts, ws => utf8 (String.ofList ('/' :: text)) ++ fillUrl parts ws
  | .param :: parts, ws | .rest :: parts, ws =>
    utf8 "/" ++ (quote (utf8 (ws.headD "")) ++ fillUrl parts ws.tail)

/-- Fixed text is without percent signs. -/
def PathPart.Unescaped : PathPart Char → Prop
  | fixed text => 0x25 ∉ utf8 (String.ofList ('/' :: text))
  | param | rest => True

instance : (part : PathPart Char) → Decidable part.Unescaped
  | .fixed text => inferInstanceAs (Decidable (0x25 ∉ utf8 (String.ofList ('/' :: text))))
  | .param | .rest => .isTrue trivial

/-- Decoding a URL gives the filled template. -/
theorem unquote_fillUrl {parts : List (PathPart Char)} (h : ∀ part ∈ parts, part.Unescaped)
    (ws : List String) : unquote (fillUrl parts ws) =
      utf8 (String.ofList (fill '/' parts (ws.map String.toList))) := by
  have hslash : (0x25 : UInt8) ∉ utf8 "/" := by decide
  have hparam (parts : List (PathPart Char)) (ws : List String)
      (ih : unquote (fillUrl parts ws.tail) =
        utf8 (String.ofList (fill '/' parts (ws.tail.map String.toList)))) :
      unquote (utf8 "/" ++ (quote (utf8 (ws.headD "")) ++ fillUrl parts ws.tail)) =
        utf8 (String.ofList ('/' :: ((ws.map String.toList).headD [] ++
          fill '/' parts (ws.map String.toList).tail))) := by
    have hhead : (ws.map String.toList).headD [] = (ws.headD "").toList := by
      cases ws <;> rfl
    rw [unquote_append_of_plain hslash, unquote_quote_append, ih, hhead, ← List.map_tail,
      ← utf8_append, ← utf8_append]
    congr 1
    apply String.ext
    simp
  induction parts generalizing ws with
  | nil => rfl
  | cons part parts ih =>
    obtain ⟨hpart, hparts⟩ := List.forall_mem_cons.mp h
    cases part with
    | fixed text =>
      rw [fillUrl, unquote_append_of_plain hpart, ih hparts, ← utf8_append,
        ← String.ofList_append]
      rfl
    | param => exact hparam parts ws (ih hparts ws.tail)
    | rest => exact hparam parts ws (ih hparts ws.tail)

end Text
