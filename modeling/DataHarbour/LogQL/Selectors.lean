import DataHarbour.Text.QuotedStrings

/-!
# Stream selectors of LogQL

A stream selector is a list of matchers in braces, each a label, an operator and a string. Blanks
and comments may stand between these tokens. What follows the closing brace is the pipeline of
the query.

A program that puts texts between double quotes to build a selector gets the matchers it means
exactly if all texts are plain.
-/

namespace LogQL

open Text

/-- The operators of a matcher. -/
inductive Operator
  | equal
  | notEqual
  | regexMatch
  | regexNotMatch
  deriving DecidableEq

/-- A matcher; its value is a text in UTF-8. -/
structure Matcher where
  label : String
  operator : Operator
  value : List UInt8
  deriving DecidableEq

/-- `label="value"` -/
def equals (label value : String) : Matcher := ⟨label, .equal, utf8 value⟩

/-! ## Reading a query -/

/-- White space between tokens. -/
def isBlank (c : Char) : Bool := c = ' ' || c = '\t' || c = '\n' || c = '\r'

/-- What a label may start with. -/
def isLetter (c : Char) : Bool := ('a' ≤ c && c ≤ 'z') || ('A' ≤ c && c ≤ 'Z') || c = '_'

/-- An ASCII digit. -/
def isDigit (c : Char) : Bool := '0' ≤ c && c ≤ '9'

/-- What a label may go on with. -/
def isLabelChar (c : Char) : Bool := isLetter c || isDigit c

/-- What follows the blanks and comments; a comment ends with its line. -/
def skip : (inComment : Bool) → List Char → List Char
  | _, [] => []
  | true, c :: text => skip (c ≠ '\n') text
  | false, c :: text =>
    if isBlank c then skip false text
    else if c = '#' then skip true text
    else c :: text

/-- The label that a text starts with. -/
def readLabel (text : List Char) : Option (String × List Char) :=
  if (text.takeWhile isLabelChar).head?.any isLetter then
    some (String.ofList (text.takeWhile isLabelChar), text.dropWhile isLabelChar)
  else none

/-- The operator that a text starts with. -/
def readOperator : List Char → Option (Operator × List Char)
  | '=' :: '~' :: text => some (.regexMatch, text)
  | '!' :: '=' :: text => some (.notEqual, text)
  | '!' :: '~' :: text => some (.regexNotMatch, text)
  | '=' :: text => some (.equal, text)
  | _ => none

/-- A string between double quotes, or one between backquotes that has no escapes. -/
def readString (bare : Char → Bool) : List Char → Option (List UInt8 × List Char)
  | '"' :: text => readLiteral bare text .none
  | '\x60' :: text =>
    match text.dropWhile (· ≠ '\x60') with
    | [] => none
    | _ :: rest => some (bytes (text.takeWhile (· ≠ '\x60')), rest)
  | _ => none

/-- A label, an operator and a string, with what may stand between them. -/
def readMatcher (bare : Char → Bool) (text : List Char) : Option (Matcher × List Char) := do
  let (label, text) ← readLabel (skip false text)
  let (operator, text) ← readOperator (skip false text)
  let (value, text) ← readString bare (skip false text)
  return (⟨label, operator, value⟩, skip false text)

/-- The matchers up to the closing brace, at most `fuel` of them, and the text after it. -/
def readMatchers (bare : Char → Bool) : (fuel : ℕ) → List Char → Option (List Matcher × List Char)
  | 0, _ => none
  | fuel + 1, text => do
    let (matcher, text) ← readMatcher bare text
    match text with
    | ',' :: text =>
      let (matchers, text) ← readMatchers bare fuel text
      return (matcher :: matchers, text)
    | '}' :: text => return ([matcher], text)
    | _ => none

/-- The matchers of a query that is a stream selector without a pipeline. -/
def readSelector (bare : Char → Bool) (query : String) : Option (List Matcher) := do
  match skip false query.toList with
  | '{' :: text =>
    let (matchers, text) ← readMatchers bare text.length text
    if skip false text = [] then return matchers else none
  | _ => none

/-! ## Selectors made of texts between double quotes -/

/-- A text that LogQL reads as a label. -/
structure IsLabel (label : String) : Prop where
  chars : label.toList.all isLabelChar = true
  first : label.toList.head?.any isLetter = true

/-- `label="value"`, and what follows. -/
def matcherText (label value : String) (after : List Char) : List Char :=
  label.toList ++ '=' :: '"' :: (value.toList ++ '"' :: after)

/-- The matchers after the first one, and the closing brace. -/
def remaining : List (String × String) → List Char
  | [] => ['}']
  | (label, value) :: pairs => ',' :: ' ' :: matcherText label value (remaining pairs)

variable {bare : Char → Bool} {label value : String} {pairs : List (String × String)}
  {after text : List Char}

private theorem skip_cons {c : Char} (hblank : isBlank c = false) (hcomment : c ≠ '#')
    (text : List Char) :
    skip false (c :: text) = c :: text := by
  rw [skip, if_neg (by simp [hblank]), if_neg hcomment]

private theorem isBlank_of_isLetter {c : Char} (h : isLetter c = true) :
    isBlank c = false ∧ c ≠ '#' := by
  constructor
  · by_contra hblank
    simp only [isBlank, Bool.not_eq_false, Bool.or_eq_true, decide_eq_true_eq] at hblank
    rcases hblank with ((rfl | rfl) | rfl) | rfl
    all_goals exact absurd h (by decide)
  · rintro rfl
    exact absurd h (by decide)

private theorem skip_label (h : IsLabel label) :
    skip false (label.toList ++ text) = label.toList ++ text := by
  have hfirst := h.first
  cases hlabel : label.toList with
  | nil => simp [hlabel] at hfirst
  | cons c chars =>
    rw [hlabel] at hfirst
    obtain ⟨hblank, hcomment⟩ := isBlank_of_isLetter hfirst
    exact skip_cons hblank hcomment _

private theorem not_mem_label (h : IsLabel label) {c : Char} (hc : isLabelChar c = false) :
    c ∉ label.toList := by
  intro hmem
  rw [List.all_eq_true.mp h.chars c hmem] at hc
  cases hc

private theorem readLabel_append (h : IsLabel label) {c : Char} (hc : isLabelChar c = false) :
    readLabel (label.toList ++ c :: text) = some (label, c :: text) := by
  have hchars := List.all_eq_true.mp h.chars
  have hlabel : (label.toList ++ c :: text).takeWhile isLabelChar = label.toList := by
    rw [List.takeWhile_append_of_pos hchars, List.takeWhile_cons_of_neg (by simp [hc]),
      List.append_nil]
  have hrest : (label.toList ++ c :: text).dropWhile isLabelChar = c :: text := by
    rw [List.dropWhile_append_of_pos hchars, List.dropWhile_cons_of_neg (by simp [hc])]
  rw [readLabel, hlabel, hrest, if_pos h.first, String.ofList_toList]

private theorem readMatcher_quoted (h : IsLabel label) :
    readMatcher bare (label.toList ++ '=' :: '"' :: text) =
      (readLiteral bare text .none).map fun (value, rest) =>
        (⟨label, .equal, value⟩, skip false rest) := by
  have hoperator :
      readOperator (skip false ('=' :: '"' :: text)) = some (.equal, '"' :: text) := rfl
  have hstring : readString bare (skip false ('"' :: text)) = readLiteral bare text .none := rfl
  rw [readMatcher, skip_label h, readLabel_append h (by decide)]
  simp only [Option.bind_eq_bind, Option.bind_some, hoperator, hstring, Option.map_eq_bind]
  rfl

private theorem readMatcher_plain (h : IsLabel label) (hvalue : Plain bare value.toList) :
    readMatcher bare (matcherText label value after) =
      some (equals label value, skip false after) := by
  rw [matcherText, readMatcher_quoted h, readLiteral_plain hvalue, bytes_toList]
  rfl

/-- What follows a matcher has no double quote, or the next one opens a value. -/
theorem remaining_cases (hlabels : ∀ pair ∈ pairs, IsLabel pair.1) :
    '"' ∉ remaining pairs ∨
      ∃ piece more, remaining pairs = piece ++ '=' :: '"' :: more ∧ '"' ∉ piece ∧ '\\' ∉ piece := by
  cases pairs with
  | nil => exact .inl (by simp [remaining])
  | cons pair pairs =>
    have hlabel := hlabels pair List.mem_cons_self
    refine .inr ⟨',' :: ' ' :: pair.1.toList, pair.2.toList ++ '"' :: remaining pairs, rfl, ?_, ?_⟩
    · simpa using not_mem_label hlabel (by decide : isLabelChar '"' = false)
    · simpa using not_mem_label hlabel (by decide : isLabelChar '\\' = false)

private theorem plain_of_readMatcher (h : IsLabel label) (hlabels : ∀ pair ∈ pairs, IsLabel pair.1)
    (hread : readMatcher bare (matcherText label value (remaining pairs)) =
      some (equals label value, text)) : Plain bare value.toList := by
  rw [matcherText, readMatcher_quoted h, Option.map_eq_some_iff] at hread
  obtain ⟨⟨bs, rest⟩, hliteral, heq⟩ := hread
  have hvalue : bs = bytes value.toList := by
    rw [bytes_toList]
    exact (Matcher.mk.inj (Prod.mk.inj heq).1).2.2
  rw [hvalue] at hliteral
  exact plain_of_readLiteral (remaining_cases hlabels) hliteral

private theorem readMatchers_blank (fuel : ℕ) (text : List Char) :
    readMatchers bare fuel (' ' :: text) = readMatchers bare fuel text := by
  cases fuel with
  | zero => rfl
  | succ fuel => rfl

/-- After a plain text, the reader goes on at the next matcher. -/
theorem readMatchers_cons (h : IsLabel label) (hvalue : Plain bare value.toList) (fuel : ℕ)
    (pair : String × String) (pairs : List (String × String)) :
    readMatchers bare (fuel + 1) (matcherText label value (remaining (pair :: pairs))) =
      (readMatchers bare fuel (matcherText pair.1 pair.2 (remaining pairs))).map
        fun (matchers, text) => (equals label value :: matchers, text) := by
  rw [readMatchers, readMatcher_plain h hvalue]
  change (readMatchers bare fuel (' ' :: matcherText pair.1 pair.2 (remaining pairs))).bind _ = _
  rw [readMatchers_blank, Option.map_eq_bind]
  rfl

/-- Matchers with plain texts are read as they are meant. -/
theorem readMatchers_plain (h : IsLabel label) (hlabels : ∀ pair ∈ pairs, IsLabel pair.1)
    (hvalue : Plain bare value.toList) (hvalues : ∀ pair ∈ pairs, Plain bare pair.2.toList)
    {fuel : ℕ} (hfuel : pairs.length < fuel) :
    readMatchers bare fuel (matcherText label value (remaining pairs)) =
      some (equals label value :: pairs.map fun pair => equals pair.1 pair.2, []) := by
  induction pairs generalizing label value fuel with
  | nil =>
    obtain ⟨fuel, rfl⟩ := Nat.exists_eq_succ_of_ne_zero (Nat.ne_of_gt hfuel)
    rw [readMatchers, readMatcher_plain h hvalue]
    rfl
  | cons pair pairs ih =>
    obtain ⟨fuel, rfl⟩ := Nat.exists_eq_succ_of_ne_zero (Nat.ne_of_gt (Nat.zero_lt_of_lt hfuel))
    obtain ⟨hlabel, hlabels⟩ := List.forall_mem_cons.mp hlabels
    obtain ⟨hnext, hvalues⟩ := List.forall_mem_cons.mp hvalues
    rw [readMatchers_cons h hvalue,
      ih hlabel hlabels hnext hvalues (Nat.lt_of_succ_lt_succ hfuel)]
    rfl

/-- The first of the matchers that are read. -/
theorem readMatchers_eq_some {fuel : ℕ} {matcher : Matcher} {matchers : List Matcher}
    {rest : List Char} (h : readMatchers bare fuel text = some (matcher :: matchers, rest)) :
    ∃ next, readMatcher bare text = some (matcher, next) := by
  cases fuel with
  | zero => cases h
  | succ fuel =>
    rw [readMatchers, Option.bind_eq_bind, Option.bind_eq_some_iff] at h
    obtain ⟨⟨first, next⟩, hfirst, hnext⟩ := h
    refine ⟨next, hfirst.trans ?_⟩
    dsimp only at hnext
    split at hnext
    · obtain ⟨⟨others, last⟩, -, heq⟩ := Option.bind_eq_some_iff.mp hnext
      have hmatchers := (Prod.mk.inj (Option.some_inj.mp heq)).1
      rw [(List.cons.inj hmatchers).1]
    · have hmatchers := (Prod.mk.inj (Option.some_inj.mp hnext)).1
      rw [(List.cons.inj hmatchers).1]
    · cases hnext

/-- If they are read as they are meant, all texts are plain. -/
theorem plain_of_readMatchers (h : IsLabel label) (hlabels : ∀ pair ∈ pairs, IsLabel pair.1)
    {fuel : ℕ} (hread : readMatchers bare fuel (matcherText label value (remaining pairs)) =
      some (equals label value :: pairs.map fun pair => equals pair.1 pair.2, text)) :
    Plain bare value.toList ∧ ∀ pair ∈ pairs, Plain bare pair.2.toList := by
  induction pairs generalizing label value fuel with
  | nil =>
    obtain ⟨next, hnext⟩ := readMatchers_eq_some hread
    exact ⟨plain_of_readMatcher h hlabels hnext, List.forall_mem_nil _⟩
  | cons pair pairs ih =>
    obtain ⟨next, hnext⟩ := readMatchers_eq_some hread
    have hvalue := plain_of_readMatcher h hlabels hnext
    obtain ⟨fuel, rfl⟩ : ∃ n, fuel = n + 1 :=
      Nat.exists_eq_succ_of_ne_zero (by rintro rfl; cases hread)
    rw [readMatchers_cons h hvalue, Option.map_eq_some_iff] at hread
    obtain ⟨⟨matchers, rest⟩, hrest, heq⟩ := hread
    obtain ⟨hmatchers, rfl⟩ := Prod.mk.inj heq
    rw [(List.cons.inj hmatchers).2] at hrest
    obtain ⟨hlabel, hlabels⟩ := List.forall_mem_cons.mp hlabels
    obtain ⟨hnext, hvalues⟩ := ih hlabel hlabels hrest
    exact ⟨hvalue, List.forall_mem_cons.mpr ⟨hnext, hvalues⟩⟩

private theorem length_remaining (pairs : List (String × String)) :
    pairs.length < (remaining pairs).length := by
  induction pairs with
  | nil => exact Nat.one_pos
  | cons pair pairs ih =>
    simp only [remaining, matcherText, List.length_cons, List.length_append]
    omega

/-- **Building a selector.** The query that puts the values between double quotes is read as the
selector that is meant exactly if the values are plain. -/
theorem readSelector_iff {query : String} (h : IsLabel label)
    (hlabels : ∀ pair ∈ pairs, IsLabel pair.1)
    (hquery : query.toList = '{' :: matcherText label value (remaining pairs)) :
    readSelector bare query =
        some (equals label value :: pairs.map fun pair => equals pair.1 pair.2) ↔
      Plain bare value.toList ∧ ∀ pair ∈ pairs, Plain bare pair.2.toList := by
  have hselector : readSelector bare query =
      (readMatchers bare (matcherText label value (remaining pairs)).length
        (matcherText label value (remaining pairs))).bind fun (matchers, text) =>
          if skip false text = [] then some matchers else none := by
    rw [readSelector, hquery]
    rfl
  rw [hselector]
  constructor
  · intro hread
    obtain ⟨⟨matchers, text⟩, hmatchers, hend⟩ := Option.bind_eq_some_iff.mp hread
    obtain ⟨-, heq⟩ := Option.ite_none_right_eq_some.mp hend
    rw [Option.some_inj.mp heq] at hmatchers
    exact plain_of_readMatchers h hlabels hmatchers
  · rintro ⟨hvalue, hvalues⟩
    have hfuel : pairs.length < (matcherText label value (remaining pairs)).length := by
      have hlength := length_remaining pairs
      simp only [matcherText, List.length_append, List.length_cons]
      omega
    rw [readMatchers_plain h hlabels hvalue hvalues hfuel]
    rfl

/-! ## Streams -/

/-- A stream with these labels matches; a missing label is empty. -/
def Matcher.matches (regex : List UInt8 → List UInt8 → Bool) (matcher : Matcher)
    (labels : List (String × String)) : Bool :=
  let value := utf8 ((labels.lookup matcher.label).getD "")
  match matcher.operator with
  | .equal => value = matcher.value
  | .notEqual => value ≠ matcher.value
  | .regexMatch => regex matcher.value value
  | .regexNotMatch => !regex matcher.value value

/-- A label that is compared with a text. -/
theorem equals_matches_iff {regex : List UInt8 → List UInt8 → Bool} {label value : String}
    (hvalue : value ≠ "") {labels : List (String × String)} :
    (equals label value).matches regex labels = true ↔ labels.lookup label = some value := by
  have hutf8 : ∀ text : String, utf8 text = utf8 value ↔ text = value :=
    fun text => utf8_injective.eq_iff
  simp only [Matcher.matches, equals, decide_eq_true_eq, hutf8]
  cases labels.lookup label with
  | none => simp [Ne.symm hvalue]
  | some text => simp

end LogQL
