import DataHarbour.Text.PercentEncoding
import Mathlib.Data.List.Basic

/-!
# Double-quoted strings

A literal between double quotes ends at the first double quote that no backslash escapes. The
escapes are those of Go: one letter, or a number of two hexadecimal or three octal digits for a
byte, or one of four or eight hexadecimal digits for a character. Some characters, such as a
line feed, may not stand in a literal as they are; `bare` tells which ones may.

A text that a program puts between double quotes as it is comes back unchanged exactly if it is
plain: it has no double quote, no backslash and only bare characters.
-/

namespace Text

/-- The bytes of these characters in UTF-8. -/
def bytes (text : List Char) : List UInt8 := text.flatMap String.utf8EncodeChar

/-- No character has no byte. -/
@[simp] theorem bytes_nil : bytes [] = [] := rfl

private theorem bytes_cons (c : Char) (text : List Char) :
    bytes (c :: text) = String.utf8EncodeChar c ++ bytes text := rfl

/-- Bytes are written character by character. -/
@[simp] theorem bytes_append (first second : List Char) :
    bytes (first ++ second) = bytes first ++ bytes second := List.flatMap_append

private theorem length_utf8EncodeChar_pos (c : Char) : 0 < (String.utf8EncodeChar c).length := by
  rw [String.length_utf8EncodeChar]
  exact Char.utf8Size_pos c

/-- The bytes of a text's characters are its UTF-8 encoding. -/
theorem bytes_toList (text : String) : bytes text.toList = utf8 text := by
  have h : text.toByteArray = (bytes text.toList).toByteArray := String.utf8Encode_toList.symm
  rw [utf8, String.toUTF8_eq_toByteArray, h, List.data_toByteArray, List.toList_toArray]

/-! ## Reading a literal -/

/-- What a number in an escape stands for. -/
inductive Numeral
  | byte
  | char
  deriving DecidableEq

/-- Where a reader stands: outside of escapes, after a backslash, or in the number of an escape,
with the digits to come after the next one and the value of those before. -/
inductive Escape
  | none
  | begun
  | digits (numeral : Numeral) (base more value : ℕ)
  deriving DecidableEq

/-- The value of a digit below the base. -/
def digitValue (base : ℕ) (c : Char) : Option ℕ :=
  let value :=
    if '0' ≤ c ∧ c ≤ '9' then c.toNat - '0'.toNat
    else if 'a' ≤ c ∧ c ≤ 'f' then c.toNat - 'a'.toNat + 10
    else if 'A' ≤ c ∧ c ≤ 'F' then c.toNat - 'A'.toNat + 10
    else base
  if value < base then some value else none

/-- The byte of an escape with one letter. -/
def letterEscape : Char → Option UInt8
  | 'a' => some 0x07
  | 'b' => some 0x08
  | 'f' => some 0x0c
  | 'n' => some 0x0a
  | 'r' => some 0x0d
  | 't' => some 0x09
  | 'v' => some 0x0b
  | '\\' => some 0x5c
  | '"' => some 0x22
  | _ => none

/-- The number that starts with this character after the backslash. -/
def numberEscape (c : Char) : Option Escape :=
  if c = 'x' then some (.digits .byte 16 1 0)
  else if c = 'u' then some (.digits .char 16 3 0)
  else if c = 'U' then some (.digits .char 16 7 0)
  else (digitValue 8 c).map (.digits .byte 8 1)

/-- The bytes of a number, if there is such a byte or character. -/
def Numeral.bytes? (value : ℕ) : Numeral → Option (List UInt8)
  | .byte => if value < 256 then some [.ofNat value] else none
  | .char => if value.isValidChar then some (String.utf8EncodeChar (.ofNat value)) else none

/-- The bytes that one character of the literal adds, and where the reader stands after it. -/
def readChar (bare : Char → Bool) (c : Char) : Escape → Option (List UInt8 × Escape)
  | .none =>
    if c = '"' then none
    else if c = '\\' then some ([], .begun)
    else if bare c then some (String.utf8EncodeChar c, .none)
    else none
  | .begun =>
    match letterEscape c with
    | some b => some ([b], .none)
    | none => (numberEscape c).map ([], ·)
  | .digits numeral base more value => do
    let digit ← digitValue base c
    match more with
    | 0 => (numeral.bytes? (value * base + digit)).map (·, .none)
    | more + 1 => some ([], .digits numeral base more (value * base + digit))

/-- The bytes of a piece of the literal, and where the reader stands after it. -/
def readChars (bare : Char → Bool) : List Char → Escape → Option (List UInt8 × Escape)
  | [], escape => some ([], escape)
  | c :: text, escape => do
    let (first, escape) ← readChar bare c escape
    let (second, escape) ← readChars bare text escape
    return (first ++ second, escape)

/-- The value of the literal whose opening quote stands before the text, and what follows its
closing quote. -/
def readLiteral (bare : Char → Bool) : List Char → Escape → Option (List UInt8 × List Char)
  | [], _ => none
  | c :: text, escape =>
    if c = '"' ∧ escape = .none then some ([], text)
    else do
      let (first, escape) ← readChar bare c escape
      let (second, rest) ← readLiteral bare text escape
      return (first ++ second, rest)

/-- A text that stands in a literal for itself. -/
def Plain (bare : Char → Bool) (text : List Char) : Prop :=
  ∀ c ∈ text, c ≠ '"' ∧ c ≠ '\\' ∧ bare c

instance (bare : Char → Bool) (text : List Char) : Decidable (Plain bare text) :=
  inferInstanceAs (Decidable (∀ c ∈ text, _))

variable {bare : Char → Bool} {c : Char} {text rest : List Char} {escape next : Escape}
  {value : List UInt8}

/-! ### One character -/

private theorem digitValue_quote (base : ℕ) : digitValue base '"' = none := by simp [digitValue]

/-- A double quote is read as an escaped one or not at all. -/
theorem readChar_quote (h : readChar bare '"' escape = some (value, next)) :
    escape = .begun ∧ value = [0x22] ∧ next = .none := by
  cases escape with
  | none => simp [readChar] at h
  | begun => simpa [readChar, letterEscape, eq_comm] using h
  | digits numeral base more before => simp [readChar, digitValue_quote] at h

private theorem readChar_plain (hquote : c ≠ '"') (hbackslash : c ≠ '\\') (hbare : bare c) :
    readChar bare c .none = some (String.utf8EncodeChar c, .none) := by
  rw [readChar, if_neg hquote, if_neg hbackslash, if_pos hbare]

/-- Outside of escapes, a character begins one or stands for itself. -/
theorem readChar_none_cases (h : readChar bare c .none = some (value, next)) :
    (c = '\\' ∧ value = [] ∧ next = .begun) ∨
      ((c ≠ '"' ∧ c ≠ '\\' ∧ bare c) ∧ value = String.utf8EncodeChar c ∧ next = .none) := by
  unfold readChar at h
  split_ifs at h with hquote hbackslash hbare
  · obtain ⟨rfl, rfl⟩ := Prod.mk.inj (Option.some_inj.mp h)
    exact .inl ⟨hbackslash, rfl, rfl⟩
  · obtain ⟨rfl, rfl⟩ := Prod.mk.inj (Option.some_inj.mp h)
    exact .inr ⟨⟨hquote, hbackslash, hbare⟩, rfl, rfl⟩

/-- After a backslash comes a letter, or the start of a number. -/
theorem readChar_begun_cases (h : readChar bare c .begun = some (value, next)) :
    (∃ b, value = [b] ∧ next = .none) ∨ (value = [] ∧ numberEscape c = some next) := by
  rw [readChar] at h
  cases hletter : letterEscape c with
  | some b =>
    rw [hletter] at h
    obtain ⟨rfl, rfl⟩ := Prod.mk.inj (Option.some_inj.mp h)
    exact .inl ⟨b, rfl, rfl⟩
  | none =>
    rw [hletter] at h
    obtain ⟨number, hnumber, heq⟩ := Option.map_eq_some_iff.mp h
    obtain ⟨rfl, rfl⟩ := Prod.mk.inj heq
    exact .inr ⟨rfl, hnumber⟩

/-- The last digit of a number gives its bytes, any other one gives none. -/
theorem readChar_digits_cases {numeral : Numeral} {base more before : ℕ}
    (h : readChar bare c (.digits numeral base more before) = some (value, next)) :
    (∃ number, more = 0 ∧ numeral.bytes? number = some value ∧ next = .none) ∨
      ∃ fewer number, more = fewer + 1 ∧ value = [] ∧ next = .digits numeral base fewer number := by
  simp only [readChar, Option.bind_eq_bind, Option.bind_eq_some_iff] at h
  obtain ⟨digit, -, h⟩ := h
  cases more with
  | zero =>
    obtain ⟨added, hbytes, heq⟩ := Option.map_eq_some_iff.mp h
    obtain ⟨rfl, rfl⟩ := Prod.mk.inj heq
    exact .inl ⟨_, rfl, hbytes, rfl⟩
  | succ fewer =>
    obtain ⟨rfl, rfl⟩ := Prod.mk.inj (Option.some_inj.mp h)
    exact .inr ⟨fewer, _, rfl, rfl, rfl⟩

/-! ### Escapes are longer than what they stand for -/

/-- The digits that are still to come. -/
def Escape.left : Escape → ℕ
  | .none | .begun => 0
  | .digits _ _ more _ => more + 1

/-- The most bytes that a number may stand for. -/
def Numeral.size : Numeral → ℕ
  | .byte => 1
  | .char => 4

/-- The most bytes that the digits to come may add. -/
def Escape.owed : Escape → ℕ
  | .none | .begun => 0
  | .digits numeral _ _ _ => numeral.size

section Measures

variable {numeral : Numeral} {base more before : ℕ}

/-- Outside an escape nothing is left to read. -/
@[simp] theorem left_none : Escape.none.left = 0 := rfl

/-- A backslash alone does not yet say how many digits follow. -/
@[simp] theorem left_begun : Escape.begun.left = 0 := rfl

/-- Inside a numeral the digit at hand and those after it are left. -/
@[simp] theorem left_digits : (Escape.digits numeral base more before).left = more + 1 := rfl

/-- Outside an escape no byte is owed. -/
@[simp] theorem owed_none : Escape.none.owed = 0 := rfl

/-- A backslash alone owes no byte. -/
@[simp] theorem owed_begun : Escape.begun.owed = 0 := rfl

/-- Inside a numeral the bytes of the character it stands for are owed. -/
@[simp] theorem owed_digits : (Escape.digits numeral base more before).owed = numeral.size := rfl

end Measures

private theorem length_bytes? {numeral : Numeral} {number : ℕ}
    (h : numeral.bytes? number = some value) :
    value.length ≤ numeral.size := by
  cases numeral with
  | byte =>
    simp only [Numeral.bytes?, Option.ite_none_right_eq_some, Option.some_inj] at h
    rw [← h.2]
    exact le_rfl
  | char =>
    simp only [Numeral.bytes?, Option.ite_none_right_eq_some, Option.some_inj] at h
    rw [← h.2, String.length_utf8EncodeChar]
    exact Char.utf8Size_le_four _

private theorem numberEscape_cases (h : numberEscape c = some next) :
    next.owed ≤ next.left ∧ next ≠ .begun := by
  unfold numberEscape at h
  split_ifs at h with hx hu hU
  · obtain rfl := Option.some_inj.mp h
    decide
  · obtain rfl := Option.some_inj.mp h
    decide
  · obtain rfl := Option.some_inj.mp h
    decide
  · obtain ⟨digit, -, rfl⟩ := Option.map_eq_some_iff.mp h
    exact ⟨by simp [Numeral.size], nofun⟩

/-- What a character adds makes up for the digits that it leaves. -/
theorem length_readChar (h : readChar bare c escape = some (value, next)) :
    value.length + escape.left + next.owed ≤
      (String.utf8EncodeChar c).length + escape.owed + next.left := by
  have hpos := length_utf8EncodeChar_pos c
  cases escape with
  | none =>
    rcases readChar_none_cases h with ⟨-, rfl, rfl⟩ | ⟨-, rfl, rfl⟩
    · simp
    · simp
  | begun =>
    rcases readChar_begun_cases h with ⟨b, rfl, rfl⟩ | ⟨rfl, hnumber⟩
    · exact hpos
    · have howed := (numberEscape_cases hnumber).1
      simp only [left_begun, owed_begun, List.length_nil]
      omega
  | digits numeral base more before =>
    rcases readChar_digits_cases h with ⟨_, rfl, hbytes, rfl⟩ | ⟨fewer, _, rfl, rfl, rfl⟩
    · have hlength := length_bytes? hbytes
      simp only [left_digits, owed_digits, left_none, owed_none]
      omega
    · simp only [left_digits, owed_digits, List.length_nil]
      omega

/-- Only a backslash begins an escape. -/
theorem eq_backslash_of_readChar (h : readChar bare c escape = some (value, .begun)) :
    c = '\\' := by
  cases escape with
  | none =>
    rcases readChar_none_cases h with ⟨hc, -⟩ | ⟨-, -, hnext⟩
    · exact hc
    · cases hnext
  | begun =>
    rcases readChar_begun_cases h with ⟨_, -, hnext⟩ | ⟨-, hnumber⟩
    · cases hnext
    · exact absurd rfl (numberEscape_cases hnumber).2
  | digits numeral base more before =>
    rcases readChar_digits_cases h with ⟨_, -, -, hnext⟩ | ⟨_, _, -, -, hnext⟩
    · cases hnext
    · cases hnext

/-! ### A piece of a literal -/

private theorem readChars_nil_eq_some_iff :
    readChars bare [] escape = some (value, next) ↔ value = [] ∧ next = escape := by
  rw [readChars, Option.some_inj, Prod.mk.injEq]
  exact and_congr eq_comm eq_comm

private theorem readChars_cons_eq_some_iff :
    readChars bare (c :: text) escape = some (value, next) ↔
    ∃ first mid second, readChar bare c escape = some (first, mid) ∧
      readChars bare text mid = some (second, next) ∧ first ++ second = value := by
  simp only [readChars, Option.bind_eq_bind, Option.bind_eq_some_iff, Prod.exists, Option.pure_def,
    Option.some_inj, Prod.mk.injEq]
  constructor
  · rintro ⟨first, mid, hfirst, second, next, hsecond, rfl, rfl⟩
    exact ⟨first, mid, second, hfirst, hsecond, rfl⟩
  · rintro ⟨first, mid, second, hfirst, hsecond, rfl⟩
    exact ⟨first, mid, hfirst, second, next, hsecond, rfl, rfl⟩

private theorem readChars_append_eq_some_iff {front back : List Char} :
    readChars bare (front ++ back) escape = some (value, next) ↔
      ∃ first mid second, readChars bare front escape = some (first, mid) ∧
        readChars bare back mid = some (second, next) ∧ first ++ second = value := by
  induction front generalizing escape value with
  | nil => simp [readChars]
  | cons c front ih =>
    rw [List.cons_append, readChars_cons_eq_some_iff]
    constructor
    · rintro ⟨first, mid, second, hfirst, hsecond, rfl⟩
      obtain ⟨third, last, fourth, hthird, hfourth, rfl⟩ := ih.mp hsecond
      refine ⟨first ++ third, last, fourth, ?_, hfourth, List.append_assoc ..⟩
      exact readChars_cons_eq_some_iff.mpr ⟨first, mid, third, hfirst, hthird, rfl⟩
    · rintro ⟨_, last, fourth, hfront, hfourth, rfl⟩
      obtain ⟨first, mid, third, hfirst, hthird, rfl⟩ := readChars_cons_eq_some_iff.mp hfront
      refine ⟨first, mid, third ++ fourth, hfirst, ?_, (List.append_assoc ..).symm⟩
      exact ih.mpr ⟨third, last, fourth, hthird, hfourth, rfl⟩

/-- A double quote outside of escapes is not read as part of the literal. -/
theorem readChars_quote_ne_some : readChars bare ('"' :: text) .none ≠ some (value, next) := by
  intro h
  obtain ⟨first, mid, second, hfirst, -, -⟩ := readChars_cons_eq_some_iff.mp h
  cases (readChar_quote hfirst).1

/-- The literal is what stands before the first double quote outside of escapes. -/
theorem readLiteral_eq_some_iff : readLiteral bare text escape = some (value, rest) ↔
    ∃ literal, text = literal ++ '"' :: rest ∧
      readChars bare literal escape = some (value, .none) := by
  induction text generalizing escape value with
  | nil => simp [readLiteral]
  | cons c text ih =>
    by_cases hend : c = '"' ∧ escape = .none
    · obtain ⟨rfl, rfl⟩ := hend
      rw [readLiteral, if_pos ⟨rfl, rfl⟩]
      constructor
      · intro h
        obtain ⟨rfl, rfl⟩ := Prod.mk.inj (Option.some_inj.mp h)
        exact ⟨[], rfl, rfl⟩
      · rintro ⟨literal, htext, hliteral⟩
        cases literal with
        | nil =>
          rw [(readChars_nil_eq_some_iff.mp hliteral).1, (List.cons.inj htext).2]
        | cons d literal =>
          rw [← (List.cons.inj htext).1] at hliteral
          exact absurd hliteral readChars_quote_ne_some
    · rw [readLiteral, if_neg hend]
      simp only [Option.bind_eq_bind, Option.bind_eq_some_iff, Prod.exists, Option.pure_def,
        Option.some_inj, Prod.mk.injEq]
      constructor
      · rintro ⟨first, mid, hfirst, second, rest, hsecond, rfl, rfl⟩
        obtain ⟨literal, rfl, hliteral⟩ := ih.mp hsecond
        refine ⟨c :: literal, rfl, ?_⟩
        exact readChars_cons_eq_some_iff.mpr ⟨first, mid, second, hfirst, hliteral, rfl⟩
      · rintro ⟨literal, htext, hliteral⟩
        cases literal with
        | nil =>
          have hescape := (readChars_nil_eq_some_iff.mp hliteral).2
          exact absurd ⟨(List.cons.inj htext).1, hescape.symm⟩ hend
        | cons d literal =>
          obtain ⟨rfl, rfl⟩ := List.cons.inj htext
          obtain ⟨first, mid, second, hfirst, hsecond, rfl⟩ :=
            readChars_cons_eq_some_iff.mp hliteral
          exact ⟨first, mid, hfirst, second, rest, ih.mpr ⟨literal, rfl, hsecond⟩, rfl, rfl⟩

private theorem readChars_plain (h : Plain bare text) :
    readChars bare text .none = some (bytes text, .none) := by
  induction text with
  | nil => rfl
  | cons c text ih =>
    obtain ⟨⟨hquote, hbackslash, hbare⟩, htext⟩ := List.forall_mem_cons.mp h
    exact readChars_cons_eq_some_iff.mpr
      ⟨_, _, _, readChar_plain hquote hbackslash hbare, ih htext, (bytes_cons c text).symm⟩

/-- Nothing becomes longer. -/
theorem length_readChars (h : readChars bare text escape = some (value, next)) :
    value.length + escape.left + next.owed ≤ (bytes text).length + escape.owed + next.left := by
  induction text generalizing escape value with
  | nil =>
    obtain ⟨rfl, rfl⟩ := readChars_nil_eq_some_iff.mp h
    rw [bytes_nil, List.length_nil, Nat.add_right_comm]
  | cons c text ih =>
    obtain ⟨first, mid, second, hfirst, hsecond, rfl⟩ := readChars_cons_eq_some_iff.mp h
    have hchar := length_readChar hfirst
    have htext := ih hsecond
    rw [bytes_cons, List.length_append, List.length_append]
    omega

/-- A text of full length is one without escapes. -/
theorem plain_of_readChars (h : readChars bare text .none = some (value, next))
    (hnext : next = .none) (hlength : (bytes text).length ≤ value.length) : Plain bare text := by
  induction text generalizing value with
  | nil => exact List.forall_mem_nil _
  | cons c text ih =>
    obtain ⟨first, mid, second, hfirst, hsecond, rfl⟩ := readChars_cons_eq_some_iff.mp h
    rw [bytes_cons, List.length_append, List.length_append] at hlength
    rcases readChar_none_cases hfirst with ⟨-, rfl, rfl⟩ | ⟨hplain, rfl, rfl⟩
    · have hshorter := length_readChars hsecond
      have hpos := length_utf8EncodeChar_pos c
      simp only [hnext, left_begun, owed_begun, left_none, owed_none, List.length_nil] at *
      omega
    · exact List.forall_mem_cons.mpr ⟨hplain, ih hsecond (Nat.le_of_add_le_add_left hlength)⟩

/-- A text without double quotes and backslashes is read as it is, if at all. -/
theorem readChars_of_not_mem (hbackslash : '\\' ∉ text)
    (h : readChars bare text .none = some (value, next)) : value = bytes text ∧ next = .none := by
  induction text generalizing value with
  | nil => exact readChars_nil_eq_some_iff.mp h
  | cons c text ih =>
    obtain ⟨hc, htext⟩ := not_or.mp (mt List.mem_cons.mpr hbackslash)
    obtain ⟨first, mid, second, hfirst, hsecond, rfl⟩ := readChars_cons_eq_some_iff.mp h
    rcases readChar_none_cases hfirst with ⟨hbegun, -⟩ | ⟨-, rfl, rfl⟩
    · exact absurd hbegun.symm hc
    · obtain ⟨rfl, rfl⟩ := ih htext hsecond
      exact ⟨(bytes_cons c text).symm, rfl⟩

/-- Where an escape has just begun, the last character was a backslash. -/
theorem eq_append_backslash (h : readChars bare text .none = some (value, .begun)) :
    ∃ front, text = front ++ ['\\'] := by
  rcases List.eq_nil_or_concat' text with rfl | ⟨front, c, rfl⟩
  · cases (readChars_nil_eq_some_iff.mp h).2
  · obtain ⟨-, mid, second, -, hlast, -⟩ := readChars_append_eq_some_iff.mp h
    obtain ⟨last, next, third, hc, hnil, -⟩ := readChars_cons_eq_some_iff.mp hlast
    obtain ⟨-, rfl⟩ := readChars_nil_eq_some_iff.mp hnil
    rw [eq_backslash_of_readChar hc]
    exact ⟨front, rfl⟩

/-! ## Texts between double quotes -/

/-- A text that comes back with its own length is plain, unless its last backslash escapes the
closing quote. -/
theorem readLiteral_quoted_cases {after : List Char}
    (h : readLiteral bare (text ++ '"' :: after) .none = some (value, rest))
    (hlength : (bytes text).length ≤ value.length) :
    Plain bare text ∨ ∃ front back second, text = front ++ ['\\'] ∧ after = back ++ '"' :: rest ∧
      readChars bare back .none = some (second, .none) ∧
        ∃ first, value = first ++ 0x22 :: second := by
  obtain ⟨literal, htext, hliteral⟩ := readLiteral_eq_some_iff.mp h
  rcases List.append_eq_append_iff.mp htext with ⟨back, rfl, hback⟩ | ⟨back, rfl, hback⟩
  · cases back with
    | nil =>
      rw [List.append_nil] at hliteral
      exact .inl (plain_of_readChars hliteral rfl hlength)
    | cons quote back =>
      obtain ⟨rfl, rfl⟩ := List.cons.inj hback
      obtain ⟨first, mid, _, hfirst, hquote, rfl⟩ := readChars_append_eq_some_iff.mp hliteral
      obtain ⟨_, next, second, hescaped, hsecond, rfl⟩ := readChars_cons_eq_some_iff.mp hquote
      obtain ⟨rfl, rfl, rfl⟩ := readChar_quote hescaped
      obtain ⟨front, hfront⟩ := eq_append_backslash hfirst
      exact .inr ⟨front, back, second, hfront, rfl, hsecond, first, rfl⟩
  · have hshorter := length_readChars hliteral
    rw [bytes_append, List.length_append] at hlength
    cases back with
    | nil =>
      rw [List.append_nil]
      exact .inl (plain_of_readChars hliteral rfl (by simpa using hlength))
    | cons c back =>
      have hpos := length_utf8EncodeChar_pos c
      rw [bytes_cons, List.length_append] at hlength
      simp only [left_none, owed_none] at hshorter
      omega

/-- A piece without double quotes and backslashes ends at the double quote after it. -/
theorem eq_piece_of_readChars {back piece more : List Char}
    (h : readChars bare back .none = some (value, .none)) (hquote : '"' ∉ piece)
    (hbackslash : '\\' ∉ piece) (heq : back ++ '"' :: rest = piece ++ '"' :: more) :
    back = piece := by
  rcases List.append_eq_append_iff.mp heq with ⟨tail, rfl, htail⟩ | ⟨tail, rfl, htail⟩
  · cases tail with
    | nil => exact (List.append_nil back).symm
    | cons c tail =>
      rw [← (List.cons.inj htail).1] at hquote
      exact absurd (List.mem_append_right back List.mem_cons_self) hquote
  · cases tail with
    | nil => exact List.append_nil piece
    | cons c tail =>
      obtain ⟨first, mid, second, hfirst, hsecond, -⟩ := readChars_append_eq_some_iff.mp h
      rw [(readChars_of_not_mem hbackslash hfirst).2, ← (List.cons.inj htail).1] at hsecond
      exact absurd hsecond readChars_quote_ne_some

/-- A plain text comes back unchanged. -/
theorem readLiteral_plain (h : Plain bare text) (after : List Char) :
    readLiteral bare (text ++ '"' :: after) .none = some (bytes text, after) :=
  readLiteral_eq_some_iff.mpr ⟨text, rfl, readChars_plain h⟩

/-- **Texts between double quotes.** No other text comes back unchanged, where no double quote
follows the closing one, or the first that does comes right after an equals sign, without a
backslash between the two quotes. -/
theorem plain_of_readLiteral {after : List Char}
    (hafter : '"' ∉ after ∨
      ∃ piece more, after = piece ++ '=' :: '"' :: more ∧ '"' ∉ piece ∧ '\\' ∉ piece)
    (h : readLiteral bare (text ++ '"' :: after) .none = some (bytes text, rest)) :
    Plain bare text := by
  rcases readLiteral_quoted_cases h le_rfl with
    hplain | ⟨front, back, second, htext, hback, hsecond, first, hvalue⟩
  · exact hplain
  · rcases hafter with hnone | ⟨piece, more, hpiece, hquote, hbackslash⟩
    · rw [hback] at hnone
      exact absurd (List.mem_append_right back List.mem_cons_self) hnone
    · -- the literal would end with the equals sign, and the text with a backslash
      have hpiece' : back ++ '"' :: rest = (piece ++ ['=']) ++ '"' :: more := by
        rw [← hback, hpiece, List.append_assoc]
        rfl
      have hwhole : back = piece ++ ['='] :=
        eq_piece_of_readChars hsecond (by simp [hquote]) (by simp [hbackslash]) hpiece'
      rw [hwhole] at hsecond
      rw [(readChars_of_not_mem (by simp [hbackslash]) hsecond).1, htext, bytes_append,
        bytes_append, ← List.cons_append, ← List.append_assoc] at hvalue
      exact absurd (List.append_inj_right' hvalue rfl) (by decide)

end Text
