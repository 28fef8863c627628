import Mathlib.Data.String.Basic

/-!
# Percent encoding

Texts travel in URLs as bytes. `quote` keeps the unreserved bytes and writes every other one as
`%` and two hexadecimal digits; `unquote` reads these back, once, and leaves a `%` that no two
digits follow as it is.
-/

namespace Text

/-- The bytes of a text in UTF-8. -/
def utf8 (text : String) : List UInt8 := text.toUTF8.data.toList

/-- The text with these bytes, if they are UTF-8. -/
def ofUtf8? (bytes : List UInt8) : Option String := String.fromUTF8? ⟨bytes.toArray⟩

/-- Decoding reads back an encoded text. -/
@[simp] theorem ofUtf8?_utf8 (text : String) : ofUtf8? (utf8 text) = some text := by
  have hbytes : (⟨(utf8 text).toArray⟩ : ByteArray) = text.toUTF8 := by
    rw [utf8, Array.toArray_toList]
  rw [ofUtf8?, hbytes, String.fromUTF8?, String.toUTF8_eq_toByteArray, dif_pos text.isValidUTF8]
  rfl

/-- UTF-8 encodes texts piece by piece. -/
@[simp] theorem utf8_append (first second : String) :
    utf8 (first ++ second) = utf8 first ++ utf8 second := by
  simp [utf8]

/-- Different texts have different encodings. -/
theorem utf8_injective : Function.Injective utf8 := by
  intro first second h
  have hdecoded := congrArg ofUtf8? h
  simpa only [ofUtf8?_utf8, Option.some_inj] using hdecoded

/-- The letters and digits of ASCII and `_`, `.`, `-`, `~`. -/
def unreserved (b : UInt8) : Bool :=
  (0x41 ≤ b && b ≤ 0x5a) || (0x61 ≤ b && b ≤ 0x7a) || (0x30 ≤ b && b ≤ 0x39) ||
    b == 0x5f || b == 0x2e || b == 0x2d || b == 0x7e

/-- The hexadecimal digit of a number below 16, in capitals. -/
def hexDigit (n : UInt8) : UInt8 := if n < 10 then 0x30 + n else 0x37 + n

/-- The value of a hexadecimal digit. -/
def hexValue (b : UInt8) : Option UInt8 :=
  if 0x30 ≤ b ∧ b ≤ 0x39 then some (b - 0x30)
  else if 0x41 ≤ b ∧ b ≤ 0x46 then some (b - 0x37)
  else if 0x61 ≤ b ∧ b ≤ 0x66 then some (b - 0x57)
  else none

private theorem hexValue_hexDigit {n : UInt8} (h : n < 16) : hexValue (hexDigit n) = some n := by
  unfold hexDigit hexValue
  split
  · rw [if_pos (by grind), Option.some_inj]
    grind
  · rw [if_neg (by grind), if_pos (by grind), Option.some_inj]
    grind

private theorem unreserved_hexDigit {n : UInt8} (h : n < 16) : unreserved (hexDigit n) = true := by
  unfold hexDigit
  split
  · have hdigit : 0x30 ≤ 0x30 + n ∧ 0x30 + n ≤ 0x39 := by grind
    simp [unreserved, hdigit]
  · have hletter : 0x41 ≤ 0x37 + n ∧ 0x37 + n ≤ 0x5a := by grind
    simp [unreserved, hletter]

/-- A byte, escaped unless it is unreserved. -/
def quoteByte (b : UInt8) : List UInt8 :=
  if unreserved b then [b] else [0x25, hexDigit (b / 16), hexDigit (b % 16)]

/-- The percent encoding of bytes. -/
def quote (bytes : List UInt8) : List UInt8 := bytes.flatMap quoteByte

/-- Reads the escapes back; a percent sign without two digits stays. -/
def unquote : List UInt8 → List UInt8
  | [] => []
  | b :: rest =>
    if b = 0x25 then
      match rest with
      | hi :: lo :: rest' =>
        match hexValue hi, hexValue lo with
        | some h, some l => (16 * h + l) :: unquote rest'
        | _, _ => b :: unquote (hi :: lo :: rest')
      | rest => b :: rest
    else b :: unquote rest

/-- There is nothing to unquote in no bytes. -/
@[simp] theorem unquote_nil : unquote [] = [] := by rw [unquote]

/-- Unquoting keeps every byte but a percent sign. -/
theorem unquote_cons_of_ne {b : UInt8} (hb : b ≠ 0x25) (rest : List UInt8) :
    unquote (b :: rest) = b :: unquote rest := by
  rw [unquote.eq_def]
  exact if_neg hb

private theorem unquote_quoteByte_append (b : UInt8) (rest : List UInt8) :
    unquote (quoteByte b ++ rest) = b :: unquote rest := by
  unfold quoteByte
  split
  · next h =>
    have hb : b ≠ 0x25 := by
      rintro rfl
      revert h
      decide
    exact unquote_cons_of_ne hb rest
  · have hhigh : hexValue (hexDigit (b / 16)) = some (b / 16) := hexValue_hexDigit (by grind)
    have hlow : hexValue (hexDigit (b % 16)) = some (b % 16) := hexValue_hexDigit (by grind)
    have hb : 16 * (b / 16) + b % 16 = b := by grind
    simp only [List.cons_append, List.nil_append, unquote, if_pos, hhigh, hlow, hb]

/-- What was encoded is read back. -/
@[simp] theorem unquote_quote_append (bytes rest : List UInt8) :
    unquote (quote bytes ++ rest) = bytes ++ unquote rest := by
  induction bytes with
  | nil => rfl
  | cons b bytes ih =>
    rw [quote, List.flatMap_cons, List.append_assoc, unquote_quoteByte_append, ← quote, ih,
      List.cons_append]

/-- Unquoting reads back quoted bytes. -/
@[simp] theorem unquote_quote (bytes : List UInt8) : unquote (quote bytes) = bytes := by
  have h := unquote_quote_append bytes []
  rwa [List.append_nil, unquote_nil, List.append_nil] at h

/-- Different bytes are quoted differently. -/
theorem quote_injective : Function.Injective quote :=
  Function.LeftInverse.injective unquote_quote

/-- An encoded text contains no reserved byte but `%`. -/
theorem not_mem_quote {b : UInt8} (hb : unreserved b = false) (hpercent : b ≠ 0x25)
    (bytes : List UInt8) : b ∉ quote bytes := by
  intro hmem
  obtain ⟨c, -, hc⟩ := List.mem_flatMap.mp hmem
  unfold quoteByte at hc
  split at hc
  · next hunreserved =>
    rw [List.mem_singleton.mp hc, hunreserved] at hb
    cases hb
  · rcases List.mem_cons.mp hc with rfl | hdigit
    · exact hpercent rfl
    · rcases List.mem_pair.mp hdigit with rfl | rfl
      · rw [unreserved_hexDigit (by grind)] at hb
        cases hb
      · rw [unreserved_hexDigit (by grind)] at hb
        cases hb

/-- Text without `%` is read as it is. -/
theorem unquote_append_of_plain {plain : List UInt8} (h : 0x25 ∉ plain) (rest : List UInt8) :
    unquote (plain ++ rest) = plain ++ unquote rest := by
  induction plain with
  | nil => rfl
  | cons b plain ih =>
    obtain ⟨hb, hplain⟩ := not_or.mp (mt List.mem_cons.mpr h)
    rw [List.cons_append, unquote_cons_of_ne (Ne.symm hb), ih hplain, List.cons_append]

end Text
