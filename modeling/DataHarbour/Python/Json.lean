import Mathlib.Data.Rat.Defs
import Mathlib.Data.String.Basic

/-!
# JSON values as Python programs see them

The values that `json.loads` returns and a JSONB column holds, with the operations that
Python code applies to them: `dict.get`, item assignment, `==`, and `int(...)`. An
operation that raises in Python returns the exception as `Except.error`.
-/

namespace Python

/-- A JSON value. An object keeps its entries in order, as a `dict` does; a number with
a fraction or exponent is the rational number that the float denotes, or an infinity if it is
too large for a float. -/
inductive Json where
  | null
  | bool (value : Bool)
  | int (value : ℤ)
  | float (value : ℚ)
  | infinity (negative : Bool)
  | str (text : String)
  | arr (elems : List Json)
  | obj (entries : List (String × Json))

/-- The entries of a `dict` with string keys, in insertion order. -/
abbrev Dict := List (String × Json)

/-- The exceptions that the modelled code raises or catches, with their `str(...)`. The texts that
quote a value, those of `int(...)` for a string and of a refused AWS parameter, end before it. -/
inductive Exc where
  | attributeError (text : String)
  | keyError (text : String)
  | typeError (text : String)
  | valueError (text : String)
  | overflowError (text : String)
  | runtimeError (text : String)
  | clientError (text : String)
  deriving DecidableEq, Repr

/-- The text that formatting the exception into a message shows; a `KeyError` shows the key
in quotes. -/
def Exc.str : Exc → String
  | keyError key => "'" ++ key ++ "'"
  | attributeError text | typeError text | valueError text | overflowError text
  | runtimeError text | clientError text => text

/-- `d.get(k)`, with `none` for a missing key. -/
def Dict.get? (d : Dict) (k : String) : Option Json := d.lookup k

/-- The empty dict answers nothing. -/
@[simp] theorem Dict.get?_nil (k : String) : Dict.get? [] k = none := rfl

/-- A dict answers with the first entry under the key. -/
@[simp] theorem Dict.get?_cons (k' : String) (v : Json) (rest : Dict) (k : String) :
    Dict.get? ((k', v) :: rest) k = if k' = k then some v else rest.get? k := by
  by_cases h : k' = k
  · simp [Dict.get?, h]
  · simp [Dict.get?, List.lookup_cons, h, beq_false_of_ne (Ne.symm h)]

/-- `d[k] = v`: an existing key keeps its position, a new one goes to the end. -/
def Dict.set (d : Dict) (k : String) (v : Json) : Dict :=
  match d with
  | [] => [(k, v)]
  | (k', v') :: rest => if k' = k then (k, v) :: rest else (k', v') :: Dict.set rest k v

/-- A key answers the value just assigned to it. -/
@[simp] theorem Dict.get?_set_self (d : Dict) (k : String) (v : Json) :
    (d.set k v).get? k = some v := by
  induction d with
  | nil => simp [Dict.set]
  | cons e rest ih =>
    obtain ⟨k', v'⟩ := e
    by_cases h : k' = k <;> simp [Dict.set, h, ih]

/-- Assigning the value that a key already has changes nothing. -/
theorem Dict.set_get? {d : Dict} {k : String} {v : Json} (h : d.get? k = some v) :
    d.set k v = d := by
  induction d with
  | nil => simp at h
  | cons e rest ih =>
    obtain ⟨k', v'⟩ := e
    by_cases hk : k' = k
    · subst hk
      have hv : v' = v := by simpa using h
      simp [Dict.set, hv]
    · have hrest : Dict.get? rest k = some v := by simpa [hk] using h
      simp [Dict.set, hk, ih hrest]

/-- `set` at one key does not change the value of another. -/
theorem Dict.get?_set_of_ne {d : Dict} {k l : String} {v : Json} (h : l ≠ k) :
    (d.set k v).get? l = d.get? l := by
  induction d with
  | nil => simp [Dict.set, Ne.symm h]
  | cons e rest ih =>
    obtain ⟨k', v'⟩ := e
    by_cases hk : k' = k
    · simp [Dict.set, hk, Ne.symm h]
    · simp [Dict.set, hk, ih]

/-- Assignment adds an entry exactly when the key is missing. -/
theorem Dict.length_set (d : Dict) (k : String) (v : Json) :
    (d.set k v).length = if (d.get? k).isSome then d.length else d.length + 1 := by
  induction d with
  | nil => simp [Dict.set]
  | cons e rest ih =>
    obtain ⟨k', v'⟩ := e
    by_cases hk : k' = k
    · simp [Dict.set, hk]
    · cases h : (Dict.get? rest k).isSome <;> simp [Dict.set, hk, ih, h]

/-- The last assignment to a key is the one that counts. -/
@[simp] theorem Dict.set_set (d : Dict) (k : String) (v w : Json) :
    (d.set k v).set k w = d.set k w := by
  induction d with
  | nil => simp [Dict.set]
  | cons e rest ih =>
    obtain ⟨k', v'⟩ := e
    by_cases hk : k' = k <;> simp [Dict.set, hk, ih]

/-- `{**d, **other}`: the entries of `other` override those of `d`. -/
def Dict.merge (d other : Dict) : Dict := other.foldl (fun acc e => acc.set e.1 e.2) d

namespace Json

/-- The number that a value stands for in comparisons; `True` and `False` are 1 and 0. -/
def number? : Json → Option ℚ
  | .bool b => some (if b then 1 else 0)
  | .int n => some n
  | .float q => some q
  | _ => none

mutual

/-- Python's `==`: numbers compare by value across types, objects as unordered maps. -/
def pyEq : Json → Json → Bool
  | .null, .null => true
  | .str s, .str t => s == t
  | .arr xs, .arr ys => pyEqList xs ys
  | .obj es, .obj fs => es.length == fs.length && pyEqEntries [] es fs
  | .bool b, j => j.number? == some (if b then 1 else 0)
  | .int n, j => j.number? == some (n : ℚ)
  | .float q, j => j.number? == some q
  | .infinity n, .infinity m => n == m
  | _, _ => false

/-- Elementwise `==` of two lists of the same length. -/
def pyEqList : List Json → List Json → Bool
  | [], [] => true
  | x :: xs, y :: ys => pyEq x y && pyEqList xs ys
  | _, _ => false

/-- Each key of the first `dict` has an equal value in the second. The keys of a `dict` are
distinct; a list that repeats one stands for its first entries, so the keys in `seen` are
skipped. -/
def pyEqEntries (seen : List String) : List (String × Json) → List (String × Json) → Bool
  | [], _ => true
  | (k, v) :: es, fs =>
    (k ∈ seen || match fs.lookup k with
      | some w => pyEq v w
      | none => false) && pyEqEntries (k :: seen) es fs

end

/-- What the comparison of two `dict`s checks, key by key. -/
theorem pyEqEntries_iff {seen : List String} {es fs : Dict} :
    pyEqEntries seen es fs = true ↔ ∀ k ∉ seen, ∀ v, es.get? k = some v →
      ∃ w, fs.get? k = some w ∧ pyEq v w = true := by
  induction es generalizing seen with
  | nil => simp [pyEqEntries]
  | cons e es ih =>
    obtain ⟨k, v⟩ := e
    rw [pyEqEntries, Bool.and_eq_true, ih]
    have hhead : (decide (k ∈ seen) || match List.lookup k fs with
        | some w => pyEq v w
        | none => false) = true ↔
        (k ∉ seen → ∃ w, fs.get? k = some w ∧ pyEq v w = true) := by
      by_cases hk : k ∈ seen
      · simp [hk]
      · cases hw : List.lookup k fs <;> simp [Dict.get?, hk, hw]
    rw [hhead]
    constructor
    · rintro ⟨hfirst, hrest⟩ l hl u hu
      by_cases hlk : l = k
      · have huv : v = u := by simpa [hlk] using hu
        exact huv ▸ hlk ▸ hfirst (hlk ▸ hl)
      · exact hrest l (by simp [hlk, hl]) u (by simpa [Ne.symm hlk] using hu)
    · intro h
      refine ⟨fun hk => h k hk v (by simp), fun l hl u hu => ?_⟩
      simp only [List.mem_cons, not_or] at hl
      exact h l hl.2 u (by simpa [Ne.symm hl.1] using hu)

mutual

/-- A JSON value equals itself: JSON has no NaN. -/
theorem pyEq_refl : ∀ j : Json, pyEq j j = true
  | .null => by simp [pyEq]
  | .bool b => by simp [pyEq, number?]
  | .int n => by simp [pyEq, number?]
  | .float q => by simp [pyEq, number?]
  | .infinity n => by simp [pyEq]
  | .str s => by simp [pyEq]
  | .arr xs => by simpa [pyEq] using pyEqList_refl xs
  | .obj es => by
    have hentries : pyEqEntries [] es es = true :=
      pyEqEntries_iff.mpr fun k _ v hv => ⟨v, hv, pyEq_refl_of_get? es k v hv⟩
    simpa [pyEq] using hentries

/-- A list equals itself, entry by entry. -/
theorem pyEqList_refl : ∀ xs : List Json, pyEqList xs xs = true
  | [] => by simp [pyEqList]
  | x :: xs => by simp [pyEqList, pyEq_refl x, pyEqList_refl xs]

/-- The case of `pyEq_refl` for the values of a `dict`. -/
theorem pyEq_refl_of_get? : ∀ (es : List (String × Json)) (k : String) (v : Json),
    Dict.get? es k = some v → pyEq v v = true
  | [], _, _, h => by simp at h
  | (k', v') :: es, k, v, h => by
    by_cases hk : k' = k
    · have hv : v' = v := by simpa [hk] using h
      exact hv ▸ pyEq_refl v'
    · exact pyEq_refl_of_get? es k v (by simpa [hk] using h)

end

/-- Lists of different lengths are different. -/
theorem pyEqList_of_length_ne : ∀ {xs ys : List Json}, xs.length ≠ ys.length →
    pyEqList xs ys = false
  | [], [], h => absurd rfl h
  | [], _ :: _, _ => by simp [pyEqList]
  | _ :: _, [], _ => by simp [pyEqList]
  | x :: xs, y :: ys, h => by
    have hrest : xs.length ≠ ys.length := fun heq => h (by simp [heq])
    simp [pyEqList, pyEqList_of_length_ne hrest]

/-- Two `dict`s that differ in the value of one key are as equal as these values. -/
theorem pyEq_set_set (d : Dict) (k : String) (v w : Json) :
    pyEq (.obj (d.set k v)) (.obj (d.set k w)) = pyEq v w := by
  have hlen : (d.set k v).length = (d.set k w).length := by
    simp only [Dict.length_set]
  rw [Bool.eq_iff_iff]
  simp only [pyEq, hlen, BEq.rfl, Bool.true_and]
  rw [pyEqEntries_iff]
  constructor
  · intro h
    obtain ⟨u, hu, heq⟩ := h k (by simp) v (Dict.get?_set_self d k v)
    rw [Dict.get?_set_self, Option.some.injEq] at hu
    exact hu ▸ heq
  · intro h l _ u hu
    by_cases hl : l = k
    · subst hl
      rw [Dict.get?_set_self, Option.some.injEq] at hu
      exact ⟨w, Dict.get?_set_self d l w, hu ▸ h⟩
    · rw [Dict.get?_set_of_ne hl] at hu
      exact ⟨u, by rw [Dict.get?_set_of_ne hl, hu], pyEq_refl u⟩

/-- A `dict` that gained a key is different. -/
theorem pyEq_set_of_missing {d : Dict} {k : String} (h : d.get? k = none) (v : Json) :
    pyEq (.obj (d.set k v)) (.obj d) = false := by
  have hlen : (d.set k v).length = d.length + 1 := by
    rw [Dict.length_set, if_neg (by simp [h])]
  simp [pyEq, hlen]

/-- `type(x).__name__`. -/
def typeName : Json → String
  | .null => "NoneType"
  | .bool _ => "bool"
  | .int _ => "int"
  | .float _ | .infinity _ => "float"
  | .str _ => "str"
  | .arr _ => "list"
  | .obj _ => "dict"

/-- `x.name` for an attribute that `x` does not have. -/
def noAttribute (j : Json) (name : String) : Exc :=
  .attributeError ("'" ++ j.typeName ++ "' object has no attribute '" ++ name ++ "'")

/-- An operation that the type of `x` does not have. -/
def unsupported (j : Json) (what : String) : Exc :=
  .typeError ("'" ++ j.typeName ++ "' object " ++ what)

/-- `x.get(k, default)`; only a `dict` has the method. -/
def get (j : Json) (k : String) (default : Json) : Except Exc Json :=
  match j with
  | .obj entries => .ok ((Dict.get? entries k).getD default)
  | _ => .error (j.noAttribute "get")

/-- `x[k]` with a string key; only a `dict` can be indexed by a string. -/
def getItem (j : Json) (k : String) : Except Exc Json :=
  match j with
  | .obj entries =>
    match Dict.get? entries k with
    | some v => .ok v
    | none => .error (.keyError k)
  | .arr _ => .error (.typeError "list indices must be integers or slices, not str")
  | .str _ => .error (.typeError "string indices must be integers, not 'str'")
  | _ => .error (j.unsupported "is not subscriptable")

/-- `x[k] = v` with a string key; only a `dict` accepts it. -/
def setItem (j : Json) (k : String) (v : Json) : Except Exc Json :=
  match j with
  | .obj entries => .ok (.obj (Dict.set entries k v))
  | .arr _ => .error (.typeError "list indices must be integers or slices, not str")
  | _ => .error (j.unsupported "does not support item assignment")

/-- The elements that `for ... in x` yields: a `dict` yields its keys, a string its
characters. -/
def iterate : Json → Except Exc (List Json)
  | .arr xs => .ok xs
  | .obj entries => .ok (entries.map fun e => .str e.1)
  | .str s => .ok (s.toList.map fun c => .str (String.singleton c))
  | j => .error (j.unsupported "is not iterable")

end Json

/-- The whitespace characters that `int(...)` strips from a string. -/
def isSpace (c : Char) : Bool :=
  c.val ∈ [0x09, 0x0A, 0x0B, 0x0C, 0x0D, 0x20, 0x85, 0xA0, 0x1680, 0x2000, 0x2001, 0x2002,
    0x2003, 0x2004, 0x2005, 0x2006, 0x2007, 0x2008, 0x2009, 0x200A, 0x2028, 0x2029, 0x202F,
    0x205F, 0x3000]

/-- The decimal zeros of Unicode; the other nine digits of a script follow its zero. -/
def decimalZeros : List ℕ :=
  [0x30, 0x660, 0x6F0, 0x7C0, 0x966, 0x9E6, 0xA66, 0xAE6, 0xB66, 0xBE6, 0xC66, 0xCE6, 0xD66,
    0xDE6, 0xE50, 0xED0, 0xF20, 0x1040, 0x1090, 0x17E0, 0x1810, 0x1946, 0x19D0, 0x1A80, 0x1A90,
    0x1B50, 0x1BB0, 0x1C40, 0x1C50, 0xA620, 0xA8D0, 0xA900, 0xA9D0, 0xA9F0, 0xAA50, 0xABF0,
    0xFF10, 0x104A0, 0x10D30, 0x11066, 0x110F0, 0x11136, 0x111D0, 0x112F0, 0x11450, 0x114D0,
    0x11650, 0x116C0, 0x11730, 0x118E0, 0x11950, 0x11C50, 0x11D50, 0x11DA0, 0x16A60, 0x16AC0,
    0x16B50, 0x1D7CE, 0x1D7D8, 0x1D7E2, 0x1D7EC, 0x1D7F6, 0x1E140, 0x1E2F0, 0x1E950, 0x1FBF0]

/-- The value of a decimal digit of any script. -/
def decimalDigit (c : Char) : Option ℕ :=
  (decimalZeros.find? fun d => d ≤ c.toNat ∧ c.toNat < d + 10).map (c.toNat - ·)

/-- Decimal digits with single underscores between them; `afterDigit` says whether an
underscore, or the end, may come next. -/
def parseDigits (acc : ℕ) (afterDigit : Bool) : List Char → Option ℕ
  | [] => if afterDigit then some acc else none
  | c :: cs =>
    if c = '_' then
      if afterDigit then parseDigits acc false cs else none
    else
      match decimalDigit c with
      | some digit => parseDigits (10 * acc + digit) true cs
      | none => none

/-- The number of digits that `int(...)` converts at most. -/
def maxStrDigits : ℕ := 4300

/-- `int(s)` for a string. -/
def intOfString (s : String) : Option ℤ :=
  let stripped := ((s.toList.dropWhile isSpace).reverse.dropWhile isSpace).reverse
  if maxStrDigits < stripped.countP (fun c => (decimalDigit c).isSome) then none
  else match stripped with
  | '-' :: cs => (parseDigits 0 false cs).map fun n => -(n : ℤ)
  | '+' :: cs => (parseDigits 0 false cs).map fun n => (n : ℤ)
  | cs => (parseDigits 0 false cs).map fun n => (n : ℤ)

/-- `int(x)` for a JSON value; a float is truncated toward zero. -/
def Json.toInt : Json → Except Exc ℤ
  | .bool b => .ok (if b then 1 else 0)
  | .int n => .ok n
  | .float q => .ok (q.num.tdiv q.den)
  | .infinity _ => .error (.overflowError "cannot convert float infinity to integer")
  | .str s =>
    match intOfString s with
    | some n => .ok n
    | none => .error (.valueError "invalid literal for int() with base 10")
  | j => .error (.typeError ("int() argument must be a string, a bytes-like object or a real " ++
      "number, not '" ++ j.typeName ++ "'"))

end Python
