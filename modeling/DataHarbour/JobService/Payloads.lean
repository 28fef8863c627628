import DataHarbour.JobService.Operations
import DataHarbour.Python.Dicts

/-!
# Job requests as stored payloads

A schedule keeps a job request as JSON: `model_dump` writes it into a JSONB column, and a trigger
reads it back with `model_validate`. The column and the integer parsing of the validation are not
code of this repository; what is relied on is stated with them.
-/

namespace DataHarbour.JobService

open Python

/-- A `JobCreateRequest` that has passed the checks of its fields. -/
structure CheckedRequest where
  request : JobCreateRequest
  name_length : 1 ≤ request.jobName.length ∧ request.jobName.length ≤ 255
  maxRetries_le : request.maxRetries ≤ 10

/-- `model_dump(mode="json")`. -/
def JobCreateRequest.dump (request : JobCreateRequest) : Dict :=
  [("job_name", .str request.jobName),
    ("job_type", .str request.jobType.value),
    ("entrypoint", .str request.entrypoint),
    ("arguments", .arr (request.arguments.map .str)),
    ("spark_config", .obj request.sparkConfig),
    ("database_name", jsonOfOption request.databaseName),
    ("table_name", jsonOfOption request.tableName),
    ("submitted_by", .str request.submittedBy),
    ("max_retries", .int request.maxRetries)]

/-! ## Validation -/

/-- `JobType(text)`. -/
def JobType.ofValue (text : String) : Option JobType :=
  [JobType.sparkSql, .sparkEtl, .sparkMl, .sparkStreaming].find? (·.value = text)

/-- A job type is read back from its value. -/
@[simp] theorem JobType.ofValue_value (jobType : JobType) :
    JobType.ofValue jobType.value = some jobType := by
  cases jobType <;> decide

/-- A field of type `str`. -/
def readStr : Option Json → Option String
  | some (.str s) => some s
  | _ => none

/-- A field of type `Optional[str]` with the default `None`. -/
def readOptionalStr : Option Json → Option (Option String)
  | none | some .null => some none
  | some (.str s) => some (some s)
  | _ => none

/-- A field of type `list[str]` with an empty default. -/
def readWords : Option Json → Option (List String)
  | none => some []
  | some (.arr items) => items.mapM fun item => readStr (some item)
  | _ => none

/-- A field of type `dict` with an empty default. -/
def readDict : Option Json → Option Dict
  | none => some []
  | some (.obj entries) => some entries
  | _ => none

/-- `JobCreateRequest.model_validate`, or `none` if it raises. Keys that the model does not have
are ignored. `readInt` is the conversion to `int`, which takes more than integers. -/
def validateRequest (readInt : Json → Option ℤ) (template : Dict) : Option CheckedRequest := do
  let jobName ← readStr (template.get? "job_name")
  let jobType ← (readStr (template.get? "job_type")).bind JobType.ofValue
  let entrypoint ← readStr (template.get? "entrypoint")
  let arguments ← readWords (template.get? "arguments")
  let sparkConfig ← readDict (template.get? "spark_config")
  let databaseName ← readOptionalStr (template.get? "database_name")
  let tableName ← readOptionalStr (template.get? "table_name")
  let submittedBy ← readStr (template.get? "submitted_by")
  let maxRetries ← ((template.get? "max_retries").map readInt).getD (some 3)
  if h : (1 ≤ jobName.length ∧ jobName.length ≤ 255) ∧ 0 ≤ maxRetries ∧ maxRetries ≤ 10 then
    some {
      request := {
        jobName := jobName
        jobType := jobType
        entrypoint := entrypoint
        arguments := arguments
        sparkConfig := sparkConfig
        databaseName := databaseName
        tableName := tableName
        submittedBy := submittedBy
        maxRetries := maxRetries.toNat }
      name_length := h.1
      maxRetries_le := by
        show maxRetries.toNat ≤ 10
        omega }
  else none

/-! ## The column -/

/-- A JSONB column: what is read back after a value was written, or `none` if the database does
not take the value. Strings, integers and nulls come back as they are, lists item by item; the
entries of an object may come back in another order. -/
structure JsonColumn where
  store : Json → Option Json
  str : ∀ s j, store (.str s) = some j → j = .str s
  int : ∀ n j, store (.int n) = some j → j = .int n
  null : ∀ j, store .null = some j → j = .null
  arr : ∀ xs j, store (.arr xs) = some j →
    ∃ ys, j = .arr ys ∧ List.Forall₂ (fun x y => store x = some y) xs ys
  obj : ∀ (d : Dict) j, store (.obj d) = some j → ∃ d' : Dict, j = .obj d' ∧
    (d.keys.Nodup → ∀ k, d.get? k = none ∧ d'.get? k = none ∨
      ∃ v v', d.get? k = some v ∧ store v = some v' ∧ d'.get? k = some v')

/-- A column that gives back every value as it was written. -/
def JsonColumn.exact : JsonColumn where
  store := some
  str _ _ h := (Option.some.inj h).symm
  int _ _ h := (Option.some.inj h).symm
  null _ h := (Option.some.inj h).symm
  arr xs _ h := ⟨xs, (Option.some.inj h).symm, List.forall₂_same.mpr fun _ _ => rfl⟩
  obj d _ h := by
    refine ⟨d, (Option.some.inj h).symm, fun _ k => ?_⟩
    cases hk : d.get? k with
    | none => exact .inl ⟨rfl, rfl⟩
    | some v => exact .inr ⟨v, v, rfl, rfl, rfl⟩

/-- The stored form of a template. -/
def JsonColumn.storeDict (column : JsonColumn) (d : Dict) : Option Dict :=
  match column.store (.obj d) with
  | some (.obj d') => some d'
  | _ => none

/-! ## What a stored template holds -/

/-- The fields of `JobCreateRequest`. -/
def requestKeys : List String :=
  ["job_name", "job_type", "entrypoint", "arguments", "spark_config", "database_name",
    "table_name", "submitted_by", "max_retries"]

private theorem keys_dump (request : JobCreateRequest) : request.dump.keys = requestKeys := rfl

/-- The template holds the fields of the request, and nothing else. -/
structure TemplateOf (template : Dict) (request : JobCreateRequest) : Prop where
  jobName : template.get? "job_name" = some (.str request.jobName)
  jobType : template.get? "job_type" = some (.str request.jobType.value)
  entrypoint : template.get? "entrypoint" = some (.str request.entrypoint)
  arguments : template.get? "arguments" = some (.arr (request.arguments.map .str))
  sparkConfig : template.get? "spark_config" = some (.obj request.sparkConfig)
  databaseName : template.get? "database_name" = some (jsonOfOption request.databaseName)
  tableName : template.get? "table_name" = some (jsonOfOption request.tableName)
  submittedBy : template.get? "submitted_by" = some (.str request.submittedBy)
  maxRetries : template.get? "max_retries" = some (.int request.maxRetries)
  others : ∀ k ∉ requestKeys, template.get? k = none

namespace JsonColumn

variable {column : JsonColumn}

private theorem store_words {words : List String} {j : Json}
    (h : column.store (.arr (words.map .str)) = some j) : j = .arr (words.map .str) := by
  obtain ⟨ys, rfl, hitems⟩ := column.arr _ _ h
  congr 1
  clear h
  induction words generalizing ys with
  | nil => exact List.forall₂_nil_left_iff.mp hitems
  | cons word words ih =>
    obtain ⟨y, rest, hy, hrest, rfl⟩ := List.forall₂_cons_left_iff.mp hitems
    rw [List.map_cons, column.str _ _ hy, ih rest hrest]

private theorem store_jsonOfOption {text : Option String} {j : Json}
    (h : column.store (jsonOfOption text) = some j) : j = jsonOfOption text := by
  cases text with
  | none => exact column.null _ h
  | some text => exact column.str _ _ h

/-- A stored request has its fields again; only the order of its configuration may differ. -/
theorem templateOf_storeDict {request : JobCreateRequest} {template : Dict}
    (h : column.storeDict request.dump = some template) :
    ∃ config, column.store (.obj request.sparkConfig) = some (.obj config) ∧
      TemplateOf template { request with sparkConfig := config } := by
  unfold storeDict at h
  split at h
  · next d hd =>
    obtain rfl := Option.some.inj h
    obtain ⟨d', hd', hget⟩ := column.obj _ _ hd
    obtain rfl := Json.obj.inj hd'
    have hnodup : request.dump.keys.Nodup := keys_dump request ▸ (by decide : requestKeys.Nodup)
    -- what is found under a key is the stored form of what was written there
    have hfound : ∀ k v, request.dump.get? k = some v →
        ∃ v', column.store v = some v' ∧ Dict.get? d k = some v' := by
      intro k v hv
      rcases hget hnodup k with ⟨hnone, -⟩ | ⟨w, v', hw, hstore, hv'⟩
      · rw [hnone] at hv
        cases hv
      · rw [hv, Option.some.injEq] at hw
        exact ⟨v', hw ▸ hstore, hv'⟩
    have hstr : ∀ k text, request.dump.get? k = some (.str text) →
        Dict.get? d k = some (.str text) := by
      intro k text hk
      obtain ⟨v', hstore, hv'⟩ := hfound k _ hk
      rw [hv', column.str _ _ hstore]
    have hoptional : ∀ k text, request.dump.get? k = some (jsonOfOption text) →
        Dict.get? d k = some (jsonOfOption text) := by
      intro k text hk
      obtain ⟨v', hstore, hv'⟩ := hfound k _ hk
      rw [hv', store_jsonOfOption hstore]
    obtain ⟨config', hconfig, hconfigGet⟩ := hfound "spark_config" (.obj request.sparkConfig) rfl
    obtain ⟨config, rfl, -⟩ := column.obj _ _ hconfig
    refine ⟨config, hconfig, ?_⟩
    refine ⟨hstr _ _ rfl, hstr _ _ rfl, hstr _ _ rfl, ?_, hconfigGet, hoptional _ _ rfl,
      hoptional _ _ rfl, hstr _ _ rfl, ?_, ?_⟩
    · obtain ⟨v', hstore, hv'⟩ := hfound "arguments" _ rfl
      rw [hv', store_words hstore]
    · obtain ⟨v', hstore, hv'⟩ := hfound "max_retries" _ rfl
      rw [hv', column.int _ _ hstore]
    · intro k hk
      rcases hget hnodup k with ⟨-, hnone⟩ | ⟨w, -, hw, -⟩
      · exact hnone
      · rw [Dict.get?_eq_none_of_not_mem (keys_dump request ▸ hk)] at hw
        cases hw
  · cases h

end JsonColumn

/-- A string is read back. -/
@[simp] theorem readStr_str (text : String) : readStr (some (.str text)) = some text := rfl

/-- An object is read back. -/
@[simp] theorem readDict_obj (d : Dict) : readDict (some (.obj d)) = some d := rfl

/-- A list of words is read back. -/
@[simp] theorem readWords_map_str (words : List String) :
    readWords (some (.arr (words.map .str))) = some words := by
  show (words.map Json.str).mapM (fun item => readStr (some item)) = some words
  induction words with
  | nil => rfl
  | cons word words ih =>
    rw [List.map_cons, List.mapM_cons, ih]
    rfl

/-- An optional string is read back, null included. -/
@[simp] theorem readOptionalStr_jsonOfOption (text : Option String) :
    readOptionalStr (some (jsonOfOption text)) = some text := by
  cases text <;> rfl

/-- A template that holds a checked request validates, and gives the request back. -/
theorem validateRequest_of_templateOf {readInt : Json → Option ℤ}
    (hint : ∀ n, readInt (.int n) = some n) {checked : CheckedRequest} {template : Dict}
    (h : TemplateOf template checked.request) :
    validateRequest readInt template = some checked := by
  obtain ⟨request, hname, hretries⟩ := checked
  obtain ⟨hjobName, hjobType, hentrypoint, harguments, hsparkConfig, hdatabaseName, htableName,
    hsubmittedBy, hmaxRetries, -⟩ := h
  have hrange : (1 ≤ request.jobName.length ∧ request.jobName.length ≤ 255) ∧
      0 ≤ (request.maxRetries : ℤ) ∧ (request.maxRetries : ℤ) ≤ 10 := by
    exact ⟨hname, by omega, by omega⟩
  simp only [validateRequest, hjobName, hjobType, hentrypoint, harguments, hsparkConfig,
    hdatabaseName, htableName, hsubmittedBy, hmaxRetries, readStr_str, readWords_map_str,
    readDict_obj, readOptionalStr_jsonOfOption, Option.map_some, Option.getD_some, hint, bind,
    Option.bind_some, JobType.ofValue_value]
  rw [dif_pos hrange]
  simp

end DataHarbour.JobService
