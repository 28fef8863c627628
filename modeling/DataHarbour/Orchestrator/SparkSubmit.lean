import DataHarbour.JobService.Operations
import DataHarbour.Orchestrator.EcsManager
import DataHarbour.Shell.WordSplitting

/-!
# From a job's arguments to the words of `spark-submit`

`create_spark_job` joins the arguments and the Spark options of a job with blanks and hands them
to the container in environment variables; `entrypoint.sh` expands these variables without
quotes. A word survives this trip only if the shell leaves it alone.
-/

namespace DataHarbour.Orchestrator

open Python JobService Shell

/-! ## The environment of the container -/

/-- The environment variables of a process. An unset variable counts as empty: every use in
`entrypoint.sh` treats the two alike. -/
abbrev Environment := String → String

/-- `f"{v}"`; `other` formats floats, lists and dicts. -/
def formatValue (other : Json → String) : Json → String
  | .null => "None"
  | .bool true => "True"
  | .bool false => "False"
  | .int n => toString n
  | .str text => text
  | v => other v

/-- `f"{k}={v}"` for an item of `spark_config`. -/
def configOption (other : Json → String) (item : String × Json) : String :=
  item.1 ++ "=" ++ formatValue other item.2

/-- `spark_conf_str`. -/
def sparkConfStr (other : Json → String) (sparkConfig : Dict) : String :=
  " ".intercalate (sparkConfig.map fun item => "--conf" ++ " " ++ configOption other item)

/-- `env_overrides`. `KAFKA_BROKERS`, `CALLBACK_URL` and `INTERNAL_API_TOKEN` do not reach the
command line and are left out. -/
def envOverrides (other : Json → String) (request : RunTaskRequest) : List (String × String) := [
  ("JOB_ID", request.jobId),
  ("JOB_RETRY_COUNT", toString request.retryCount),
  ("ENTRYPOINT_SCRIPT", request.entrypointScript),
  ("ARGUMENTS", request.arguments),
  ("SPARK_EXTRA_CONF", sparkConfStr other request.sparkConfig)]

/-- The environment of the container: that of the task definition with the overrides. -/
def containerEnvironment (other : Json → String) (definition : Environment)
    (request : RunTaskRequest) : Environment :=
  (envOverrides other request).foldl (fun env entry => Function.update env entry.1 entry.2)
    definition

/-! ## `entrypoint.sh` -/

/-- `${name:-default}`. -/
def Environment.getD (env : Environment) (name default : String) : String :=
  if env name = "" then default else env name

/-- `ENTRYPOINT_SCRIPT_RESOLVED`. -/
def entrypointScriptResolved (script : String) : String :=
  if "s3://".toList.isPrefixOf script.toList then
    "s3a://" ++ String.ofList (script.toList.drop "s3://".toList.length)
  else script

/-- The options that the script puts behind `--conf` for the platform, in order. -/
def platformOptions (env : Environment) : List String :=
  let warehouseBucket := env.getD "S3_WAREHOUSE_BUCKET" "lakehouse-warehouse"
  [ "spark.app.id=" ++ env "JOB_ID",
    "spark.driver.extraJavaOptions=-Djob.id=" ++ env "JOB_ID",
    "spark.hadoop.fs.s3a.impl=org.apache.hadoop.fs.s3a.S3AFileSystem",
    "spark.sql.extensions=org.apache.iceberg.spark.extensions.IcebergSparkSessionExtensions",
    "spark.sql.catalog.lakehouse=org.apache.iceberg.spark.SparkCatalog",
    "spark.sql.catalog.lakehouse.type=hadoop",
    "spark.sql.catalog.lakehouse.warehouse=s3a://" ++ warehouseBucket ++ "/"] ++
  (if env "GLUE_CATALOG_DATABASE" = "" then [] else [
    "spark.sql.catalog.glue=org.apache.iceberg.spark.SparkCatalog",
    "spark.sql.catalog.glue.catalog-impl=org.apache.iceberg.aws.glue.GlueCatalog",
    "spark.sql.catalog.glue.io-impl=org.apache.iceberg.aws.s3.S3FileIO",
    "spark.sql.catalog.glue.warehouse=s3://" ++ warehouseBucket ++ "/iceberg/",
    "spark.sql.catalog.glue.glue.skip-archive=true"]) ++
  (if env "S3_LOGS_BUCKET" = "" then [] else [
    "spark.eventLog.enabled=true",
    "spark.eventLog.dir=s3a://" ++ env "S3_LOGS_BUCKET" ++ "/spark-events/",
    "spark.eventLog.compress=true",
    "spark.history.fs.logDirectory=s3a://" ++ env "S3_LOGS_BUCKET" ++ "/spark-events/"]) ++
  (if env "LINEAGE_URL" = "" then [] else [
    "spark.extraListeners=io.openlineage.spark.agent.OpenLineageSparkListener",
    "spark.openlineage.transport.type=http",
    "spark.openlineage.transport.url=" ++ env "LINEAGE_URL",
    "spark.openlineage.transport.endpoint=/api/v1/lineage",
    "spark.openlineage.namespace=dhp",
    "spark.openlineage.facets.custom_environment_variables=[JOB_ID]"] ++
    if env "LINEAGE_API_KEY" = "" then [] else [
      "spark.openlineage.transport.auth.type=api_key",
      "spark.openlineage.transport.auth.apiKey=" ++ env "LINEAGE_API_KEY"]) ++
  if env "S3_ENDPOINT" = "" then [
    "spark.hadoop.fs.s3a.aws.credentials.provider=" ++
      "com.amazonaws.auth.DefaultAWSCredentialsProviderChain",
    "spark.hadoop.fs.s3a.path.style.access=false"] ++
    if env "AWS_REGION" = "" then [] else [
      "spark.hadoop.fs.s3a.endpoint.region=" ++ env "AWS_REGION"]
  else [
    "spark.hadoop.fs.s3a.endpoint=" ++ env "S3_ENDPOINT",
    "spark.hadoop.fs.s3a.access.key=" ++ env.getD "AWS_ACCESS_KEY_ID" "dev-access-key-change-me",
    "spark.hadoop.fs.s3a.secret.key=" ++
      env.getD "AWS_SECRET_ACCESS_KEY" "dev-secret-key-change-me",
    "spark.hadoop.fs.s3a.path.style.access=true"]

/-- `SPARK_CONF` before the job's own options are added. -/
def platformConf (env : Environment) : String :=
  (platformOptions env).foldl (fun conf option => conf ++ " --conf " ++ option) ""

/-- `SPARK_CONF`. -/
def sparkConf (env : Environment) : String :=
  if env "SPARK_EXTRA_CONF" = "" then platformConf env
  else platformConf env ++ " " ++ env "SPARK_EXTRA_CONF"

/-- The words that the script passes to `spark-submit` on behalf of the platform. -/
def platformWords (paths : String → List String) (env : Environment) : List String :=
  "--master" :: expandPaths paths "local[*]" ++ expand paths (platformConf env)

/-- The words that the script passes to `spark-submit`, unless it stops before the call because
`JOB_ID` or `ENTRYPOINT_SCRIPT` is missing. `paths` lists the paths in the working directory
that match a pattern. -/
def sparkSubmit (paths : String → List String) (env : Environment) : Option (List String) :=
  if env "JOB_ID" = "" ∨ env "ENTRYPOINT_SCRIPT" = "" then none
  else some ("--master" :: expandPaths paths "local[*]" ++ expand paths (sparkConf env) ++
    expand paths (entrypointScriptResolved (env "ENTRYPOINT_SCRIPT")) ++
    expand paths (env "ARGUMENTS"))

/-! ## The trip -/

/-- The words that a job asks for: its Spark options, the script and the arguments. -/
def jobWords (other : Json → String) (request : JobCreateRequest) : List String :=
  request.sparkConfig.flatMap (fun item => ["--conf", configOption other item]) ++
    entrypointScriptResolved request.entrypoint :: request.arguments

/-- In every attempt of the job, whatever files the container has, `spark-submit` gets the
platform's words and then exactly those of the job. -/
def ArgumentsSurvive (other : Json → String) (definition : Environment) (jobId : JobId)
    (request : JobCreateRequest) : Prop :=
  ∀ retry paths, ∃ task,
    runTaskRequest { originalEvent jobId request with retry := retry }.toJson = .ok task ∧
      sparkSubmit paths (containerEnvironment other definition task) =
        some (platformWords paths (containerEnvironment other definition task) ++
          jobWords other request)

/-- Nothing in the request is changed by an unquoted expansion. -/
structure PlainRequest (other : Json → String) (request : JobCreateRequest) : Prop where
  entrypoint : Plain request.entrypoint
  sparkConfig : ∀ item ∈ request.sparkConfig, Plain (configOption other item)
  arguments : ∀ argument ∈ request.arguments, Plain argument

/-- Resolving the script changes `s3://` in front into `s3a://`, so it stays plain or not. -/
theorem plain_entrypointScriptResolved_iff (script : String) :
    Plain (entrypointScriptResolved script) ↔ Plain script := by
  unfold entrypointScriptResolved
  split
  · next hprefix =>
    obtain ⟨rest, hrest⟩ := List.isPrefixOf_iff_prefix.mp hprefix
    obtain rfl : script = "s3://" ++ String.ofList rest := by
      rw [← String.toList_inj, ← hrest]
      simp
    have hdrop : ("s3://" ++ String.ofList rest).toList.drop "s3://".toList.length = rest := by
      simp
    rw [hdrop]
    have hs3 : Plain "s3://" := by decide
    have hs3a : Plain "s3a://" := by decide
    rw [hs3.append_iff, hs3a.append_iff]
  · exact Iff.rfl

section Trip

variable (other : Json → String) (paths : String → List String)

/-- The job's own options arrive one by one. -/
theorem expand_sparkConfStr (sparkConfig : Dict) : expand paths (sparkConfStr other sparkConfig) =
    (sparkConfig.flatMap fun item => ["--conf", configOption other item]).flatMap
      (expand paths) := by
  rw [sparkConfStr, expand_join, List.flatMap_assoc, List.flatMap_map]
  refine List.flatMap_congr fun item _ => ?_
  rw [expand_append]
  simp

private theorem expand_sparkConf (env : Environment) : expand paths (sparkConf env) =
    expand paths (platformConf env) ++ expand paths (env "SPARK_EXTRA_CONF") := by
  unfold sparkConf
  split
  · next hempty => rw [hempty, expand_empty, List.append_nil]
  · exact expand_append paths _ _

/-- The `RunTask` request of an attempt carries the job's data, joined with blanks. -/
structure Carries (task : RunTaskRequest) (jobId : JobId) (request : JobCreateRequest) : Prop where
  jobId : task.jobId = jobId
  entrypoint : task.entrypointScript = request.entrypoint
  arguments : task.arguments = " ".intercalate request.arguments
  sparkConfig : task.sparkConfig = request.sparkConfig

private theorem exists_carries (jobId : JobId) (request : JobCreateRequest) (retry : Option ℕ) :
    ∃ task, runTaskRequest { originalEvent jobId request with retry := retry }.toJson = .ok task ∧
      Carries task jobId request :=
  ⟨_, runTaskRequest_toJson _, rfl, rfl, rfl, rfl⟩

/-- What arrives are the job's words, each expanded. -/
theorem sparkSubmit_of_carries {task : RunTaskRequest} {jobId : JobId} {request : JobCreateRequest}
    (h : Carries task jobId request) (hjob : jobId ≠ "") (definition : Environment) :
    sparkSubmit paths (containerEnvironment other definition task) =
      if request.entrypoint = "" then none
      else some (platformWords paths (containerEnvironment other definition task) ++
        (jobWords other request).flatMap (expand paths)) := by
  let env := containerEnvironment other definition task
  have hid : env "JOB_ID" = jobId := by
    simp [env, containerEnvironment, envOverrides, h.jobId]
  have hentry : env "ENTRYPOINT_SCRIPT" = request.entrypoint := by
    simp [env, containerEnvironment, envOverrides, h.entrypoint]
  have hargs : env "ARGUMENTS" = " ".intercalate request.arguments := by
    simp [env, containerEnvironment, envOverrides, h.arguments]
  have hextra : env "SPARK_EXTRA_CONF" = sparkConfStr other request.sparkConfig := by
    simp [env, containerEnvironment, envOverrides, h.sparkConfig]
  have hwords := expand_sparkConf paths env
  rw [hextra, expand_sparkConfStr] at hwords
  change sparkSubmit paths env = _
  rw [sparkSubmit, hid, hentry, hargs, hwords, expand_join]
  simp [hjob, platformWords, jobWords, env]

end Trip

/-- The words of a job are plain exactly when its request is. -/
theorem plain_jobWords_iff (other : Json → String) (request : JobCreateRequest) :
    (∀ word ∈ jobWords other request, Plain word) ↔ PlainRequest other request := by
  have hconf : Plain "--conf" := by decide
  constructor
  · intro h
    constructor
    · rw [← plain_entrypointScriptResolved_iff]
      exact h _ (List.mem_append_right _ List.mem_cons_self)
    · intro item hitem
      apply h _ (List.mem_append_left _ (List.mem_flatMap.mpr ⟨item, hitem, ?_⟩))
      exact List.mem_cons_of_mem _ List.mem_cons_self
    · intro argument hargument
      exact h _ (List.mem_append_right _ (List.mem_cons_of_mem _ hargument))
  · intro h word hword
    rcases List.mem_append.mp hword with hoption | hrest
    · obtain ⟨item, hitem, hmem⟩ := List.mem_flatMap.mp hoption
      rcases List.mem_cons.mp hmem with rfl | hmem
      · exact hconf
      · rw [List.mem_singleton.mp hmem]
        exact h.sparkConfig item hitem
    · rcases List.mem_cons.mp hrest with rfl | hargument
      · exact (plain_entrypointScriptResolved_iff _).mpr h.entrypoint
      · exact h.arguments word hargument

/-- The words of a job survive the trip exactly if the shell leaves each of them alone. -/
theorem argumentsSurvive_iff_plain_words (other : Json → String) (definition : Environment)
    {jobId : JobId} (hjob : jobId ≠ "") (request : JobCreateRequest) :
    ArgumentsSurvive other definition jobId request ↔
      ∀ word ∈ jobWords other request, Plain word := by
  constructor
  · intro h
    apply (flatMap_expand_eq_self_iff _).mp
    intro paths
    obtain ⟨task, htask, hwords⟩ := h none paths
    obtain ⟨task', htask', hcarries⟩ := exists_carries jobId request none
    obtain rfl : task' = task := Except.ok.inj (htask'.symm.trans htask)
    rw [sparkSubmit_of_carries other paths hcarries hjob definition] at hwords
    split at hwords
    · cases hwords
    · exact List.append_cancel_left (Option.some.inj hwords)
  · intro h retry paths
    obtain ⟨task, htask, hcarries⟩ := exists_carries jobId request retry
    refine ⟨task, htask, ?_⟩
    have hscript : request.entrypoint ≠ "" :=
      ((plain_jobWords_iff other request).mp h).entrypoint.nonempty
    rw [sparkSubmit_of_carries other paths hcarries hjob definition, if_neg hscript,
      (flatMap_expand_eq_self_iff _).mpr h paths]

/-- **Which jobs reach `spark-submit` as submitted.** The words of a job arrive in every attempt
and whatever files there are if and only if the entrypoint, each `k=v` of the Spark options and
each argument is not empty and has neither blanks nor pattern characters. -/
theorem argumentsSurvive_iff (other : Json → String) (definition : Environment) {jobId : JobId}
    (hjob : jobId ≠ "") (request : JobCreateRequest) :
    ArgumentsSurvive other definition jobId request ↔ PlainRequest other request := by
  rw [argumentsSurvive_iff_plain_words other definition hjob, plain_jobWords_iff]

/-- A job with two Spark options, of which one is a number. -/
theorem argumentsSurvive_iff_sample : ArgumentsSurvive (fun _ => "2") (fun _ => "") "job-1"
    { sampleRequest with
      sparkConfig := [("spark.executor.memory", .str "4g"),
        ("spark.executor.cores", .int 2)] } := by
  apply (argumentsSurvive_iff _ _ (by decide) _).mpr
  exact ⟨by decide, by decide, by decide⟩

/-- An argument with a blank arrives as two words. -/
theorem argument_with_blank_is_split : ¬ ArgumentsSurvive (fun _ => "") (fun _ => "") "job-1"
    { sampleRequest with arguments := ["--title", "daily report"] } := by
  intro h
  have hwords := (argumentsSurvive_iff_plain_words _ _ (by decide) _).mp h
  exact absurd (hwords "daily report" (by decide)) (by decide)

end DataHarbour.Orchestrator
